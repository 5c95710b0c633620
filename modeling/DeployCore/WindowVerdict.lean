import DeployCore.WindowGuard

/-! # What the window guard refuses

The guard's automaton against the structure of a zstd stream. `FieldDue` says which field stands behind what has been
read, in the terms of the format; the guard is at the start of that field (`follow_of_fieldDue`), and it refuses a field
exactly where the stream offends (`follow_error_iff`). How the reads cut the stream plays no part in it. -/

namespace DeployCore
open Fallible LittleEndian

abbrev Scan.start : Scan := .collect .magic []

/-- The field stands behind `x`, whose frames are within `bound`. -/
inductive FieldDue (bound : Nat) : Bytes → Field → Prop
  | magic {x} (hx : Zstd.Frames bound x) : FieldDue bound x .magic
  | descriptor {x} (hx : Zstd.Frames bound x) : FieldDue bound (x ++ Zstd.MAGIC) .descriptor
  | header {x d} (hx : Zstd.Frames bound x) (hreserved : Zstd.reserved d = false) :
    FieldDue bound (x ++ Zstd.MAGIC ++ [d]) (.header d)
  | block {x header blocks checksum} (hx : Zstd.Frames bound x) (hheader : Zstd.Header bound checksum header)
      (hblocks : Zstd.Blocks blocks) : FieldDue bound (x ++ header ++ blocks) (.block checksum)
  | skippableLength {x magic} (hx : Zstd.Frames bound x) (hmagic : Zstd.SkippableMagic magic) :
    FieldDue bound (x ++ magic) .skippableLength

/-- Where the guard stands once it has read `x`. -/
inductive ScanStands (bound : Nat) : Bytes → Scan → Prop
  | collect {x field bytes} (hx : FieldDue bound x field) (hbytes : bytes.length < field.len) :
    ScanStands bound (x ++ bytes) (.collect field bytes)
  | skip {x remaining next} (hnext : ∀ y : Bytes, y.length = remaining → FieldDue bound (x ++ y) next)
      (hpos : 0 < remaining) : ScanStands bound x (.skip remaining next)

section
variable {limit : UInt64} {x y bytes : Bytes} {field : Field} {scan scan' : Scan} {fault : StreamFault} {offence : Zstd.Offence}

theorem ScanStands.skipping {bound remaining : Nat} {next : Field}
    (hnext : ∀ y : Bytes, y.length = remaining → FieldDue bound (x ++ y) next) : ScanStands bound x (.skipping remaining next) := by
  unfold Scan.skipping
  split
  next hzero =>
    have hx := hnext [] hzero.symm
    rw [List.append_nil] at hx
    have hstands := @ScanStands.collect bound x next [] hx (len_bounds next).1
    rwa [List.append_nil] at hstands
  next hpos => exact .skip hnext (Nat.pos_of_ne_zero hpos)

theorem ScanStands.begins {bound : Nat} (hx : FieldDue bound x field) : ScanStands bound x (.collect field []) := by
  have hstands := @ScanStands.collect bound x field [] hx (len_bounds field).1
  rwa [List.append_nil] at hstands

/-- A frame that ends where its blocks and checksum do. -/
theorem frames_standard {bound content : Nat} {checksum : Bool} {header blocks last y : Bytes} (hx : Zstd.Frames bound x)
    (hheader : Zstd.Header bound checksum header) (hblocks : Zstd.Blocks blocks) (hlength : last.length = 3)
    (hlast : Zstd.isLast last = true) (hcontent : Zstd.contentLen last = some content)
    (hy : y.length = content + Zstd.trailerLen checksum) :
    Zstd.Frames bound (x ++ header ++ blocks ++ last ++ y) := by
  have hsplit : y.take content ++ y.drop content = y := List.take_append_drop _ _
  have htake : (y.take content).length = content := by
    rw [List.length_take]
    omega
  have hframe : Zstd.Frame bound (header ++ blocks ++ (last ++ y.take content) ++ y.drop content) := by
    refine .standard hheader hblocks (.intro hlength hlast (by rw [hcontent, htake])) ?_
    rw [List.length_drop]
    omega
  have hframes := Zstd.Frames.snoc hx hframe
  rw [← hsplit]
  simpa only [List.append_assoc] using hframes

/-- A field that is complete leads to the next, or the stream offends with it. -/
theorem stands_of_complete (hx : FieldDue limit.toNat x field) (hlength : bytes.length = field.len) :
    (∀ scan, complete field bytes limit = .ok scan → ScanStands limit.toNat (x ++ bytes) scan) ∧
    ∀ fault, complete field bytes limit = .error fault →
      ∃ offence, Zstd.Offends limit.toNat offence (x ++ bytes) ∧ fault = offenceFault limit offence := by
  cases hx with
  | magic hx =>
    by_cases hstandard : bytes = Zstd.MAGIC
    · rw [hstandard, complete_standardMagic]
      exact ⟨fun scan h => Except.ok.inj h ▸ .begins (.descriptor hx), fun _ h => by cases h⟩
    · by_cases hskippable : Zstd.SkippableMagic bytes
      · rw [complete_skippableMagic hskippable]
        exact ⟨fun scan h => Except.ok.inj h ▸ .begins (.skippableLength hx hskippable), fun _ h => by cases h⟩
      · rw [complete_otherMagic hstandard hskippable]
        exact ⟨fun _ h => (by cases h), fun fault h => ⟨.magic, .magic hx hlength hstandard hskippable, (Except.error.inj h).symm⟩⟩
  | descriptor hx =>
    obtain ⟨d, rfl⟩ := List.length_eq_one_iff.mp hlength
    rw [complete_descriptor]
    split
    next hreserved => exact ⟨fun _ h => (by cases h), fun fault h => ⟨.descriptor, .descriptor hx hreserved, (Except.error.inj h).symm⟩⟩
    next hreserved =>
      exact ⟨fun scan h => Except.ok.inj h ▸ .begins (.header hx (Bool.not_eq_true _ ▸ hreserved)), fun _ h => by cases h⟩
  | @header x d hx hreserved =>
    rw [len_header] at hlength
    rw [complete_header hlength]
    split
    next hwindow =>
      exact ⟨fun _ h => (by cases h), fun fault h => ⟨.window, .window hx hreserved hlength hwindow, (Except.error.inj h).symm⟩⟩
    next hwindow =>
      refine ⟨fun scan h => Except.ok.inj h ▸ .begins ?_, fun _ h => by cases h⟩
      have hheader := Zstd.Header.intro hreserved hlength (Nat.not_lt.mp hwindow)
      have hblock := FieldDue.block hx hheader .nil
      simpa only [List.append_nil, List.append_assoc] using hblock
  | @block x header blocks checksum hx hheader hblocks =>
    rw [complete_block hlength]
    rcases hcontent : Zstd.contentLen bytes with _ | content
    · exact ⟨fun _ h => (by cases h), fun fault h => ⟨.blockType, .blockType hx hheader hblocks hlength hcontent, (Except.error.inj h).symm⟩⟩
    · rcases hlast : Zstd.isLast bytes with _ | _
      · refine ⟨fun scan h => Except.ok.inj h ▸ .skipping fun y hy => ?_, fun _ h => by cases h⟩
        have hblock : Zstd.Block false (bytes ++ y) := .intro hlength hlast (by rw [hcontent, hy])
        have hnext := FieldDue.block hx hheader (.snoc hblocks hblock)
        simpa only [List.append_assoc] using hnext
      · refine ⟨fun scan h => Except.ok.inj h ▸ .skipping fun y hy => ?_, fun _ h => by cases h⟩
        exact .magic (frames_standard hx hheader hblocks hlength hlast hcontent hy)
  | @skippableLength x magic hx hmagic =>
    rw [complete_skippableLength hlength]
    refine ⟨fun scan h => Except.ok.inj h ▸ .skipping fun y hy => ?_, fun _ h => by cases h⟩
    have hframes := Zstd.Frames.snoc hx (.skippable hmagic hlength hy)
    exact .magic (by simpa only [List.append_assoc] using hframes)

/-- One byte further. -/
theorem ScanStands.advance {byte : UInt8} (h : ScanStands limit.toNat x scan) :
    (∀ used scan', DeployCore.advance limit [byte] scan = .ok used scan' → ScanStands limit.toNat (x ++ [byte]) scan') ∧
    ∀ fault scan', DeployCore.advance limit [byte] scan = .error fault scan' →
      ∃ offence, Zstd.Offends limit.toNat offence (x ++ [byte]) ∧ fault = offenceFault limit offence := by
  cases h with
  | @skip x remaining next hnext hpos =>
    have hscan : Scan.skip remaining next = .skipping remaining next := (if_neg (Nat.pos_iff_ne_zero.mp hpos)).symm
    have hone : min [byte].length remaining = 1 := by
      rw [List.length_singleton]
      omega
    rw [hscan, advance_skipping hpos, hone]
    refine ⟨fun used scan' h => ?_, fun fault scan' h => by cases h⟩
    cases h
    refine .skipping fun y hy => ?_
    rw [List.append_assoc]
    exact hnext _ (by rw [List.singleton_append, List.length_cons]; omega)
  | @collect x field bytes hx hbytes =>
    rcases Nat.lt_or_ge (bytes.length + 1) field.len with hshort | hwhole
    · rw [@advance_collect_short limit field bytes [byte] hshort, List.append_assoc]
      refine ⟨fun used scan' h => ?_, fun fault scan' h => by cases h⟩
      cases h
      exact .collect hx (by rw [List.length_append]; exact hshort)
    · have htake : [byte].take (field.len - bytes.length) = [byte] := by
        rw [List.take_of_length_le]
        rw [List.length_singleton]
        omega
      rw [@advance_collect limit field bytes [byte] hbytes hwhole, htake, List.append_assoc]
      have hlength : (bytes ++ [byte]).length = field.len := by
        rw [List.length_append, List.length_singleton]
        omega
      obtain ⟨hok, herror⟩ := stands_of_complete hx hlength
      rcases hcomplete : complete field (bytes ++ [byte]) limit with fault | scan
      · refine ⟨fun used scan' h => (by cases h), fun fault' scan' h => ?_⟩
        cases h
        exact herror _ hcomplete
      · refine ⟨fun used scan' h => ?_, fun fault scan' h => by cases h⟩
        cases h
        exact hok _ hcomplete

theorem ScanStands.follow (h : ScanStands limit.toNat x scan) :
    (∀ scan', DeployCore.follow limit y scan = .ok () scan' → ScanStands limit.toNat (x ++ y) scan') ∧
    ∀ fault scan', DeployCore.follow limit y scan = .error fault scan' →
      ∃ offence z, z <+: x ++ y ∧ Zstd.Offends limit.toNat offence z ∧ fault = offenceFault limit offence := by
  induction y generalizing x scan with
  | nil =>
    rw [List.append_nil]
    exact ⟨fun scan' h' => by cases h'; exact h, fun fault scan' h' => by cases h'⟩
  | cons byte y ih =>
    have hadvance (byte : UInt8) := @ScanStands.advance _ _ _ byte h
    obtain ⟨hok, herror⟩ := hadvance byte
    rw [List.append_cons]
    refine ⟨fun scan' h' => ?_, fun fault scan' h' => ?_⟩
    · obtain ⟨used, s, hstep, hrest⟩ := bind_ok h'
      exact (ih (hok _ _ hstep)).1 _ hrest
    · rcases bind_error h' with hstep | ⟨used, s, hstep, hrest⟩
      · obtain ⟨offence, hoffends, hfault⟩ := herror _ _ hstep
        exact ⟨offence, x ++ [byte], List.prefix_append _ _, hoffends, hfault⟩
      · exact (ih (hok _ _ hstep)).2 _ _ hrest

/-! ### The guard at a field -/

theorem follow_field (hlength : bytes.length = field.len) (h : complete field bytes limit = .ok scan) :
    follow limit bytes (.collect field []) = .ok () scan := by
  have hfollow := @follow_collect limit field [] bytes (len_bounds field).1 (by rw [List.length_nil, Nat.zero_add, hlength])
  rw [List.nil_append, h] at hfollow
  exact hfollow

theorem follow_magic : follow limit Zstd.MAGIC .start = .ok () (.collect .descriptor []) :=
  follow_field rfl complete_standardMagic

theorem follow_descriptor {d : UInt8} (hreserved : Zstd.reserved d = false) :
    follow limit [d] (.collect .descriptor []) = .ok () (.collect (.header d) []) := by
  refine follow_field rfl ?_
  rw [complete_descriptor, hreserved]
  rfl

theorem follow_header {checksum : Bool} {header : Bytes} (h : Zstd.Header limit.toNat checksum header) :
    follow limit header .start = .ok () (.collect (.block checksum) []) := by
  obtain ⟨hreserved, hlength, hwindow⟩ := h
  rw [follow_append_ok (follow_append_ok follow_magic |>.trans (follow_descriptor hreserved))]
  refine follow_field (by rw [len_header, hlength]) ?_
  rw [complete_header hlength, if_neg (Nat.not_lt.mpr hwindow)]

theorem follow_block {checksum : Bool} {block : Bytes} (h : Zstd.Block false block) :
    follow limit block (.collect (.block checksum) []) = .ok () (.collect (.block checksum) []) := by
  obtain @⟨header, content, hlength, hlast, hcontent⟩ := h
  have hcomplete := @complete_block limit header checksum hlength
  rw [hcontent, hlast] at hcomplete
  rw [follow_append_ok (follow_field hlength hcomplete), follow_skipping (Nat.le_refl _), Nat.sub_self]
  rfl

theorem follow_blocks {checksum : Bool} {blocks : Bytes} (h : Zstd.Blocks blocks) :
    follow limit blocks (.collect (.block checksum) []) = .ok () (.collect (.block checksum) []) := by
  induction h with
  | nil => rfl
  | snoc _ hy ih => rw [follow_append_ok ih, follow_block hy]

theorem follow_frame (h : Zstd.Frame limit.toNat x) : follow limit x .start = .ok () .start := by
  cases h with
  | @standard checksum header blocks last trailer hheader hblocks hlast htrailer =>
    obtain @⟨head, content, hlength, hlast, hcontent⟩ := hlast
    have hcomplete := @complete_block limit head checksum hlength
    rw [hcontent, hlast] at hcomplete
    have hrest : (content ++ trailer).length = content.length + Zstd.trailerLen checksum := by
      rw [List.length_append, htrailer]
    rw [List.append_assoc, List.append_assoc head, follow_append_ok (follow_append_ok (follow_header hheader) |>.trans (follow_blocks hblocks)),
      follow_append_ok (follow_field hlength hcomplete), follow_skipping (Nat.le_of_eq hrest), hrest, Nat.sub_self]
    rfl
  | @skippable magic len payload hmagic hlen hpayload =>
    have hmagicLength : magic.length = 4 := by
      obtain ⟨low, -, rfl⟩ := hmagic
      rfl
    have hlenField := @follow_field limit len .skippableLength _ hlen (complete_skippableLength hlen)
    rw [List.append_assoc, follow_append_ok (follow_field hmagicLength (complete_skippableMagic hmagic)),
      follow_append_ok hlenField, follow_skipping (Nat.le_of_eq hpayload), hpayload, Nat.sub_self]
    rfl

theorem follow_frames (h : Zstd.Frames limit.toNat x) : follow limit x .start = .ok () .start := by
  induction h with
  | nil => rfl
  | snoc _ hy ih => rw [follow_append_ok ih, follow_frame hy]

theorem follow_of_fieldDue (h : FieldDue limit.toNat x field) : follow limit x .start = .ok () (.collect field []) := by
  cases h with
  | magic hx => exact follow_frames hx
  | descriptor hx => rw [follow_append_ok (follow_frames hx), follow_magic]
  | header hx hreserved =>
    rw [List.append_assoc, follow_append_ok (follow_frames hx), follow_append_ok follow_magic, follow_descriptor hreserved]
  | block hx hheader hblocks =>
    rw [List.append_assoc, follow_append_ok (follow_frames hx), follow_append_ok (follow_header hheader), follow_blocks hblocks]
  | skippableLength hx hmagic =>
    have hlength := hmagic
    obtain ⟨low, -, rfl⟩ := hlength
    rw [follow_append_ok (follow_frames hx)]
    exact follow_field rfl (complete_skippableMagic hmagic)

/-- The offence a field can be refused for. -/
def Field.refusedFor : Field → Zstd.Offence
  | .magic | .skippableLength => .magic
  | .descriptor => .descriptor
  | .header _ => .window
  | .block _ => .blockType

theorem follow_of_offends (h : Zstd.Offends limit.toNat offence x) :
    ∃ field bytes, follow limit x .start = .error (offenceFault limit offence) (.collect field bytes) ∧
      field.refusedFor = offence := by
  have hrefused {x bytes : Bytes} {field : Field} (hx : FieldDue limit.toNat x field) (hlength : bytes.length = field.len)
      (hcomplete : complete field bytes limit = .error (offenceFault limit field.refusedFor)) :
      follow limit (x ++ bytes) .start = .error (offenceFault limit field.refusedFor) (.collect field bytes) := by
    have hfollow := @follow_collect limit field [] bytes (len_bounds field).1 (by rw [List.length_nil, Nat.zero_add, hlength])
    rw [List.nil_append, hcomplete] at hfollow
    rw [follow_append_ok (follow_of_fieldDue hx), hfollow]
  cases h with
  | magic hx hlength hstandard hskippable =>
    exact ⟨.magic, _, hrefused (.magic hx) hlength (complete_otherMagic hstandard hskippable), rfl⟩
  | descriptor hx hreserved =>
    exact ⟨.descriptor, _, hrefused (.descriptor hx) rfl (by rw [complete_descriptor, if_pos hreserved]; rfl), rfl⟩
  | @window x fields d hx hreserved hlength hwindow =>
    exact ⟨.header d, _, hrefused (.header hx hreserved) (by rw [len_header, hlength])
      (by rw [complete_header hlength, if_pos hwindow]; rfl), rfl⟩
  | @blockType x header blocks block checksum hx hheader hblocks hlength htype =>
    exact ⟨.block checksum, _, hrefused (.block hx hheader hblocks) hlength
      (by rw [complete_block hlength, htype]; rfl), rfl⟩

/-- The guard refuses a stream exactly where it offends. -/
theorem follow_error_iff : (∃ scan, follow limit x .start = .error fault scan) ↔
    ∃ offence y, y <+: x ∧ Zstd.Offends limit.toNat offence y ∧ fault = offenceFault limit offence := by
  constructor
  · rintro ⟨scan, h⟩
    obtain ⟨offence, y, hy, hoffends, hfault⟩ := (ScanStands.begins (.magic .nil)).follow.2 _ _ h
    exact ⟨offence, y, hy, hoffends, hfault⟩
  · rintro ⟨offence, y, ⟨rest, rfl⟩, hoffends, rfl⟩
    obtain ⟨field, bytes, hfollow, -⟩ := follow_of_offends hoffends
    exact ⟨_, follow_append_error hfollow⟩

/-- A stream offends in one way. -/
theorem offence_unique {offence' : Zstd.Offence} {z : Bytes} (hy : Zstd.Offends limit.toNat offence y) (hz : Zstd.Offends limit.toNat offence' z)
    (hyx : y <+: x) (hzx : z <+: x) : offence = offence' := by
  obtain ⟨field, bytes, hfollow, rfl⟩ := follow_of_offends hy
  obtain ⟨field', bytes', hfollow', rfl⟩ := follow_of_offends hz
  obtain ⟨rest, rfl⟩ := hyx
  obtain ⟨rest', hsame⟩ := hzx
  have hboth := (@follow_append_error limit y rest _ _ _ hfollow).symm.trans (hsame ▸ follow_append_error hfollow')
  have hscan := (EStateM.Result.error.inj hboth).2
  rw [(Scan.collect.inj hscan).1]

/-- A guard that has refused the stream stands at the field it refused. -/
theorem refused_of_follow (hformed : scan.Formed) (h : follow limit x scan = .error fault scan') :
    ∃ field bytes, scan' = .collect field bytes ∧ bytes.length = field.len ∧ complete field bytes limit = .error fault := by
  induction x generalizing scan with
  | nil => cases h
  | cons byte x ih =>
    rcases bind_error h with hstep | ⟨_, s, hstep, hrest⟩
    · cases scan with
      | skip remaining next => cases hstep
      | collect field bytes =>
        have hbytes : bytes.length < field.len := hformed
        rcases Nat.lt_or_ge (bytes.length + 1) field.len with hshort | hwhole
        · rw [@advance_collect_short limit field bytes [byte] hshort] at hstep
          cases hstep
        · have hlength : (bytes ++ [byte].take (field.len - bytes.length)).length = field.len := by
            rw [List.length_append, List.length_take, List.length_singleton]
            omega
          rw [@advance_collect limit field bytes [byte] hbytes hwhole] at hstep
          split at hstep <;> cases hstep
          next hcomplete => exact ⟨field, _, rfl, hlength, hcomplete⟩
    · exact ih (formed_of_follow (x := [byte]) hformed ((bind_of_ok hstep).trans rfl)) hrest

theorem advance_refused (hlength : bytes.length = field.len) (hcomplete : complete field bytes limit = .error fault) :
    advance limit x (.collect field bytes) = .error fault (.collect field bytes) := by
  have hused : min (field.len - bytes.length) x.length = 0 := by omega
  simp only [advance, hused, List.take_zero, List.append_nil]
  rw [if_pos (Nat.le_of_eq hlength.symm), List.take_of_length_le (Nat.le_of_eq hlength), hcomplete]

end

/-! ### The guard over a run of reads -/

/-- The guard has let `delivered` through, in whatever pieces, and refused nothing. -/
inductive WindowGuard.Reached (limits : OuterLimits) : WindowGuard → Bytes → Prop
  | new : Reached limits (.new limits) []
  | failed {guard delivered buf inner e} (h : Reached limits guard delivered)
      (hinner : inner (min buf guard.copyBuffer) = .error e) : Reached limits (guard.read buf inner).2 delivered
  | delivered {guard delivered buf inner window} (h : Reached limits guard delivered)
      (hread : (guard.read buf inner).1 = .ok window) : Reached limits (guard.read buf inner).2 (delivered ++ window)

/-- What a stream is refused with: a function of its bytes alone. -/
def windowVerdict (limit : UInt64) (stream : Bytes) : Option StreamFault :=
  match follow limit stream .start with
  | .ok _ _ => none
  | .error fault _ => some fault

/-- The bytes of a field that are kept. -/
def Scan.buffered : Scan → Bytes
  | .collect _ bytes => bytes
  | .skip _ _ => []

/-- The guard stands at `scan` behind a stream it has let through or refused. -/
def Visits (limit : UInt64) (stream : Bytes) (scan : Scan) : Prop :=
  follow limit stream .start = .ok () scan ∨ ∃ fault, follow limit stream .start = .error fault scan

section
variable {limits : OuterLimits} {limit : UInt64} {guard : WindowGuard} {delivered stream window : Bytes} {scan : Scan}
  {fault : StreamFault}

theorem formed_start : Scan.start.Formed := (len_bounds _).1

theorem windowVerdict_eq_some : windowVerdict limit stream = some fault ↔
    ∃ offence x, x <+: stream ∧ Zstd.Offends limit.toNat offence x ∧ fault = offenceFault limit offence := by
  rw [← follow_error_iff, windowVerdict]
  split
  next hok => exact ⟨nofun, fun ⟨_, h⟩ => nomatch hok.symm.trans h⟩
  next herror => exact ⟨fun h => ⟨_, Option.some.inj h ▸ herror⟩, fun ⟨_, h⟩ => by cases herror.symm.trans h; rfl⟩

theorem WindowGuard.read_ok {buf : Nat} {inner : Nat → Except IoError Bytes} (hinner : inner (min buf guard.copyBuffer) = .ok window)
    (hformed : guard.scan.Formed) : guard.read buf inner =
      match follow guard.limit window guard.scan with
      | .ok _ scan => (.ok window, { guard with scan })
      | .error fault scan => (.error fault, { guard with scan }) := by
  rw [WindowGuard.read, hinner]
  dsimp only
  rewrite [advanceAll_eq hformed (Nat.le_refl _)]
  rfl

/-- The guard stands where its delivered bytes lead to. -/
theorem WindowGuard.Reached.follows (h : Reached limits guard delivered) :
    guard.limit = limits.zstdWindow ∧ guard.copyBuffer = limits.copyBuffer ∧
      follow limits.zstdWindow delivered .start = .ok () guard.scan := by
  induction h with
  | new => exact ⟨rfl, rfl, rfl⟩
  | @failed guard delivered buf inner e _ hinner ih =>
    rw [WindowGuard.read, hinner]
    exact ih
  | @delivered guard delivered buf inner window _ hread ih =>
    obtain ⟨hlimit, hbuffer, hfollow⟩ := ih
    have hformed := formed_of_follow formed_start hfollow
    rcases hinner : inner (min buf guard.copyBuffer) with e | window'
    · rw [WindowGuard.read, hinner] at hread
      cases hread
    · rw [read_ok hinner hformed] at hread ⊢
      rw [hlimit] at hread ⊢
      rcases hstep : DeployCore.follow limits.zstdWindow window' guard.scan with ⟨_, scan⟩ | ⟨fault, scan⟩
      · rw [hstep] at hread
        cases hread
        exact ⟨rfl, hbuffer, (follow_append_ok hfollow).trans hstep⟩
      · rw [hstep] at hread
        cases hread

theorem Visits.bounded (h : Visits limit stream scan) :
    (∀ input used scan', input ≠ [] → advance limit input scan = .ok used scan' → 0 < used ∧ used ≤ input.length) ∧
      scan.buffered.length ≤ ZSTD_MAX_FIELD_LEN := by
  rcases h with h | ⟨fault, h⟩
  · have hformed := formed_of_follow formed_start h
    refine ⟨fun input used scan' hinput hadvance => ?_, ?_⟩
    · rcases advance_follows hformed hinput with ⟨_, _, hadvance', hpos, hle, -⟩ | ⟨_, _, hadvance', -⟩
      · cases hadvance.symm.trans hadvance'
        exact ⟨hpos, hle⟩
      · cases hadvance.symm.trans hadvance'
    · cases scan with
      | skip => exact Nat.zero_le _
      | collect field bytes => exact Nat.le_trans (Nat.le_of_lt hformed) (len_bounds field).2
  · obtain ⟨field, bytes, rfl, hlength, hcomplete⟩ := refused_of_follow formed_start h
    refine ⟨fun input used scan' _ hadvance => ?_, ?_⟩
    · cases hadvance.symm.trans (advance_refused hlength hcomplete)
    · show bytes.length ≤ _
      rw [hlength]
      exact (len_bounds field).2

/-- However the reads cut the stream, the guard refuses it in the read that brings the end of a frame header that
declares a window above the limit or cannot be read, or of a block header of the reserved type, and in no other; what it
has let through has none of these. A step over bytes that are there takes one of them at least, and no more than a
frame header is kept. -/
theorem windowGuard_follows (h : WindowGuard.Reached limits guard delivered) :
    (∀ stream fault, windowVerdict limits.zstdWindow stream = some fault ↔
      ∃ offence x, x <+: stream ∧ Zstd.Offends limits.zstdWindow.toNat offence x ∧
        fault = offenceFault limits.zstdWindow offence) ∧
    windowVerdict limits.zstdWindow delivered = none ∧
    (∀ buf inner window, inner (min buf limits.copyBuffer) = .ok window →
      (guard.read buf inner).1 =
        match windowVerdict limits.zstdWindow (delivered ++ window) with
        | some fault => .error fault
        | none => .ok window) ∧
    (∀ buf inner window fault buf' inner' window', inner (min buf limits.copyBuffer) = .ok window →
      (guard.read buf inner).1 = .error fault → inner' (min buf' limits.copyBuffer) = .ok window' → window' ≠ [] →
        ((guard.read buf inner).2.read buf' inner').1 = .error fault) ∧
    Visits limits.zstdWindow delivered guard.scan ∧
    ∀ stream scan, Visits limits.zstdWindow stream scan →
      (∀ input used scan', input ≠ [] → advance limits.zstdWindow input scan = .ok used scan' →
        0 < used ∧ used ≤ input.length) ∧
      scan.buffered.length ≤ ZSTD_MAX_FIELD_LEN := by
  obtain ⟨hlimit, hbuffer, hfollow⟩ := h.follows
  have hformed := formed_of_follow formed_start hfollow
  have hread (buf : Nat) (inner : Nat → Except IoError Bytes) (window : Bytes)
      (hinner : inner (min buf limits.copyBuffer) = .ok window) :
      guard.read buf inner = match follow limits.zstdWindow (delivered ++ window) .start with
        | .ok _ scan => (.ok window, { guard with scan })
        | .error fault scan => (.error fault, { guard with scan }) := by
    rw [WindowGuard.read_ok (hbuffer ▸ hinner) hformed, follow_append_ok hfollow, hlimit]
  refine ⟨fun _ _ => windowVerdict_eq_some, ?_, fun buf inner window hinner => ?_, ?_, .inl hfollow, fun _ _ => Visits.bounded⟩
  · rw [windowVerdict, hfollow]
  · rw [hread buf inner window hinner, windowVerdict]
    cases follow limits.zstdWindow (delivered ++ window) .start <;> rfl
  · intro buf inner window fault buf' inner' window' hinner hfault hinner' hne
    have hfirst := hread buf inner window hinner
    rcases hstep : follow limits.zstdWindow (delivered ++ window) .start with ⟨_, scan⟩ | ⟨fault', scan⟩ <;> rw [hstep] at hfirst
    · rw [hfirst] at hfault
      cases hfault
    · rw [hfirst] at hfault ⊢
      cases hfault
      obtain ⟨field, bytes, rfl, hlength, hcomplete⟩ := refused_of_follow formed_start hstep
      obtain ⟨byte, rest, rfl⟩ := List.exists_cons_of_ne_nil hne
      have hinner' : inner' (min buf' guard.copyBuffer) = .ok (byte :: rest) := hbuffer ▸ hinner'
      have hloop : advanceAll guard.limit (byte :: rest).length (byte :: rest) (.collect field bytes) =
          .error fault (.collect field bytes) := by
        rw [List.length_cons, advanceAll, if_neg hne, hlimit]
        exact bind_of_error (advance_refused hlength hcomplete)
      simp only [WindowGuard.read, hinner', hloop]

end

/-! ### A block of the reserved type -/

def testLimits : OuterLimits := ⟨16, 65536, 1048576, 4096⟩

/-- A header of a frame with a window of 1 KiB, and the header of a block of the reserved type. -/
def reservedBlock : Bytes := Zstd.MAGIC ++ [0x00, 0x00] ++ [0x06, 0x00, 0x00]

def guardAtBlock : WindowGuard := ⟨1048576, 4096, .collect (.block false) []⟩

theorem reached_guardAtBlock : WindowGuard.Reached testLimits guardAtBlock (Zstd.MAGIC ++ [0x00, 0x00]) := by
  have hread : ((WindowGuard.new testLimits).read 6 fun _ => .ok (Zstd.MAGIC ++ [0x00, 0x00])) =
      (.ok (Zstd.MAGIC ++ [0x00, 0x00]), guardAtBlock) := rfl
  have hreached := @WindowGuard.Reached.delivered testLimits _ _ _ _ _ .new (congrArg Prod.fst hread)
  rwa [hread] at hreached

theorem windowGuard_follows_reserved :
    (guardAtBlock.read 3 fun _ => .ok [0x06, 0x00, 0x00]).1 = .error .unreadableFrame ∧
      windowVerdict 1048576 (Zstd.MAGIC ++ [0x00, 0x00]) = none := by
  obtain ⟨-, hdelivered, hread, -⟩ := windowGuard_follows reached_guardAtBlock
  exact ⟨hread 3 (fun _ => .ok [0x06, 0x00, 0x00]) [0x06, 0x00, 0x00] rfl, hdelivered⟩

/-- No frame header offends in it. -/
theorem reservedBlock_refused :
    WindowGuard.Reached testLimits guardAtBlock (Zstd.MAGIC ++ [0x00, 0x00]) ∧
    (guardAtBlock.read 3 fun _ => .ok [0x06, 0x00, 0x00]).1 = .error .unreadableFrame ∧
    ¬∃ offence x, offence ≠ .blockType ∧ x <+: reservedBlock ∧
      Zstd.Offends testLimits.zstdWindow.toNat offence x := by
  refine ⟨reached_guardAtBlock, rfl, fun ⟨offence, x, hother, hx, hoffends⟩ => hother ?_⟩
  have hheader : Zstd.Header testLimits.zstdWindow.toNat false (Zstd.MAGIC ++ [0x00] ++ [0x00]) :=
    @Zstd.Header.intro testLimits.zstdWindow.toNat 0x00 [0x00] rfl rfl (by decide)
  have hreserved : Zstd.Offends testLimits.zstdWindow.toNat .blockType reservedBlock :=
    @Zstd.Offends.blockType _ [] _ [] [0x06, 0x00, 0x00] _ .nil hheader .nil rfl rfl
  exact offence_unique hoffends hreserved hx (List.prefix_refl _)

end DeployCore
