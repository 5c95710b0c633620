import DeployCore.TarPassage

/-! # How a walk lays out its stream

The headers of a walk, with their data and padding, lie one behind the other from the start of the stream, and an
archive that is accepted ends in its zero tail right behind the last entry. -/

namespace DeployCore
open Fallible CountingReader LittleEndian TarWalker

namespace TarWalker
variable {w w₁ w₂ : TarWalker} {extension : Extension} {kind : EntryKind} {header : HeaderFields} {entry : TarEntry}
  {bytes : Bytes} {offset : Nat} {records : List Record} {rules : Rules}

theorem decodeHeader_congr {block : Bytes} {rules' : Rules} (h : rules.isImage = rules'.isImage) :
    decodeHeader rules block = decodeHeader rules' block := by
  have hclassify : rules.classify = rules'.classify := by
    funext flag
    unfold Rules.classify
    rw [h]
  unfold decodeHeader
  rw [hclassify]

theorem Extended.rules_eq (h : Extended w extension header w₁) :
    ∃ layer pending, w.rules = .layer layer ∧ 1 ≤ layer.entries.remaining ∧
      layer.pending.present extension = false ∧ header.size ≤ layer.extensionTotal.remaining ∧
      layer.pending.record extension (slice w.source.source.bytes BLOCK header.size) = .ok pending ∧
      w₁.rules = .layer { layer with
        entries := layer.entries.after 1
        extensionTotal := layer.extensionTotal.after header.size
        pending } := by
  obtain ⟨hread, hcharge, _, _, _, hrecord⟩ := h
  obtain ⟨layer, rfl, hpresent, hfits, rfl⟩ := chargeExtension_ok hcharge
  obtain ⟨pending, hpending, rfl⟩ := recordExtension_ok hrecord
  rcases countHeader_ok hread.counted with ⟨image, _, _, heq⟩ | ⟨layer', hrules, hcount, heq⟩
  · cases heq
  · cases heq
    exact ⟨layer', pending, hrules, hcount, hpresent, hfits, hpending, rfl⟩

theorem Entered.rules_eq (h : Entered w kind header entry w₁) :
    (∃ image admitted image', w.rules = .image image ∧ 1 ≤ image.entries.remaining ∧
      ImageRules.admitHeader { image with entries := image.entries.after 1 } kind header = .ok (admitted, image') ∧
      entry.name = admitted.name ∧ w₁.rules = .image image') ∨
    ∃ layer admitted, w.rules = .layer layer ∧ 1 ≤ layer.entries.remaining ∧
      LayerRules.resolve { layer with entries := layer.entries.after 1 } layer.pending kind header = .ok admitted ∧
      entry.name = admitted.name ∧ entry.linkTarget = admitted.linkTarget ∧ entry.size = admitted.size ∧
      w₁.rules = .layer { layer with
        entries := layer.entries.after 1
        pending := .empty } := by
  obtain ⟨hread, hadmitted, _, _⟩ := h
  rcases countHeader_ok hread.counted with ⟨image, hrules, hcount, rfl⟩ | ⟨layer, hrules, hcount, rfl⟩
  · rcases admitHeader_ok hadmitted with ⟨_, image', heq, himage, rfl⟩ | ⟨_, heq, _, _⟩
    · cases heq
      exact .inl ⟨image, _, image', hrules, hcount, himage, rfl, rfl⟩
    · cases heq
  · rcases admitHeader_ok hadmitted with ⟨_, _, heq, _, _⟩ | ⟨_, heq, hresolve, rfl⟩
    · cases heq
    · cases heq
      exact .inr ⟨layer, _, hrules, hcount, hresolve, rfl, rfl, rfl, rfl⟩

theorem entries_admitHeader {image image' : ImageRules} {admitted : Admitted}
    (h : image.admitHeader kind header = .ok (admitted, image')) : image'.entries = image.entries := by
  obtain ⟨canonical, -, hrecord, -⟩ := ImageRules.admitHeader_ok h
  rw [ImageRules.record_ok hrecord]

theorem Extended.isImage (h : Extended w extension header w₁) :
    w₁.rules.isImage = w.rules.isImage ∧ w₁.rules.headersLeft < w.rules.headersLeft := by
  obtain ⟨layer, pending, hrules, hcount, -, -, -, hrules₁⟩ := h.rules_eq
  rw [hrules, hrules₁]
  refine ⟨rfl, ?_⟩
  show (layer.entries.after 1).remaining < layer.entries.remaining
  rw [Budget.remaining_after hcount]
  omega

theorem Entered.isImage (h : Entered w kind header entry w₁) :
    w₁.rules.isImage = w.rules.isImage ∧ w₁.rules.headersLeft < w.rules.headersLeft ∧ w₁.rules.hasPending = false := by
  rcases h.rules_eq with ⟨image, admitted, image', hrules, hcount, hadmitted, -, hrules₁⟩ |
    ⟨layer, admitted, hrules, hcount, -, -, -, -, hrules₁⟩
  · rw [hrules, hrules₁]
    refine ⟨rfl, ?_, rfl⟩
    show image'.entries.remaining < image.entries.remaining
    rw [entries_admitHeader hadmitted, Budget.remaining_after hcount]
    omega
  · rw [hrules, hrules₁]
    refine ⟨rfl, ?_, rfl⟩
    show (layer.entries.after 1).remaining < layer.entries.remaining
    rw [Budget.remaining_after hcount]
    omega

theorem any_record {pending pending' : Pending} {payload : Bytes}
    (h : pending.record extension payload = .ok pending') : pending'.any := by
  cases extension with
  | pax =>
    obtain ⟨pax, -, rfl⟩ := Checks.map_ok h
    rfl
  | longName =>
    obtain ⟨name, -, h⟩ := Checks.bind_ok h
    split at h <;> cases h
    simp [Pending.any]
  | longLink =>
    obtain ⟨link, -, h⟩ := Checks.bind_ok h
    split at h <;> cases h
    simp [Pending.any]

theorem Passes.isImage (h : Passes w records w₁) :
    w₁.rules.isImage = w.rules.isImage ∧ w₁.rules.headersLeft ≤ w.rules.headersLeft ∧
      (w₁.rules.hasPending = false → records = []) := by
  induction h with
  | here => exact ⟨rfl, le_rfl, fun _ => rfl⟩
  | @record w w₁ w₂ extension header records hsteady h hrest ih =>
    obtain ⟨himage, hleft, hpending⟩ := ih
    obtain ⟨himage₁, hleft₁⟩ := h.isImage
    have hleft₁ : w₁.rules.headersLeft < w.rules.headersLeft := hleft₁
    refine ⟨himage.trans himage₁, by omega, fun hnone => ?_⟩
    obtain ⟨layer, pending, -, -, -, -, hrecord, hrules₁⟩ := h.rules_eq
    rcases hrest with _ | _
    · rw [hrules₁] at hnone
      have hany := any_record hrecord
      exact absurd hnone (by rw [Bool.not_eq_false]; exact hany)
    · exact absurd (hpending hnone) (List.cons_ne_nil _ _)

end TarWalker

/-- The header at `offset` of the stream, read under these rules, is the record's. -/
structure Begins (rules : Rules) (bytes : Bytes) (offset : Nat) (record : Record) : Prop where
  place : record.headerOffset = offset
  aligned : offset % BLOCK = 0
  block : offset + BLOCK ≤ bytes.length
  nonzero : isZero (slice bytes offset BLOCK) = false
  decoded : decodeHeader rules (slice bytes offset BLOCK) = .ok (record.typeflag, record.header)
  extension : ∀ extension, record.typeflag = .extension extension → record.dataLen = record.header.size

/-- The record is at `offset` of the stream, and its padded end is an offset. -/
structure Lies (rules : Rules) (bytes : Bytes) (offset : Nat) (record : Record) : Prop
    extends Begins rules bytes offset record where
  fits : record.next ≤ U64_MAX

/-- The records lie one behind the other from `offset` to `last`. -/
def Tiles (rules : Rules) (bytes : Bytes) : (offset : Nat) → List Record → (last : Nat) → Prop
  | offset, [], last => offset = last
  | offset, record :: records, last => Lies rules bytes offset record ∧ Tiles rules bytes record.next records last

/-- From `last` on there are 2 to 2048 zero blocks and nothing else. -/
def ZeroTail (bytes : Bytes) (last : Nat) : Prop :=
  ∃ blocks, 2 ≤ blocks ∧ blocks ≤ 2048 ∧ bytes.drop last = List.replicate (blocks * BLOCK) 0

theorem Tiles.append {rules : Rules} {bytes : Bytes} {offset mid last : Nat} {records records' : List Record}
    (h : Tiles rules bytes offset records mid) (h' : Tiles rules bytes mid records' last) :
    Tiles rules bytes offset (records ++ records') last := by
  induction records generalizing offset with
  | nil =>
    obtain rfl : offset = mid := h
    exact h'
  | cons record records ih => exact ⟨h.1, ih h.2⟩

theorem next_aligned {record : Record} (h : record.headerOffset % BLOCK = 0) : record.next % BLOCK = 0 := by
  unfold Record.next Record.dataOffset Record.padded
  unfold BLOCK at *
  omega

namespace TarWalker
variable {w w₁ w₂ : TarWalker} {extension : Extension} {kind : EntryKind} {header : HeaderFields} {entry : TarEntry}
  {bytes : Bytes} {offset : Nat} {records : List Record} {rules : Rules}

theorem HeaderRead.isImage {typeflag : Typeflag} {counted : Rules} (h : HeaderRead w typeflag header counted) :
    counted.isImage = w.rules.isImage := by
  rcases countHeader_ok h.counted with ⟨image, hrules, -, rfl⟩ | ⟨layer, hrules, -, rfl⟩ <;> rw [hrules] <;> rfl

theorem HeaderRead.begins {record : Record} {counted : Rules} (hat : At bytes offset w)
    (himage : w.rules.isImage = rules.isImage) (haligned : offset % BLOCK = 0)
    (h : HeaderRead w.settled record.typeflag record.header counted) (hoffset : record.headerOffset = offset)
    (hlen : ∀ extension, record.typeflag = .extension extension → record.dataLen = record.header.size) :
    Begins rules bytes offset record := by
  have hdecoded := h.decoded
  have hnonzero := h.nonzero
  rw [hat.block, decodeHeader_congr (h.isImage.trans himage)] at hdecoded
  rw [hat.block] at hnonzero
  exact ⟨hoffset, haligned, hat.length h.readable (by decide), hnonzero, hdecoded, hlen⟩

theorem Begins.lies {record : Record} {padded : Nat} (h : Begins rules bytes offset record) (hat : At bytes offset w)
    (hpadded : paddedLen (w.settled.source.position + BLOCK) record.dataLen = .ok padded) :
    Lies rules bytes offset record := by
  have hfits := (paddedLen_ok hpadded).2.2.2
  rw [hat.position, ← h.place, paddedLen_eq hpadded] at hfits
  exact ⟨h, hfits⟩

theorem Extended.lies (hat : At bytes offset w) (himage : w.rules.isImage = rules.isImage)
    (haligned : offset % BLOCK = 0) (h : Extended w.settled extension header w₁) :
    Lies rules bytes offset (.ofExtension offset extension header) := by
  obtain ⟨hread, _, hpadded, _, _, _⟩ := h
  have hbegins : Begins rules bytes offset (.ofExtension offset extension header) :=
    HeaderRead.begins hat himage haligned hread rfl fun _ _ => rfl
  exact Begins.lies hbegins hat hpadded

theorem Entered.lies (hat : At bytes offset w) (himage : w.rules.isImage = rules.isImage)
    (haligned : offset % BLOCK = 0) (h : Entered w.settled kind header entry w₁) :
    Lies rules bytes offset (.ofEntry header entry) := by
  obtain @⟨admitted, padded, _, _, hread, _, hpadded, _⟩ := h
  exact Begins.lies (HeaderRead.begins hat himage haligned hread hat.position nofun) hat hpadded

theorem Passes.tiles (h : Passes w records w₁) (hat : At bytes offset w) (himage : w.rules.isImage = rules.isImage)
    (haligned : offset % BLOCK = 0) :
    ∃ mid, Tiles rules bytes offset records mid ∧ At bytes mid w₁ ∧ mid % BLOCK = 0 := by
  induction h generalizing offset with
  | here => exact ⟨offset, rfl, hat, haligned⟩
  | record hsteady h hrest ih =>
    obtain ⟨mid, htiles, hmid, haligned'⟩ := ih (h.at_next hat) (h.isImage.1.trans himage) (next_aligned haligned)
    rw [hat.position]
    exact ⟨mid, ⟨h.lies hat himage haligned, htiles⟩, hmid, haligned'⟩

theorem eq_replicate_of_isZero {block : Bytes} (h : isZero block) : block = List.replicate block.length 0 := by
  refine List.eq_replicate_of_mem fun byte hmem => ?_
  simpa using List.all_eq_true.mp h byte hmem

theorem Finished.zeroTail (hat : At bytes offset w) (h : Finished w.settled w₁) : ZeroTail bytes offset := by
  obtain ⟨htail, hmin, hmax, hmod⟩ := tailVerdict_ok h.tail (by decide)
  have hblock := eq_replicate_of_isZero h.zero
  have hlength : w.settled.block.length = BLOCK := length_take_readable h.readable
  rw [hlength] at hblock
  have hbytes : bytes.drop offset = List.replicate (BLOCK + (w.settled.source.source.bytes.drop BLOCK).length) 0 := by
    rw [List.replicate_add, ← hblock, ← htail, ← hat.source]
    exact (List.take_append_drop BLOCK _).symm
  obtain ⟨len, hlen⟩ : ∃ len, (w.settled.source.source.bytes.drop BLOCK).length = len := ⟨_, rfl⟩
  rw [hlen] at hmin hmax hmod hbytes
  refine ⟨(BLOCK + len) / BLOCK, ?_, ?_, ?_⟩
  · unfold MIN_ZERO_TAIL BLOCK at *
    omega
  · unfold MAX_ZERO_TAIL BLOCK at *
    omega
  · rw [hbytes, Nat.div_mul_cancel (Nat.dvd_of_mod_eq_zero hmod)]

/-- The fuel of `advance` does not cut it short: a round more changes nothing. -/
theorem advanceFrom_succ {fuel : Nat} (h : Steady w ∨ Doomed w) (hlatch : w.latch = none)
    (hfuel : w.rules.headersLeft < fuel) : advanceFrom (fuel + 1) w = advanceFrom fuel w := by
  induction fuel generalizing w with
  | zero => omega
  | succ fuel ih =>
    show (round >>= _ : Walk _) w = (round >>= _ : Walk _) w
    rcases hround : round w with ⟨step, w₁⟩ | ⟨fault, w₁⟩
    · rw [bind_of_ok hround, bind_of_ok hround]
      rcases h with hsteady | hdoomed
      · rw [round_of_steady hsteady] at hround
        cases readNext_ok hsteady.settled.toOpen hround with
        | finished => rfl
        | entry => rfl
        | extension h =>
          have hopen := h.opened hsteady.settled.toOpen rfl
          have hleft : w₁.rules.headersLeft < w.rules.headersLeft := h.isImage.2
          exact ih hopen.steady_or_doomed hopen.latch (by omega)
      · obtain ⟨w', htruncated, -⟩ := round_of_doomed hlatch hdoomed
        cases htruncated.symm.trans hround
    · rw [bind_of_error hround, bind_of_error hround]

end TarWalker

/-! ### Whole walks -/

def TarEntry.place (entry : TarEntry) : EntryKind × Nat × Nat × Nat :=
  (entry.kind, entry.headerOffset, entry.dataOffset, entry.dataLen)

/-- Where a record that is an entry's has the entry. -/
def Record.place? (record : Record) : Option (EntryKind × Nat × Nat × Nat) :=
  match record.typeflag with
  | .entry kind => some (kind, record.headerOffset, record.dataOffset, record.dataLen)
  | .extension _ => none

/-- The entries of a walk are those of records that lie one behind the other from `offset` on; when the archive is
accepted, its zero tail is right behind the last entry. -/
def Tiled (rules : Rules) (bytes : Bytes) (offset : Nat) (walked : Walked) : Prop :=
  ∃ records last, Tiles rules bytes offset records last ∧
    walked.entries.map TarEntry.place = records.filterMap Record.place? ∧
    (walked.verdict = some (.ok ()) → (∀ record ∈ records.getLast?, record.place?.isSome) ∧ ZeroTail bytes last)

namespace TarWalker
variable {w w₁ w₂ : TarWalker} {kind : EntryKind} {header : HeaderFields} {entry : TarEntry} {bytes : Bytes} {offset : Nat}
  {records : List Record} {rules : Rules}

theorem Passes.places (h : Passes w records w₁) : records.filterMap Record.place? = [] := by
  induction h with
  | here => rfl
  | record _ _ _ ih => exact ih

theorem Entered.place (h : Entered w kind header entry w₁) : (Record.ofEntry header entry).place? = some entry.place := by
  obtain ⟨_, _, _, _⟩ := h
  rfl

theorem rules_of_settled (h : w.settled = w₁.settled) : w.rules = w₁.rules := by
  show w.settled.rules = w₁.settled.rules
  rw [h]

/-- The reads between two calls leave the walker where it was. -/
theorem readAll_at (h : Open w) (hat : At bytes offset w) (bufs : List Nat) :
    Steady (readAll bufs w) ∧ At bytes offset (readAll bufs w) ∨ Doomed (readAll bufs w) := by
  rcases h.steady_or_doomed with hsteady | hdoomed
  · obtain ⟨hafter, hsettled⟩ := hsteady.readAll bufs
    exact .inl ⟨hafter, hsettled ▸ hat.position, hsettled ▸ hat.source⟩
  · exact .inr (hdoomed.readAll bufs).1

theorem readAll_live (h : Open w) (bufs : List Nat) :
    (Steady (readAll bufs w) ∨ Doomed (readAll bufs w)) ∧ (readAll bufs w).rules = w.rules := by
  rcases h.steady_or_doomed with hsteady | hdoomed
  · obtain ⟨hafter, hsettled⟩ := hsteady.readAll bufs
    exact ⟨.inl hafter, rules_of_settled hsettled⟩
  · obtain ⟨hafter, hrules⟩ := hdoomed.readAll bufs
    exact ⟨.inr hafter, hrules⟩

theorem walk_tiled (reads : Nat → List Nat) (calls i : Nat) (hw : Steady w ∧ At bytes offset w ∨ Doomed w)
    (himage : w.rules.isImage = rules.isImage) (haligned : offset % BLOCK = 0) :
    Tiled rules bytes offset (walk reads calls i w) := by
  induction calls generalizing i w offset with
  | zero => exact ⟨[], offset, rfl, rfl, fun h => by cases h⟩
  | succ calls ih =>
    unfold walk
    rcases hw with ⟨hsteady, hat⟩ | hdoomed
    swap
    · obtain ⟨w₁, hnext, -⟩ := nextEntry_of_doomed hdoomed
      rw [hnext]
      exact ⟨[], offset, rfl, rfl, fun h => by cases h⟩
    have hcomes := nextEntry_comes (.inl hsteady)
    rcases hcall : nextEntry w with ⟨called, w₂⟩ | ⟨fault, w₂⟩ <;> rw [hcall] at hcomes
    swap
    · exact ⟨[], offset, rfl, rfl, fun h => by cases h⟩
    cases hcomes with
    | @finished exts w₁ _ hpasses hsteady₁ hfinished =>
      obtain rfl : exts = [] := hpasses.isImage.2.2 hfinished.pending
      obtain ⟨mid, htiles, hmid, -⟩ := hpasses.tiles hat himage haligned
      obtain rfl : offset = mid := htiles
      exact ⟨[], offset, rfl, rfl, fun _ => ⟨fun _ h => (by cases h), hfinished.zeroTail hmid⟩⟩
    | @entry exts w₁ kind header entry _ hpasses hsteady₁ hentered =>
      obtain ⟨mid, htiles, hmid, haligned'⟩ := hpasses.tiles hat himage haligned
      have himage₁ := hpasses.isImage.1.trans himage
      have hopen := hentered.opened hsteady₁.settled.toOpen
      obtain ⟨hplace, -, hnext⟩ := hentered.at_next hmid
      have hafter := readAll_at hopen hnext (reads i)
      have hrules := (readAll_live hopen (reads i)).2
      have himage₂ : (readAll (reads i) w₂).rules.isImage = rules.isImage := by
        rw [hrules]
        exact hentered.isImage.1.trans himage₁
      have hnextAligned : (Record.ofEntry header entry).next % BLOCK = 0 := next_aligned (hplace.symm ▸ haligned' : entry.headerOffset % BLOCK = 0)
      obtain ⟨records, last, hrest, hentries, hend⟩ := ih (i + 1) hafter himage₂ hnextAligned
      refine ⟨exts ++ Record.ofEntry header entry :: records, last,
        htiles.append ⟨hentered.lies hmid himage₁ haligned', hrest⟩, ?_, fun hverdict => ?_⟩
      · rw [List.filterMap_append, hpasses.places, List.nil_append, List.filterMap_cons_some hentered.place, ← hentries]
        rfl
      · obtain ⟨hlast, htail⟩ := hend hverdict
        refine ⟨fun record hmem => ?_, htail⟩
        rw [List.getLast?_append, List.getLast?_cons] at hmem
        rcases hrecords : records.getLast? with _ | final
        · rw [hrecords] at hmem
          obtain rfl : Record.ofEntry header entry = record := by simpa using hmem
          rw [hentered.place]
          rfl
        · rw [hrecords] at hmem
          obtain rfl : final = record := by simpa using hmem
          exact hlast final hrecords

/-- A walk has its verdict after one call more than there may be headers. -/
theorem walk_verdict (reads : Nat → List Nat) (calls i : Nat) (hw : Steady w ∨ Doomed w)
    (hcalls : w.rules.headersLeft < calls) : (walk reads calls i w).verdict.isSome := by
  induction calls generalizing i w with
  | zero => omega
  | succ calls ih =>
    have hcomes := nextEntry_comes hw
    unfold walk
    rcases hcall : nextEntry w with ⟨called, w₂⟩ | ⟨fault, w₂⟩ <;> rw [hcall] at hcomes
    swap
    · rfl
    cases hcomes with
    | finished => rfl
    | @entry exts w₁ kind header entry _ hpasses hsteady hentered =>
      have hopen := hentered.opened hsteady.settled.toOpen
      have hpassed := hpasses.isImage.2.1
      have hleft : w₂.rules.headersLeft < w₁.rules.headersLeft := hentered.isImage.2.1
      obtain ⟨hlive, hrules⟩ := readAll_live hopen (reads i)
      exact ih (i + 1) hlive (by rw [hrules]; omega)

/-- A walker at the start of a byte string. -/
def start (source : ByteStream) (own : ResourceLimit) (shared : List Budget) (copyBuffer : Nat) (policy : EntryPolicy)
    (limits : ContentLimits) : TarWalker :=
  ofSource (CountingReader.ofSource source own shared copyBuffer) policy limits

theorem steady_start (source : ByteStream) (own : ResourceLimit) (shared : List Budget) (copyBuffer : Nat)
    (policy : EntryPolicy) (limits : ContentLimits) : Steady (start source own shared copyBuffer policy limits) where
  latch := rfl
  finished := rfl
  ready := ready_ofSource source own shared copyBuffer
  copyBuffer := limits.copyBuffer_pos
  unread := Nat.zero_le _
  whole := Nat.zero_le _

theorem at_start (source : ByteStream) (own : ResourceLimit) (shared : List Budget) (copyBuffer : Nat)
    (policy : EntryPolicy) (limits : ContentLimits) :
    At source.bytes 0 (start source own shared copyBuffer policy limits) := by
  refine ⟨rfl, ?_⟩
  show source.bytes.drop 0 = source.bytes.drop 0
  rfl

/-- Over one byte string, in whatever pieces, with whatever is read of each entry's data: every walk comes to the same
entries and the same verdict, it has one, and its records tile the stream. -/
theorem walk_of_bytes (bytes : Bytes) (serves serves' : Nat → Nat → Nat) (own : ResourceLimit) (shared : List Budget)
    (copyBuffer : Nat) (policy : EntryPolicy) (limits : ContentLimits) (reads reads' : Nat → List Nat) (calls : Nat) :
    let walked := walk reads calls 0 (start ⟨bytes, serves⟩ own shared copyBuffer policy limits)
    let walked' := walk reads' calls 0 (start ⟨bytes, serves'⟩ own shared copyBuffer policy limits)
    walked.entries = walked'.entries ∧ walked.verdict = walked'.verdict ∧
      ((policy.rules limits).headersLeft < calls → walked.verdict.isSome) ∧
      Tiled (policy.rules limits) bytes 0 walked := by
  have hsteady := steady_start ⟨bytes, serves⟩ own shared copyBuffer policy limits
  have hsteady' := steady_start ⟨bytes, serves'⟩ own shared copyBuffer policy limits
  have hat := at_start ⟨bytes, serves⟩ own shared copyBuffer policy limits
  have hpaired : Paired (start ⟨bytes, serves⟩ own shared copyBuffer policy limits)
      (start ⟨bytes, serves'⟩ own shared copyBuffer policy limits) :=
    .steady hsteady hsteady' ⟨hsteady.settled.ready, serves', rfl⟩
  obtain ⟨hentries, hverdict, -⟩ := hpaired.walk reads reads' calls 0
  exact ⟨hentries, hverdict, walk_verdict reads calls 0 (.inl hsteady), walk_tiled reads calls 0 (.inl ⟨hsteady, hat⟩) rfl rfl⟩

end TarWalker

end DeployCore
