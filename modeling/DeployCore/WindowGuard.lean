import DeployCore.Lib.ZstdFrame
import DeployCore.OuterWalk

/-! # The window guard

The compressed archive block as the decoder reads it: the guard follows the structure of the zstd stream over whatever
pieces the reads bring, and refuses a frame whose window is above the limit, or cannot be read, before the decoder has
its header. -/

namespace DeployCore
open Fallible LittleEndian

def ZSTD_FRAME_MAGIC : Bytes := [0x28, 0xb5, 0x2f, 0xfd]
def ZSTD_SKIPPABLE_MAGIC_HIGH : Bytes := [0x2a, 0x4d, 0x18]
def ZSTD_SINGLE_SEGMENT : UInt8 := 0x20
def ZSTD_RESERVED_DESCRIPTOR_BIT : UInt8 := 0x08
def ZSTD_CHECKSUM_FLAG : UInt8 := 0x04
def ZSTD_MAX_FIELD_LEN : Nat := 13
def ZSTD_BLOCK_HEADER_LEN : Nat := 3
def ZSTD_CHECKSUM_LEN : Nat := 4
def ZSTD_WINDOW_LOG_BASE : Nat := 10
def ZSTD_FCS_TWO_BYTE_OFFSET : Nat := 256

/-- The limits a bounded walk enforces. -/
structure OuterLimits where
  members : UInt64
  uncompressedTotal : UInt64
  zstdWindow : UInt64
  copyBuffer : Nat

/-- `dictionary_len`. -/
def dictionaryLen (descriptor : UInt8) : Nat :=
  match (descriptor &&& 0x03).toNat with
  | 0 => 0
  | 1 => 1
  | 2 => 2
  | _ => 4

/-- `content_size_len`. -/
def contentSizeLen (descriptor : UInt8) : Nat :=
  match (descriptor >>> 6).toNat with
  | 0 => if descriptor &&& ZSTD_SINGLE_SEGMENT ≠ 0 then 1 else 0
  | 1 => 2
  | 2 => 4
  | _ => 8

/-- A zstd structure that is collected whole before it is acted on. -/
inductive Field
  | magic
  | descriptor
  | header (descriptor : UInt8)
  | block (checksum : Bool)
  | skippableLength
  deriving DecidableEq

def Field.len : Field → Nat
  | .magic | .skippableLength => ZSTD_FRAME_MAGIC.length
  | .descriptor => 1
  | .header d => (if d &&& ZSTD_SINGLE_SEGMENT = 0 then 1 else 0) + dictionaryLen d + contentSizeLen d
  | .block _ => ZSTD_BLOCK_HEADER_LEN

/-- Where the guard stands. A field's first bytes are kept in an array of `ZSTD_MAX_FIELD_LEN`. -/
inductive Scan
  | collect (field : Field) (bytes : Bytes)
  | skip (remaining : Nat) (next : Field)
  deriving DecidableEq

/-- `Scan::skip`. -/
def Scan.skipping (remaining : Nat) (next : Field) : Scan :=
  if remaining = 0 then .collect next [] else .skip remaining next

/-- `le_u64`: a shift drops what leaves the 64 bits. -/
def leU64 (bytes : Bytes) : Nat :=
  bytes.foldr (fun byte value => value * 256 % 2 ^ 64 + byte.toNat) 0

def isSkippableMagic (magic : Bytes) : Bool :=
  match magic with
  | low :: rest => low &&& 0xf0 == 0x50 && rest == ZSTD_SKIPPABLE_MAGIC_HIGH
  | [] => false

def saturating (n : Nat) : Nat := min n U64_MAX

/-- The window a standard frame declares. -/
def frameWindow (descriptor : UInt8) (fields : Bytes) : Nat :=
  if descriptor &&& ZSTD_SINGLE_SEGMENT = 0 then
    let windowDescriptor := fields.headD 0
    let windowLog := ZSTD_WINDOW_LOG_BASE + (windowDescriptor >>> 3).toNat
    let base := if windowLog < 64 then 2 ^ windowLog else U64_MAX
    saturating (base + saturating (base / 8 * (windowDescriptor &&& 0x07).toNat))
  else
    let size := fields.drop (dictionaryLen descriptor)
    let value := leU64 size
    if size.length = 2 then saturating (value + ZSTD_FCS_TWO_BYTE_OFFSET) else value

/-- Acts on a field that is collected whole. -/
def complete (field : Field) (bytes : Bytes) (limit : UInt64) : Except StreamFault Scan :=
  match field with
  | .magic =>
    if bytes = ZSTD_FRAME_MAGIC then .ok (.collect .descriptor [])
    else if isSkippableMagic bytes then .ok (.collect .skippableLength [])
    else .error .unreadableFrame
  | .descriptor =>
    match bytes with
    | descriptor :: _ =>
      if descriptor &&& ZSTD_RESERVED_DESCRIPTOR_BIT = 0 then .ok (.collect (.header descriptor) [])
      else .error .unreadableFrame
    | [] => .error .unreadableFrame
  | .header descriptor =>
    if frameWindow descriptor bytes > limit.toNat then .error (.limit .zstdWindow limit)
    else .ok (.collect (.block (descriptor &&& ZSTD_CHECKSUM_FLAG ≠ 0)) [])
  | .block checksum =>
    let header := leU64 bytes
    let size := header / 8
    let content := match header / 2 % 4 with
      | 0 | 2 => some size
      | 1 => some 1
      | _ => none
    match content with
    | none => .error .unreadableFrame
    | some content =>
      if header % 2 = 0 then .ok (.skipping content (.block checksum))
      else .ok (.skipping (saturating (content + if checksum then ZSTD_CHECKSUM_LEN else 0)) .magic)
  | .skippableLength => .ok (.skipping (leU64 bytes) .magic)

/-- Follows the stream over a prefix of `input` and returns its length. -/
def advance (limit : UInt64) (input : Bytes) : EStateM StreamFault Scan Nat :=
  fun
  | .skip remaining next =>
    let used := min input.length remaining
    .ok used (.skipping (remaining - used) next)
  | .collect field bytes =>
    let used := min (field.len - bytes.length) input.length
    let collected := bytes ++ input.take used
    if field.len ≤ collected.length then
      match complete field (collected.take field.len) limit with
      | .ok scan => .ok used scan
      | .error fault => .error fault (.collect field collected)
    else .ok used (.collect field collected)

structure WindowGuard where
  limit : UInt64
  copyBuffer : Nat
  scan : Scan

def WindowGuard.new (limits : OuterLimits) : WindowGuard :=
  ⟨limits.zstdWindow, limits.copyBuffer, .collect .magic []⟩

/-- The loop over the bytes of one read; each round takes one of them at least. -/
def advanceAll (limit : UInt64) : (fuel : Nat) → Bytes → EStateM StreamFault Scan Unit
  | 0, _ => pure ()
  | fuel + 1, rest =>
    if rest = [] then pure ()
    else do
      let used ← advance limit rest
      advanceAll limit fuel (rest.drop used)

/-- `Read::read` into a buffer of `buf` bytes; `inner` is what the reader beneath answers. -/
def WindowGuard.read (guard : WindowGuard) (buf : Nat) (inner : Nat → Except IoError Bytes) :
    Except StreamFault Bytes × WindowGuard :=
  match inner (min buf guard.copyBuffer) with
  | .error e => (.error (.io e), guard)
  | .ok window =>
    match advanceAll guard.limit window.length window guard.scan with
    | .ok _ scan => (.ok window, { guard with scan })
    | .error fault scan => (.error fault, { guard with scan })

/-! ### The fields are the format's -/

theorem byte_cases {P : UInt8 → Prop} (h : ∀ n : Fin 256, P (.ofNat n)) (b : UInt8) : P b := by
  have hb := h ⟨b.toNat, b.toNat_lt⟩
  rwa [UInt8.ofNat_toNat] at hb

/-- What the masks and shifts of a byte are, byte by byte. -/
theorem byte_table (d : UInt8) :
    ((d &&& ZSTD_SINGLE_SEGMENT = 0 ↔ Zstd.singleSegment d = false) ∧
      (d &&& ZSTD_RESERVED_DESCRIPTOR_BIT = 0 ↔ Zstd.reserved d = false) ∧
      decide (d &&& ZSTD_CHECKSUM_FLAG ≠ 0) = Zstd.checksum d) ∧
    (dictionaryLen d = Zstd.dictionaryLen d ∧ contentSizeLen d = Zstd.contentSizeLen d ∧ Zstd.contentSizeLen d ≤ 8 ∧
      0 < (Field.header d).len ∧ (Field.header d).len ≤ ZSTD_MAX_FIELD_LEN) ∧
    ((d &&& 0xf0 == 0x50) = true ↔ d.toNat / 16 = 5) ∧ (d >>> 3).toNat = d.toNat / 8 ∧ (d &&& 0x07).toNat = d.toNat % 8 := by
  revert d
  exact byte_cases (by decide +kernel)

theorem and_singleSegment (d : UInt8) : d &&& ZSTD_SINGLE_SEGMENT = 0 ↔ Zstd.singleSegment d = false :=
  (byte_table d).1.1

theorem and_reserved (d : UInt8) : d &&& ZSTD_RESERVED_DESCRIPTOR_BIT = 0 ↔ Zstd.reserved d = false :=
  (byte_table d).1.2.1

theorem and_checksum (d : UInt8) : decide (d &&& ZSTD_CHECKSUM_FLAG ≠ 0) = Zstd.checksum d := (byte_table d).1.2.2

theorem dictionaryLen_eq (d : UInt8) : dictionaryLen d = Zstd.dictionaryLen d := (byte_table d).2.1.1

theorem contentSizeLen_eq (d : UInt8) : contentSizeLen d = Zstd.contentSizeLen d := (byte_table d).2.1.2.1

theorem contentSizeLen_le (d : UInt8) : Zstd.contentSizeLen d ≤ 8 := (byte_table d).2.1.2.2.1

theorem skippable_low (low : UInt8) : (low &&& 0xf0 == 0x50) = true ↔ low.toNat / 16 = 5 := (byte_table low).2.2.1

theorem len_header (d : UInt8) : (Field.header d).len = Zstd.fieldsLen d := by
  have hwindow : (if d &&& ZSTD_SINGLE_SEGMENT = 0 then 1 else 0) = if Zstd.singleSegment d then 0 else 1 := by
    rcases hsingle : Zstd.singleSegment d with _ | _
    · rw [if_pos ((and_singleSegment d).mpr hsingle)]
      rfl
    · rw [if_neg fun h => Bool.false_ne_true (((and_singleSegment d).mp h).symm.trans hsingle)]
      rfl
  rw [Field.len, Zstd.fieldsLen, hwindow, dictionaryLen_eq, contentSizeLen_eq]

theorem len_bounds (field : Field) : 0 < field.len ∧ field.len ≤ ZSTD_MAX_FIELD_LEN := by
  cases field with
  | header d => exact (byte_table d).2.1.2.2.2
  | _ => exact ⟨Nat.succ_pos _, Nat.le_of_ble_eq_true rfl⟩

theorem leU64_eq {bytes : Bytes} (h : bytes.length ≤ 8) : leU64 bytes = ofLE bytes := by
  induction bytes with
  | nil => rfl
  | cons byte bytes ih =>
    rw [List.length_cons] at h
    have hlt : ofLE bytes < 256 ^ 7 :=
      Nat.lt_of_lt_of_le (ofLE_lt bytes) (Nat.pow_le_pow_right (by decide) (by omega))
    have htail : leU64 bytes = ofLE bytes := ih (by omega)
    have hstep : leU64 (byte :: bytes) = leU64 bytes * 256 % 2 ^ 64 + byte.toNat := rfl
    rw [hstep, htail, ofLE, Nat.mod_eq_of_lt (by omega)]
    omega

theorem isSkippableMagic_iff {magic : Bytes} : isSkippableMagic magic = true ↔ Zstd.SkippableMagic magic := by
  rcases magic with _ | ⟨low, rest⟩
  · exact ⟨nofun, fun ⟨_, _, h⟩ => nomatch h⟩
  · rw [isSkippableMagic, Bool.and_eq_true, skippable_low, beq_iff_eq]
    constructor
    · rintro ⟨hlow, rfl⟩
      exact ⟨low, hlow, rfl⟩
    · rintro ⟨_, hlow, h⟩
      cases h
      exact ⟨hlow, rfl⟩

theorem saturating_of_le {n : Nat} (h : n ≤ U64_MAX) : saturating n = n := Nat.min_eq_left h

theorem frameWindow_eq {d : UInt8} {fields : Bytes} (h : fields.length = Zstd.fieldsLen d) :
    frameWindow d fields = Zstd.window d fields := by
  have hdictionary := dictionaryLen_eq d
  unfold frameWindow Zstd.window
  rcases hsingle : Zstd.singleSegment d with _ | _
  · rw [if_pos ((and_singleSegment d).mpr hsingle)]
    have hshift (w : UInt8) : (w >>> 3).toNat = w.toNat / 8 := (byte_table w).2.2.2.1
    have hlow (w : UInt8) : (w &&& 0x07).toNat = w.toNat % 8 := (byte_table w).2.2.2.2
    have hw := (fields.headD 0).toNat_lt
    simp only [hshift, hlow, ZSTD_WINDOW_LOG_BASE, Bool.false_eq_true, if_false]
    have hlog : (fields.headD 0).toNat / 8 < 32 := by omega
    have hpow : 2 ^ (10 + (fields.headD 0).toNat / 8) ≤ 2 ^ 41 := Nat.pow_le_pow_right (by decide) (by omega)
    have hrest : 2 ^ (10 + (fields.headD 0).toNat / 8) / 8 * ((fields.headD 0).toNat % 8) ≤ 2 ^ 38 * 7 :=
      Nat.mul_le_mul (by omega) (by omega)
    have hinner := saturating_of_le (Nat.le_trans hrest (by decide))
    rw [if_pos (by omega), hinner, saturating_of_le (Nat.le_trans (Nat.add_le_add hpow hrest) (by decide))]
  · rw [if_neg fun h => Bool.false_ne_true (((and_singleSegment d).mp h).symm.trans hsingle), hdictionary]
    have hsize : (fields.drop (Zstd.dictionaryLen d)).length = Zstd.contentSizeLen d := by
      rw [List.length_drop, h, Zstd.fieldsLen, hsingle]
      simp
    have hle := contentSizeLen_le d
    dsimp only
    rw [leU64_eq (by omega), hsize]
    split
    · next htwo =>
      have hlt := ofLE_lt (fields.drop (Zstd.dictionaryLen d))
      rw [hsize, htwo] at hlt
      rw [saturating_of_le (by unfold U64_MAX ZSTD_FCS_TWO_BYTE_OFFSET; omega)]
      rfl
    · rfl

/-! ### What a field that is complete comes to -/

/-- The error an offence is refused with. -/
def offenceFault (limit : UInt64) : Zstd.Offence → StreamFault
  | .window => .limit .zstdWindow limit
  | _ => .unreadableFrame

section
variable {limit : UInt64} {bytes : Bytes} {d : UInt8} {checksum : Bool}

theorem complete_standardMagic : complete .magic Zstd.MAGIC limit = .ok (.collect .descriptor []) := rfl

theorem complete_skippableMagic (h : Zstd.SkippableMagic bytes) :
    complete .magic bytes limit = .ok (.collect .skippableLength []) := by
  have hother : bytes ≠ ZSTD_FRAME_MAGIC := by
    obtain ⟨low, -, rfl⟩ := h
    exact fun h => by cases h
  rw [complete, if_neg hother, if_pos (isSkippableMagic_iff.mpr h)]

theorem complete_otherMagic (hstandard : bytes ≠ Zstd.MAGIC) (hskippable : ¬Zstd.SkippableMagic bytes) :
    complete .magic bytes limit = .error .unreadableFrame := by
  have hstandard : bytes ≠ ZSTD_FRAME_MAGIC := hstandard
  rw [complete, if_neg hstandard, if_neg fun h => hskippable (isSkippableMagic_iff.mp h)]

theorem complete_descriptor : complete .descriptor [d] limit =
    if Zstd.reserved d then .error .unreadableFrame else .ok (.collect (.header d) []) := by
  rw [complete]
  rcases hreserved : Zstd.reserved d with _ | _
  · rw [if_pos ((and_reserved d).mpr hreserved)]
    rfl
  · rw [if_neg fun h => Bool.false_ne_true (((and_reserved d).mp h).symm.trans hreserved)]
    rfl

theorem complete_header (h : bytes.length = Zstd.fieldsLen d) : complete (.header d) bytes limit =
    if limit.toNat < Zstd.window d bytes then .error (.limit .zstdWindow limit)
    else .ok (.collect (.block (Zstd.checksum d)) []) := by
  rw [complete, frameWindow_eq h, ← and_checksum]

theorem complete_block (h : bytes.length = 3) : complete (.block checksum) bytes limit =
    match Zstd.contentLen bytes with
    | none => .error .unreadableFrame
    | some content =>
      if Zstd.isLast bytes then .ok (.skipping (content + Zstd.trailerLen checksum) .magic)
      else .ok (.skipping content (.block checksum)) := by
  have hlt := ofLE_lt bytes
  rw [h] at hlt
  have hmod : ofLE bytes % 2 = 0 ↔ Zstd.isLast bytes = false := by
    rw [Zstd.isLast, beq_eq_false_iff_ne]
    omega
  have height : bytes.length ≤ 8 := by omega
  simp only [complete, leU64_eq height]
  have hcontent : (match ofLE bytes / 2 % 4 with
      | 0 | 2 => some (ofLE bytes / 8)
      | 1 => some 1
      | _ => none) = Zstd.contentLen bytes := rfl
  rw [hcontent]
  rcases hlen : Zstd.contentLen bytes with _ | content
  · rfl
  · have hle : content ≤ 2 ^ 21 := by
      unfold Zstd.contentLen at hlen
      split at hlen <;> cases hlen <;> omega
    rcases hlast : Zstd.isLast bytes with _ | _
    · dsimp only
      rw [if_pos (hmod.mpr hlast)]
      rfl
    · dsimp only
      rw [if_neg fun h => Bool.false_ne_true ((hmod.mp h).symm.trans hlast), if_pos rfl]
      have hsaturating : saturating (content + if checksum = true then ZSTD_CHECKSUM_LEN else 0) =
          content + Zstd.trailerLen checksum := by
        refine saturating_of_le ?_
        have hcap : 2 ^ 21 + 4 ≤ U64_MAX := by decide
        rw [ZSTD_CHECKSUM_LEN]
        split <;> omega
      rw [hsaturating]

theorem complete_skippableLength (h : bytes.length = 4) :
    complete .skippableLength bytes limit = .ok (.skipping (ofLE bytes) .magic) := by
  rw [complete, leU64_eq (by omega)]

end

/-! ### One byte at a time -/

/-- Follows the stream byte by byte. -/
def follow (limit : UInt64) : Bytes → EStateM StreamFault Scan Unit
  | [] => pure ()
  | byte :: bytes => do
    let _ ← advance limit [byte]
    follow limit bytes

/-- What the guard stands at between two bytes: a field that is not whole, or something to pass. -/
def Scan.Formed : Scan → Prop
  | .collect field bytes => bytes.length < field.len
  | .skip remaining _ => 0 < remaining

section
variable {limit : UInt64} {field next : Field} {bytes x y : Bytes} {byte : UInt8} {remaining : Nat} {scan scan' : Scan}
  {fault : StreamFault}

theorem formed_skipping (remaining : Nat) (next : Field) : (Scan.skipping remaining next).Formed := by
  unfold Scan.skipping
  split
  · exact (len_bounds next).1
  · next hpos => exact Nat.pos_of_ne_zero hpos

theorem formed_of_complete (h : complete field bytes limit = .ok scan) : scan.Formed := by
  unfold complete at h
  split at h
  · split at h
    · cases h
      exact (len_bounds _).1
    · split at h <;> cases h
      exact (len_bounds _).1
  · split at h
    · split at h <;> cases h
      exact (len_bounds _).1
    · cases h
  · split at h <;> cases h
    exact (len_bounds _).1
  · dsimp only at h
    split at h
    · cases h
    · split at h <;> cases h <;> exact formed_skipping _ _
  · cases h
    exact formed_skipping _ _

theorem follow_append_ok (h : follow limit x scan = .ok () scan') : follow limit (x ++ y) scan = follow limit y scan' := by
  induction x generalizing scan with
  | nil =>
    cases h
    rfl
  | cons byte x ih =>
    obtain ⟨_, s, hstep, hrest⟩ := bind_ok h
    exact (bind_of_ok hstep).trans (ih hrest)

theorem follow_append_error (h : follow limit x scan = .error fault scan') :
    follow limit (x ++ y) scan = .error fault scan' := by
  induction x generalizing scan with
  | nil => cases h
  | cons byte x ih =>
    rcases bind_error h with hstep | ⟨_, s, hstep, hrest⟩
    · exact bind_of_error hstep
    · exact (bind_of_ok hstep).trans (ih hrest)

/-- A field is collected as far as the input goes. -/
theorem advance_collect_short (h : bytes.length + x.length < field.len) :
    advance limit x (.collect field bytes) = .ok x.length (.collect field (bytes ++ x)) := by
  have hused : min (field.len - bytes.length) x.length = x.length := by omega
  have hlt : ¬field.len ≤ (bytes ++ x).length := by
    rw [List.length_append]
    omega
  simp only [advance, hused, List.take_length, if_neg hlt]

/-- Where the input reaches a field's end, the field is acted on. -/
theorem advance_collect (hbytes : bytes.length < field.len) (h : field.len ≤ bytes.length + x.length) :
    advance limit x (.collect field bytes) =
      match complete field (bytes ++ x.take (field.len - bytes.length)) limit with
      | .ok scan => .ok (field.len - bytes.length) scan
      | .error fault => .error fault (.collect field (bytes ++ x.take (field.len - bytes.length))) := by
  have hused : min (field.len - bytes.length) x.length = field.len - bytes.length := by omega
  have hlen : (bytes ++ x.take (field.len - bytes.length)).length = field.len := by
    rw [List.length_append, List.length_take]
    omega
  simp only [advance, hused]
  rw [if_pos (Nat.le_of_eq hlen.symm), List.take_of_length_le (Nat.le_of_eq hlen)]

theorem follow_collect_short (h : bytes.length + x.length < field.len) :
    follow limit x (.collect field bytes) = .ok () (.collect field (bytes ++ x)) := by
  induction x generalizing bytes with
  | nil =>
    rw [List.append_nil]
    rfl
  | cons byte x ih =>
    rw [List.length_cons] at h
    have hstep := @advance_collect_short limit field bytes [byte] (by rw [List.length_singleton]; omega)
    have hrest := @ih (bytes ++ [byte]) (by rw [List.length_append, List.length_singleton]; omega)
    rw [follow, bind_of_ok hstep, hrest, List.append_assoc]
    rfl

theorem follow_collect (hbytes : bytes.length < field.len) (h : bytes.length + x.length = field.len) :
    follow limit x (.collect field bytes) =
      match complete field (bytes ++ x) limit with
      | .ok scan => .ok () scan
      | .error fault => .error fault (.collect field (bytes ++ x)) := by
  have hne : x ≠ [] := fun hnil => by
    rw [hnil, List.length_nil] at h
    omega
  obtain ⟨init, last, rfl⟩ : ∃ init last, x = init ++ [last] :=
    ⟨x.dropLast, x.getLast hne, (List.dropLast_append_getLast hne).symm⟩
  rw [List.length_append, List.length_singleton] at h
  have hinit := @follow_collect_short limit field bytes init (by omega)
  have hneed : field.len - (bytes ++ init).length = 1 := by
    rw [List.length_append]
    omega
  have hlast := @advance_collect limit field (bytes ++ init) [last] (by rw [List.length_append]; omega)
    (by rw [List.length_append, List.length_singleton]; omega)
  rw [hneed, List.take_succ_cons, List.take_zero, List.append_assoc] at hlast
  rw [follow_append_ok hinit, follow]
  rcases hcomplete : complete field (bytes ++ (init ++ [last])) limit with fault | scan <;> rw [hcomplete] at hlast
  · exact bind_of_error hlast
  · exact bind_of_ok hlast

theorem advance_skipping (hpos : 0 < remaining) : advance limit x (.skipping remaining next) =
    .ok (min x.length remaining) (.skipping (remaining - min x.length remaining) next) := by
  rw [Scan.skipping, if_neg (Nat.pos_iff_ne_zero.mp hpos)]
  rfl

theorem follow_skipping (h : x.length ≤ remaining) :
    follow limit x (.skipping remaining next) = .ok () (.skipping (remaining - x.length) next) := by
  induction x generalizing remaining with
  | nil => rfl
  | cons byte x ih =>
    rw [List.length_cons] at h
    have hone : min [byte].length remaining = 1 := by
      rw [List.length_singleton]
      omega
    have hstep := @advance_skipping limit next [byte] remaining (by omega)
    rw [hone] at hstep
    rw [follow, bind_of_ok hstep, ih (by omega), List.length_cons, Nat.sub_sub, Nat.add_comm 1]

/-- What a round takes is followed byte by byte. -/
theorem advance_follows (hformed : scan.Formed) (hx : x ≠ []) :
    (∃ used scan', advance limit x scan = .ok used scan' ∧ 0 < used ∧ used ≤ x.length ∧ scan'.Formed ∧
      follow limit (x.take used) scan = .ok () scan') ∨
    ∃ fault scan', advance limit x scan = .error fault scan' ∧ follow limit x scan = .error fault scan' := by
  have hpos : 0 < x.length := List.length_pos_iff.mpr hx
  cases scan with
  | skip remaining next =>
    have hremaining : 0 < remaining := hformed
    have hscan : Scan.skip remaining next = .skipping remaining next := (if_neg (Nat.pos_iff_ne_zero.mp hremaining)).symm
    have htake : (x.take (min x.length remaining)).length = min x.length remaining := by
      rw [List.length_take]
      omega
    rw [hscan]
    refine .inl ⟨_, _, advance_skipping hremaining, by omega, by omega, formed_skipping _ _, ?_⟩
    rw [follow_skipping (by omega), htake]
  | collect field bytes =>
    have hbytes : bytes.length < field.len := hformed
    rcases Nat.lt_or_ge (bytes.length + x.length) field.len with hshort | hwhole
    · refine .inl ⟨_, _, advance_collect_short hshort, hpos, Nat.le_refl _, ?_, ?_⟩
      · show (bytes ++ x).length < field.len
        rwa [List.length_append]
      · rw [List.take_length]
        exact follow_collect_short hshort
    · have htake : bytes.length + (x.take (field.len - bytes.length)).length = field.len := by
        rw [List.length_take]
        omega
      have hadvance := @advance_collect limit field bytes x hbytes hwhole
      have hfollow := @follow_collect limit field bytes _ hbytes htake
      rcases hcomplete : complete field (bytes ++ x.take (field.len - bytes.length)) limit with fault | scan <;>
        rw [hcomplete] at hadvance hfollow
      · refine .inr ⟨_, _, hadvance, ?_⟩
        have hall := @follow_append_error limit _ (x.drop (field.len - bytes.length)) _ _ _ hfollow
        rwa [List.take_append_drop] at hall
      · exact .inl ⟨_, _, hadvance, by omega, by omega, formed_of_complete hcomplete, hfollow⟩

/-- The loop over a read is the bytes of the read, one by one. -/
theorem advanceAll_eq {fuel : Nat} (hformed : scan.Formed) (hfuel : x.length ≤ fuel) :
    advanceAll limit fuel x scan = follow limit x scan := by
  induction fuel generalizing x scan with
  | zero =>
    rw [List.length_eq_zero_iff.mp (Nat.le_zero.mp hfuel)]
    rfl
  | succ fuel ih =>
    rw [advanceAll]
    split
    next hnil =>
      rw [hnil]
      rfl
    next hne =>
      rcases advance_follows hformed hne with ⟨used, scan', hadvance, hpos, hle, hformed', hfollow⟩ | ⟨fault, scan', hadvance, hfollow⟩
      · have hdrop : (x.drop used).length ≤ fuel := by
          rw [List.length_drop]
          omega
        rw [bind_of_ok hadvance, ih hformed' hdrop, ← follow_append_ok hfollow, List.take_append_drop]
      · rw [bind_of_error hadvance, hfollow]

theorem formed_of_follow (hformed : scan.Formed) (h : follow limit x scan = .ok () scan') : scan'.Formed := by
  induction x generalizing scan with
  | nil =>
    cases h
    exact hformed
  | cons byte x ih =>
    obtain ⟨_, s, hstep, hrest⟩ := bind_ok h
    rcases @advance_follows limit [byte] scan hformed (List.cons_ne_nil _ _) with
      ⟨_, _, hadvance, -, -, hformed', -⟩ | ⟨_, _, hadvance, -⟩
    · cases hadvance.symm.trans hstep
      exact ih hformed' hrest
    · cases hadvance.symm.trans hstep

end

end DeployCore
