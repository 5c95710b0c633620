import DeployCore.Footer
import DeployCore.Lib.Adjacent
import DeployCore.Lib.Checked

/-! # The block layout a footer describes

`validateFooter` is the check every reader makes of a selected footer before it follows an offset.
`Footer.LaidOut` is what it checks, in natural numbers: no envelope pair is half-zero, and the present
blocks follow each other from the manifest's start to the footer's. -/

namespace DeployCore
open Adjacent

/-- Whether a pair carries the all-zero absent encoding. -/
def isAbsentPair (offset len : UInt64) : Bool :=
  offset == 0 && len == 0

/-- The four envelope pairs in wire order, each with the reason given when it is half-zero. -/
def Footer.envelopePairs (f : Footer) : List (UInt64 × UInt64 × String) :=
  [(f.signatureOffset, f.signatureLen, "Ed25519 signature pair is half-zero: neither present nor absent"),
    (f.keyIdOffset, f.keyIdLen, "Ed25519 key_id pair is half-zero: neither present nor absent"),
    (f.mlDsa87SignatureOffset, f.mlDsa87SignatureLen,
      "ML-DSA-87 signature pair is half-zero: neither present nor absent"),
    (f.mlDsa87KeyIdOffset, f.mlDsa87KeyIdLen,
      "ML-DSA-87 key_id pair is half-zero: neither present nor absent")]

/-- Resolves one envelope pair to whether its block is present. -/
def envelopePresent (offset len : UInt64) (reason : String) : Except PayloadError Bool :=
  if isAbsentPair offset len then .ok false
  else if offset = 0 ∨ len = 0 then .error (.malformedFooter reason)
  else .ok true

/-- One block of the layout walk. -/
structure Block where
  offset : UInt64
  len : UInt64
  present : Bool

/-- The envelope blocks, refused at the first half-zero pair. -/
def envelopeBlocks : List (UInt64 × UInt64 × String) → Except PayloadError (List Block)
  | [] => .ok []
  | (offset, len, reason) :: pairs => do
    let present ← envelopePresent offset len reason
    let blocks ← envelopeBlocks pairs
    .ok (⟨offset, len, present⟩ :: blocks)

/-- Where a block ends. -/
def endOf (offset len : UInt64) : Except PayloadError UInt64 :=
  match Checked.add offset len with
  | some stop => .ok stop
  | none => .error .truncatedTrailer

/-- Every block ends at or before the footer. -/
def checkInside (footerStart : Nat) : List Block → Except PayloadError Unit
  | [] => .ok ()
  | b :: blocks => do
    let stop ← endOf b.offset b.len
    if stop.toNat > footerStart then .error .truncatedTrailer
    else checkInside footerStart blocks

/-- The present blocks start where the previous one ended; returns where the last one ends. -/
def walkBlocks (cursor : UInt64) : List Block → Except PayloadError UInt64
  | [] => .ok cursor
  | b :: blocks =>
    if !b.present then walkBlocks cursor blocks
    else if b.offset ≠ cursor then
      .error (.malformedFooter "trailer blocks are not adjacent in the fixed order")
    else do
      let cursor ← endOf b.offset b.len
      walkBlocks cursor blocks

/-- Checks that a selected footer's blocks fall inside the file and sit adjacent in the fixed order. -/
def validateFooter (footer : Footer) (footerStart : Nat) : Except PayloadError Unit := do
  let envelope ← envelopeBlocks footer.envelopePairs
  let blocks := ⟨footer.manifestOffset, footer.manifestLen, true⟩ ::
    ⟨footer.archiveOffset, footer.archiveLen, true⟩ :: envelope
  checkInside footerStart blocks
  let cursor ← walkBlocks footer.manifestOffset blocks
  if cursor.toNat ≠ footerStart then
    .error (.malformedFooter "the last present block does not end where the footer begins")
  else .ok ()

/-! ### What the check means -/

/-- The block a pair of an offset and a length describes, if it is not the absent encoding. -/
def wirePair (offset len : UInt64) : Option (Nat × Nat) :=
  if isAbsentPair offset len then none else some (offset.toNat, len.toNat)

/-- The described blocks in the fixed order: manifest, archive, then the envelope. -/
def Footer.pairs (f : Footer) : List (Option (Nat × Nat)) :=
  [some (f.manifestOffset.toNat, f.manifestLen.toNat), some (f.archiveOffset.toNat, f.archiveLen.toNat),
    wirePair f.signatureOffset f.signatureLen, wirePair f.keyIdOffset f.keyIdLen,
    wirePair f.mlDsa87SignatureOffset f.mlDsa87SignatureLen, wirePair f.mlDsa87KeyIdOffset f.mlDsa87KeyIdLen]

/-- The layout of a valid footer. -/
structure Footer.LaidOut (f : Footer) (footerStart : Nat) : Prop where
  start_lt : footerStart < 2 ^ 64
  whole : ∀ p ∈ f.envelopePairs, p.1 = 0 ↔ p.2.1 = 0
  chain : Chain f.manifestOffset.toNat f.pairs footerStart

/-- What a block of the walk describes. -/
def Block.pair (b : Block) : Option (Nat × Nat) :=
  if b.present then some (b.offset.toNat, b.len.toNat) else none

theorem isAbsentPair_iff {offset len : UInt64} : isAbsentPair offset len = true ↔ offset = 0 ∧ len = 0 := by
  simp [isAbsentPair]

theorem envelopePresent_ok_iff {offset len : UInt64} {reason : String} {present : Bool} :
    envelopePresent offset len reason = .ok present ↔
      (offset = 0 ↔ len = 0) ∧ present = !isAbsentPair offset len := by
  unfold envelopePresent
  split
  · next h =>
    obtain ⟨rfl, rfl⟩ := isAbsentPair_iff.mp h
    simp [h, eq_comm]
  · next h =>
    have hpresent : isAbsentPair offset len = false := by simpa using h
    rw [isAbsentPair_iff] at h
    split
    · next hzero =>
      simp only [reduceCtorEq, false_iff, not_and]
      intro hiff
      exact absurd ⟨hzero.elim id hiff.mpr, hzero.elim hiff.mp id⟩ h
    · next hzero =>
      rw [not_or] at hzero
      simp [hzero.1, hzero.2, hpresent, eq_comm]

/-- A present Ed25519 signature described at offset zero is refused as half-zero. -/
theorem validateFooter_signature_at_zero {f : Footer} (footerStart : Nat) (hoffset : f.signatureOffset = 0)
    (hlen : f.signatureLen ≠ 0) : validateFooter f footerStart =
      .error (.malformedFooter "Ed25519 signature pair is half-zero: neither present nor absent") := by
  have hpresent (reason : String) : envelopePresent f.signatureOffset f.signatureLen reason =
      .error (.malformedFooter reason) := by
    rw [envelopePresent, if_neg (by simp [isAbsentPair_iff, hlen]), if_pos (Or.inl hoffset)]
  simp only [validateFooter, Footer.envelopePairs, envelopeBlocks, hpresent, bind, Except.bind]

theorem envelopeBlocks_ok_iff {pairs : List (UInt64 × UInt64 × String)} {blocks : List Block} :
    envelopeBlocks pairs = .ok blocks ↔ (∀ p ∈ pairs, p.1 = 0 ↔ p.2.1 = 0) ∧
      blocks = pairs.map fun p => ⟨p.1, p.2.1, !isAbsentPair p.1 p.2.1⟩ := by
  induction pairs generalizing blocks with
  | nil => simp [envelopeBlocks, eq_comm]
  | cons p pairs ih =>
    obtain ⟨offset, len, reason⟩ := p
    rw [envelopeBlocks]
    constructor
    · intro h
      cases hp : envelopePresent offset len reason with
      | error e => rw [hp] at h; cases h
      | ok present =>
        cases hrest : envelopeBlocks pairs with
        | error e => rw [hp, hrest] at h; cases h
        | ok rest =>
          rw [hp, hrest] at h
          cases h
          obtain ⟨hwhole, rfl⟩ := envelopePresent_ok_iff.mp hp
          obtain ⟨hall, rfl⟩ := ih.mp hrest
          exact ⟨List.forall_mem_cons.mpr ⟨hwhole, hall⟩, rfl⟩
    · rintro ⟨hall, rfl⟩
      obtain ⟨hwhole, hall⟩ := List.forall_mem_cons.mp hall
      rw [envelopePresent_ok_iff.mpr ⟨hwhole, rfl⟩, ih.mpr ⟨hall, rfl⟩]
      rfl

theorem endOf_ok_iff {offset len stop : UInt64} :
    endOf offset len = .ok stop ↔ offset.toNat + len.toNat = stop.toNat := by
  rw [← Checked.add_eq_some, endOf]
  cases Checked.add offset len <;> simp

theorem checkInside_ok {footerStart : Nat} {blocks : List Block} (hlt : footerStart < 2 ^ 64)
    (h : ∀ b ∈ blocks, b.offset.toNat + b.len.toNat ≤ footerStart) : checkInside footerStart blocks = .ok () := by
  induction blocks with
  | nil => rfl
  | cons b blocks ih =>
    obtain ⟨hb, hrest⟩ := List.forall_mem_cons.mp h
    have hend : b.offset.toNat + b.len.toNat = (b.offset + b.len).toNat :=
      (Checked.toNat_add_of_lt (by omega)).symm
    rw [checkInside, endOf_ok_iff.mpr hend]
    show (if (b.offset + b.len).toNat > footerStart then _ else _) = _
    rw [if_neg (by omega), ih hrest]

theorem walkBlocks_ok_iff {cursor stop : UInt64} {blocks : List Block} :
    walkBlocks cursor blocks = .ok stop ↔ Chain cursor.toNat (blocks.map Block.pair) stop.toNat := by
  induction blocks generalizing cursor with
  | nil => simp [walkBlocks, Chain, UInt64.toNat_inj]
  | cons b blocks ih =>
    obtain ⟨offset, len, present⟩ := b
    cases present with
    | false => exact ih
    | true =>
      show _ ↔ offset.toNat = cursor.toNat ∧ Chain (cursor.toNat + len.toNat) (blocks.map Block.pair) stop.toNat
      simp only [walkBlocks, Bool.not_true, Bool.false_eq_true, if_false]
      split
      · next hne => simp [UInt64.toNat_inj, hne]
      · next heq =>
        rw [ne_eq, not_not] at heq
        subst heq
        constructor
        · intro h
          cases hend : endOf offset len with
          | error e => rw [hend] at h; cases h
          | ok next =>
            rw [hend] at h
            rw [endOf_ok_iff.mp hend]
            exact ⟨rfl, ih.mp h⟩
        · rintro ⟨-, h⟩
          have hstop := stop.toNat_lt
          have hle := h.le
          have hend : offset.toNat + len.toNat = (offset + len).toNat :=
            (Checked.toNat_add_of_lt (by omega)).symm
          rw [endOf_ok_iff.mpr hend]
          exact ih.mpr (hend ▸ h)

/-- The blocks of the walk describe the footer's pairs. -/
theorem Footer.map_pair_blocks (f : Footer) :
    (Block.mk f.manifestOffset f.manifestLen true :: Block.mk f.archiveOffset f.archiveLen true ::
      f.envelopePairs.map fun p => ⟨p.1, p.2.1, !isAbsentPair p.1 p.2.1⟩).map Block.pair = f.pairs := by
  have hpair (offset len : UInt64) : Block.pair ⟨offset, len, !isAbsentPair offset len⟩ = wirePair offset len := by
    unfold Block.pair wirePair
    cases isAbsentPair offset len <;> rfl
  simp only [Footer.envelopePairs, List.map_cons, List.map_nil, hpair]
  rfl

/-- A footer is valid exactly when it is laid out. -/
theorem validateFooter_ok_iff {f : Footer} {footerStart : Nat} :
    validateFooter f footerStart = .ok () ↔ f.LaidOut footerStart := by
  constructor
  · intro h
    unfold validateFooter at h
    cases henv : envelopeBlocks f.envelopePairs with
    | error e => rw [henv] at h; cases h
    | ok envelope =>
      obtain ⟨hwhole, rfl⟩ := envelopeBlocks_ok_iff.mp henv
      simp only [henv, bind, Except.bind] at h
      split at h
      · cases h
      split at h
      · cases h
      next stop hwalk =>
      split at h
      · cases h
      next hstop =>
      obtain rfl : stop.toNat = footerStart := by simpa using hstop
      refine ⟨stop.toNat_lt, hwhole, ?_⟩
      rw [← f.map_pair_blocks]
      exact walkBlocks_ok_iff.mp hwalk
  · rintro ⟨hlt, hwhole, hchain⟩
    have hstop : (UInt64.ofNat footerStart).toNat = footerStart := Checked.toNat_ofNat hlt
    have hmem {o l : Nat} (h : some (o, l) ∈ f.pairs) : o + l ≤ footerStart := (hchain.mem_le h).2
    have hinside : ∀ b ∈ (⟨f.manifestOffset, f.manifestLen, true⟩ : Block) ::
        ⟨f.archiveOffset, f.archiveLen, true⟩ ::
          f.envelopePairs.map (fun p => ⟨p.1, p.2.1, !isAbsentPair p.1 p.2.1⟩),
        b.offset.toNat + b.len.toNat ≤ footerStart := by
      intro b hb
      have hpair := List.mem_map_of_mem (f := Block.pair) hb
      rw [f.map_pair_blocks] at hpair
      obtain ⟨offset, len, present⟩ := b
      cases present with
      | true => exact hmem hpair
      | false =>
        have habsent : isAbsentPair offset len = true := by
          simp only [List.mem_cons, Block.mk.injEq, Bool.false_eq_true, and_false, false_or,
            List.mem_map] at hb
          obtain ⟨p, -, rfl, rfl, hp⟩ := hb
          simpa using hp
        obtain ⟨rfl, rfl⟩ := isAbsentPair_iff.mp habsent
        simp
    have hwalk : walkBlocks f.manifestOffset (⟨f.manifestOffset, f.manifestLen, true⟩ ::
        ⟨f.archiveOffset, f.archiveLen, true⟩ ::
          f.envelopePairs.map fun p => ⟨p.1, p.2.1, !isAbsentPair p.1 p.2.1⟩) = .ok (UInt64.ofNat footerStart) := by
      rw [walkBlocks_ok_iff, f.map_pair_blocks, hstop]
      exact hchain
    rw [validateFooter, envelopeBlocks_ok_iff.mpr ⟨hwhole, rfl⟩]
    simp only [bind, Except.bind, checkInside_ok hlt hinside, hwalk, hstop, ne_eq, not_true_eq_false,
      if_false]

/-- An accepted footer's present blocks tile the bytes from the manifest's start to the footer's, and only such a
footer is accepted. -/
theorem validateFooter_tiles (f : Footer) (footerStart : UInt64) :
    (validateFooter f footerStart.toNat = .ok () ↔
      (∀ p ∈ f.envelopePairs, p.1 = 0 ↔ p.2.1 = 0) ∧ Chain f.manifestOffset.toNat f.pairs footerStart.toNat) ∧
    (validateFooter f footerStart.toNat = .ok () →
      (∀ pos, f.manifestOffset.toNat ≤ pos → pos < footerStart.toNat → ∃! i, Covers f.pairs i pos) ∧
      ∀ file : Bytes, footerStart.toNat ≤ file.length → ∀ offset len, some (offset, len) ∈ f.pairs →
        f.manifestOffset.toNat ≤ offset ∧ offset + len ≤ footerStart.toNat ∧
          (LittleEndian.slice file offset len).length = len) := by
  have hiff := @validateFooter_ok_iff f footerStart.toNat
  refine ⟨hiff.trans ⟨fun h => ⟨h.whole, h.chain⟩, fun h => ⟨footerStart.toNat_lt, h.1, h.2⟩⟩, fun h => ?_⟩
  have hchain := (hiff.mp h).chain
  refine ⟨fun pos hlo hhi => hchain.existsUnique hlo hhi, fun file hfile offset len hmem => ?_⟩
  obtain ⟨hlo, hhi⟩ := hchain.mem_le hmem
  exact ⟨hlo, hhi, LittleEndian.length_slice file (by omega)⟩

end DeployCore
