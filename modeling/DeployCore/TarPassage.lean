import DeployCore.TarReplay

/-! # The way from one entry to the next

Each call of a walker passes over extension records, one behind the other, and comes to an entry, to the end of the
archive or to a fault. -/

namespace DeployCore
open Fallible CountingReader LittleEndian

/-- A header in a stream, and how much data is behind it. -/
structure Record where
  headerOffset : Nat
  typeflag : Typeflag
  header : HeaderFields
  dataLen : Nat

namespace Record

def dataOffset (record : Record) : Nat :=
  record.headerOffset + BLOCK

/-- The data with its padding. -/
def padded (record : Record) : Nat :=
  (record.dataLen + (BLOCK - 1)) / BLOCK * BLOCK

/-- Where the next header is. -/
def next (record : Record) : Nat :=
  record.dataOffset + record.padded

def payload (bytes : Bytes) (record : Record) : Bytes :=
  slice bytes record.dataOffset record.dataLen

def ofExtension (offset : Nat) (extension : Extension) (header : HeaderFields) : Record :=
  ⟨offset, .extension extension, header, header.size⟩

def ofEntry (header : HeaderFields) (entry : TarEntry) : Record :=
  ⟨entry.headerOffset, .entry entry.kind, header, entry.dataLen⟩

end Record

namespace TarWalker
/-- The walker passes over extension records. -/
inductive Passes : TarWalker → List Record → TarWalker → Prop
  | here {w} : Passes w [] w
  | record {w w₁ w₂ extension header records} (hsteady : Steady w) (h : Extended w.settled extension header w₁)
      (hrest : Passes w₁ records w₂) :
      Passes w (.ofExtension w.settled.source.position extension header :: records) w₂

/-- What a call of a walker comes to, once it has passed over the records on its way. -/
inductive Comes (w : TarWalker) : EStateM.Result ContentFault TarWalker (Option TarEntry) → Prop
  | entry {records w₁ kind header entry w₂} (hpasses : Passes w records w₁) (hsteady : Steady w₁)
      (h : Entered w₁.settled kind header entry w₂) : Comes w (.ok (some entry) w₂)
  | finished {records w₁ w₂} (hpasses : Passes w records w₁) (hsteady : Steady w₁) (h : Finished w₁.settled w₂) :
      Comes w (.ok none w₂)
  | stopped {records w₁ fault w₂} (hpasses : Passes w records w₁) (hsteady : Steady w₁)
      (h : Stops w₁.settled fault w₂.rules) : Comes w (.error fault w₂)
  | truncated {records w₁ w₂} (hpasses : Passes w records w₁) (hrules : w₂.rules = w₁.rules) :
      Comes w (.error (.malformed .truncated) w₂)

variable {w w' w₁ : TarWalker} {extension : Extension} {kind : EntryKind} {header : HeaderFields} {entry : TarEntry}
  {bytes : Bytes} {offset : Nat}

theorem Comes.pass {result : EStateM.Result ContentFault TarWalker (Option TarEntry)} (hsteady : Steady w)
    (h : Extended w.settled extension header w₁) (hcomes : Comes w₁ result) : Comes w result := by
  cases hcomes with
  | entry hpasses hsteady' hentered => exact .entry (.record hsteady h hpasses) hsteady' hentered
  | finished hpasses hsteady' hfinished => exact .finished (.record hsteady h hpasses) hsteady' hfinished
  | stopped hpasses hsteady' hstops => exact .stopped (.record hsteady h hpasses) hsteady' hstops
  | truncated hpasses hrules => exact .truncated (.record hsteady h hpasses) hrules

theorem advanceFrom_comes {fuel : Nat} (h : Steady w ∨ Doomed w) (hlatch : w.latch = none) :
    Comes w (advanceFrom fuel w) := by
  induction fuel generalizing w with
  | zero => exact .truncated .here rfl
  | succ fuel ih =>
    unfold advanceFrom
    rcases h with hsteady | hdoomed
    · rcases hround : readNext w.settled with ⟨step, w₁⟩ | ⟨fault, w₁⟩
      · have hrun : round w = .ok step w₁ := (round_of_steady hsteady).trans hround
        rw [bind_of_ok hrun]
        cases readNext_ok hsteady.settled.toOpen hround with
        | finished h => exact .finished .here hsteady h
        | entry h => exact .entry .here hsteady h
        | extension h =>
          have hopen := h.opened hsteady.settled.toOpen rfl
          exact (ih hopen.steady_or_doomed hopen.latch).pass hsteady h
      · have hrun : round w = .error fault w₁ := (round_of_steady hsteady).trans hround
        rw [bind_of_error hrun]
        exact .stopped .here hsteady (readNext_error hsteady.settled.toOpen hround)
    · obtain ⟨w₁, hround, hrules, -⟩ := round_of_doomed hlatch hdoomed
      rw [bind_of_error hround]
      exact .truncated .here hrules

/-- One call, from a walker that has not come to an end. -/
theorem nextEntry_comes (h : Steady w ∨ Doomed w) : Comes w (nextEntry w) := by
  rcases h with hsteady | hdoomed
  · have hcomes : Comes w (advance w) := advanceFrom_comes (.inl hsteady) hsteady.latch
    rw [nextEntry_of_open hsteady.toOpen]
    rcases hadvance : advance w with ⟨called, w₁⟩ | ⟨fault, w₁⟩ <;> rw [hadvance] at hcomes
    · exact hcomes
    · cases hcomes with
      | stopped hpasses hsteady' hstops => exact .stopped hpasses hsteady' hstops
      | truncated hpasses hrules => exact .truncated hpasses hrules
  · obtain ⟨w₁, hnext, hrules⟩ := nextEntry_of_doomed hdoomed
    rw [hnext]
    exact .truncated .here hrules

/-! ### Offsets -/

/-- The next header of the walker is at `offset` of the stream. -/
structure At (bytes : Bytes) (offset : Nat) (w : TarWalker) : Prop where
  position : w.settled.source.position = offset
  source : w.settled.source.source.bytes = bytes.drop offset

theorem At.block (h : At bytes offset w) : w.settled.block = slice bytes offset BLOCK := by
  rw [TarWalker.block, h.source]
  rfl

theorem At.length (h : At bytes offset w) {n : Nat} (hn : n ≤ w.settled.source.readable) (hpos : 0 < n) :
    offset + n ≤ bytes.length := by
  have hreadable := hn.trans (Nat.min_le_right _ _)
  rw [h.source, List.length_drop] at hreadable
  omega

theorem At.of_advanceBy {n : Nat} (h : At bytes offset w)
    (hsettled : w'.settled.source = w.settled.source.advanceBy n) : At bytes (offset + n) w' := by
  refine ⟨?_, ?_⟩
  · rw [hsettled, ← h.position]
    rfl
  · rw [hsettled, bytes_advanceBy, h.source, List.drop_drop]

theorem paddedLen_eq {dataOffset size padded : Nat} (h : paddedLen dataOffset size = .ok padded) :
    padded = (size + (BLOCK - 1)) / BLOCK * BLOCK := by
  unfold paddedLen at h
  dsimp only at h
  split at h
  · cases h
  · exact (Except.ok.inj h).symm

theorem Extended.at_next (hat : At bytes offset w) (h : Extended w.settled extension header w₁) :
    At bytes (Record.ofExtension offset extension header).next w₁ := by
  obtain @⟨_, padded, _, _, _, hread, _, hpadded, havailable, hpayload, _⟩ := h
  have hblock := hread.readable.trans (Nat.min_le_left _ _)
  have hsize := (paddedLen_ok hpadded).2.1
  rw [remaining_advanceBy hblock] at havailable
  have hnext : (Record.ofExtension offset extension header).next = offset + (BLOCK + padded) := by
    rw [paddedLen_eq hpadded, ← Nat.add_assoc]
    rfl
  rw [hnext]
  refine hat.of_advanceBy ?_
  show ((w.settled.source.advanceBy BLOCK).advanceBy header.size).advanceBy (0 + (padded - header.size)) = _
  have hrest : padded ≤ (w.settled.source.advanceBy BLOCK).remaining := by
    rw [remaining_advanceBy hblock]
    exact havailable
  rw [Nat.zero_add, advanceBy_advanceBy (by omega), Nat.add_sub_cancel' hsize, advanceBy_advanceBy (by omega)]

theorem Entered.at_next (hat : At bytes offset w) (h : Entered w.settled kind header entry w₁) :
    entry.headerOffset = offset ∧ entry.dataOffset = offset + BLOCK ∧
      At bytes (Record.ofEntry header entry).next w₁ := by
  obtain @⟨admitted, padded, _, _, hread, _, hpadded, havailable⟩ := h
  have hblock := hread.readable.trans (Nat.min_le_left _ _)
  have hsize := (paddedLen_ok hpadded).2.1
  rw [remaining_advanceBy hblock] at havailable
  refine ⟨hat.position, congrArg (· + BLOCK) hat.position, ?_⟩
  have hnext : (Record.ofEntry header ⟨kind, admitted.name, admitted.linkTarget, admitted.size,
      w.settled.source.position, w.settled.source.position + BLOCK, admitted.size⟩).next = offset + (BLOCK + padded) := by
    rw [paddedLen_eq hpadded, ← Nat.add_assoc, ← hat.position]
    rfl
  rw [hnext]
  refine hat.of_advanceBy ?_
  show (w.settled.source.advanceBy BLOCK).advanceBy (admitted.size + (padded - admitted.size)) = _
  rw [Nat.add_sub_cancel' hsize, advanceBy_advanceBy (by omega)]

end TarWalker

end DeployCore
