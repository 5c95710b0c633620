import DeployCore.Lib.LittleEndian

/-! # Optional blocks laid out one after another

A file format that keeps a fixed order of blocks, some of which may be missing, describes each by an offset
and a length. `place` lays blocks out from a position, `Adjacent` is what a reader checks of the
descriptions, and `extract` cuts the described blocks out of the file. The three agree: what is placed is
adjacent and extracted again, and adjacent descriptions are exactly the placement of what they extract. -/

namespace Adjacent
open LittleEndian

variable {start stop : Nat} {blocks : List (Option (List UInt8))} {pairs : List (Option (Nat × Nat))}

/-- The bytes the present blocks occupy together. -/
def joined : List (Option (List UInt8)) → List UInt8
  | [] => []
  | none :: blocks => joined blocks
  | some b :: blocks => b ++ joined blocks

/-- Where each block lies when they are laid out from `start` on. -/
def place (start : Nat) : List (Option (List UInt8)) → List (Option (Nat × Nat))
  | [] => []
  | none :: blocks => none :: place start blocks
  | some b :: blocks => some (start, b.length) :: place (start + b.length) blocks

/-- The described blocks follow each other from `start` to `stop`. -/
def Chain (start : Nat) : List (Option (Nat × Nat)) → Nat → Prop
  | [], stop => start = stop
  | none :: pairs, stop => Chain start pairs stop
  | some (offset, len) :: pairs, stop => offset = start ∧ Chain (start + len) pairs stop

/-- The described blocks of a file. -/
def extract (file : List UInt8) (pairs : List (Option (Nat × Nat))) : List (Option (List UInt8)) :=
  pairs.map (Option.map fun p => slice file p.1 p.2)

theorem Chain.le (h : Chain start pairs stop) : start ≤ stop := by
  induction pairs generalizing start with
  | nil => exact h.le
  | cons p pairs ih =>
    rcases p with _ | ⟨offset, len⟩
    · exact ih h
    · have := ih h.2
      omega

/-- Every described block lies between the ends. -/
theorem Chain.mem_le (h : Chain start pairs stop) {offset len : Nat} (hp : some (offset, len) ∈ pairs) :
    start ≤ offset ∧ offset + len ≤ stop := by
  induction pairs generalizing start with
  | nil => cases hp
  | cons p pairs ih =>
    rcases p with _ | ⟨offset', len'⟩
    · exact ih h (by simpa using hp)
    · obtain ⟨rfl, htail⟩ := h
      rcases List.mem_cons.mp hp with heq | hp
      · cases heq
        exact ⟨le_rfl, htail.le⟩
      · have := ih htail hp
        omega

/-- The block of this index takes in the position. -/
def Covers (pairs : List (Option (Nat × Nat))) (i pos : Nat) : Prop :=
  ∃ offset len, pairs[i]? = some (some (offset, len)) ∧ offset ≤ pos ∧ pos < offset + len

theorem not_covers_of_lt (h : Chain start pairs stop) {i pos : Nat} (hpos : pos < start) : ¬ Covers pairs i pos := by
  rintro ⟨offset, len, hi, hle, -⟩
  have := (h.mem_le (List.mem_of_getElem? hi)).1
  omega

/-- Every position of the run lies in exactly one block. -/
theorem Chain.existsUnique (h : Chain start pairs stop) {pos : Nat} (hlo : start ≤ pos) (hhi : pos < stop) :
    ∃! i, Covers pairs i pos := by
  induction pairs generalizing start with
  | nil =>
    obtain rfl : start = stop := h
    omega
  | cons p pairs ih =>
    have hbehind (start' : Nat) (htail : Chain start' pairs stop) (hlo' : start' ≤ pos)
        (hskip : ¬ Covers (p :: pairs) 0 pos) : ∃! i, Covers (p :: pairs) i pos := by
      obtain ⟨i, hi, honly⟩ := ih htail hlo'
      refine ⟨i + 1, hi, fun j hj => ?_⟩
      rcases j with _ | j
      · exact absurd hj hskip
      · rw [honly j hj]
    rcases p with _ | ⟨offset, len⟩
    · refine hbehind start h hlo ?_
      rintro ⟨_, _, hi, -⟩
      cases hi
    · obtain ⟨rfl, htail⟩ := h
      by_cases hin : pos < offset + len
      · refine ⟨0, ⟨offset, len, rfl, hlo, hin⟩, fun j hj => ?_⟩
        rcases j with _ | j
        · rfl
        · exact absurd hj (not_covers_of_lt htail hin)
      · refine hbehind _ htail (by omega) ?_
        rintro ⟨_, _, hi, -, hlt⟩
        cases hi
        exact hin hlt

/-- The first described block starts the run. -/
theorem Chain.exists_start (h : Chain start pairs stop) {p : Nat × Nat} (hp : some p ∈ pairs) :
    ∃ len, some (start, len) ∈ pairs := by
  induction pairs with
  | nil => cases hp
  | cons q pairs ih =>
    rcases q with _ | ⟨offset, len⟩
    · obtain ⟨len, hlen⟩ := ih h (by simpa using hp)
      exact ⟨len, List.mem_cons_of_mem _ hlen⟩
    · obtain ⟨rfl, -⟩ := h
      exact ⟨len, List.mem_cons_self⟩

theorem length_place (start : Nat) (blocks : List (Option (List UInt8))) :
    (place start blocks).length = blocks.length := by
  induction blocks generalizing start with
  | nil => rfl
  | cons b blocks ih => cases b <;> simp [place, ih]

theorem chain_place (start : Nat) (blocks : List (Option (List UInt8))) :
    Chain start (place start blocks) (start + (joined blocks).length) := by
  induction blocks generalizing start with
  | nil => rfl
  | cons b blocks ih =>
    cases b with
    | none => exact ih start
    | some b =>
      refine ⟨rfl, ?_⟩
      rw [joined, List.length_append, ← Nat.add_assoc]
      exact ih _

/-- Every placed description is of a present block, between the ends. -/
theorem mem_place {offset len : Nat} (h : some (offset, len) ∈ place start blocks) :
    ∃ b, some b ∈ blocks ∧ len = b.length ∧ start ≤ offset ∧ offset + len ≤ start + (joined blocks).length := by
  obtain ⟨hstart, hstop⟩ := (chain_place start blocks).mem_le h
  suffices ∃ b, some b ∈ blocks ∧ len = b.length from
    let ⟨b, hb, hlen⟩ := this
    ⟨b, hb, hlen, hstart, hstop⟩
  clear hstart hstop
  induction blocks generalizing start with
  | nil => cases h
  | cons b blocks ih =>
    cases b with
    | none =>
      obtain ⟨b, hb, hlen⟩ := ih (by simpa [place] using h)
      exact ⟨b, List.mem_cons_of_mem _ hb, hlen⟩
    | some b =>
      rcases List.mem_cons.mp h with heq | h
      · cases heq
        exact ⟨b, List.mem_cons_self, rfl⟩
      · obtain ⟨b', hb', hlen⟩ := ih h
        exact ⟨b', List.mem_cons_of_mem _ hb', hlen⟩

/-- What is placed is extracted again. -/
theorem extract_place (pre post : List UInt8) (blocks : List (Option (List UInt8))) :
    extract (pre ++ joined blocks ++ post) (place pre.length blocks) = blocks := by
  induction blocks generalizing pre with
  | nil => rfl
  | cons b blocks ih =>
    cases b with
    | none => exact congrArg (none :: ·) (ih pre)
    | some b =>
      have hfile : pre ++ joined (some b :: blocks) ++ post = pre ++ b ++ joined blocks ++ post := by
        simp [joined]
      have hb : slice (pre ++ b ++ joined blocks ++ post) pre.length b.length = b := by
        simpa using slice_middle pre b (joined blocks ++ post)
      have htail := ih (pre ++ b)
      rw [List.length_append] at htail
      rw [hfile]
      show some (slice _ pre.length b.length) :: extract _ (place (pre.length + b.length) blocks) = _
      rw [hb, htail]

/-- Adjacent descriptions are the placement of the blocks they describe. -/
theorem place_extract {file : List UInt8} (h : Chain start pairs stop) (hstop : stop ≤ file.length) :
    place start (extract file pairs) = pairs ∧ joined (extract file pairs) = slice file start (stop - start) := by
  induction pairs generalizing start with
  | nil =>
    obtain rfl : start = stop := h
    simp [extract, place, joined, slice]
  | cons p pairs ih =>
    rcases p with _ | ⟨offset, len⟩
    · obtain ⟨hplace, hjoined⟩ := ih h
      exact ⟨congrArg (none :: ·) hplace, hjoined⟩
    · obtain ⟨rfl, htail⟩ := h
      obtain ⟨hplace, hjoined⟩ := ih htail
      have hle := htail.le
      have hlen : (slice file offset len).length = len := length_slice file (by omega)
      refine ⟨?_, ?_⟩
      · show some (offset, (slice file offset len).length) ::
          place (offset + (slice file offset len).length) (extract file pairs) = _
        rw [hlen, hplace]
      · show slice file offset len ++ joined (extract file pairs) = _
        rw [hjoined]
        simp only [slice, ← List.drop_drop]
        rw [show stop - offset = len + (stop - (offset + len)) by omega, List.take_add]

/-- A placement from elsewhere keeps every length and every distance from its start. -/
theorem place_shift (start start' : Nat) (blocks : List (Option (List UInt8))) :
    place start' blocks = (place start blocks).map (Option.map fun p => (start' + (p.1 - start), p.2)) := by
  suffices h : ∀ d, place (start' + d) blocks =
      (place (start + d) blocks).map (Option.map fun p => (start' + (p.1 - start), p.2)) from h 0
  intro d
  induction blocks generalizing d with
  | nil => rfl
  | cons b blocks ih =>
    cases b with
    | none => exact congrArg (none :: ·) (ih d)
    | some b =>
      have htail := ih (d + b.length)
      rw [← Nat.add_assoc, ← Nat.add_assoc] at htail
      simp only [place, List.map_cons, Option.map_some, htail]
      congr 3
      omega

end Adjacent
