import Mathlib

/-! # Incremental decoders

A self-delimiting format as its decoder sees a stream grow, and what a decoder that is handed the stream in pieces,
with so much room for its output at a time, owes to the format. -/

namespace Incremental
variable {α β σ : Type}

/-- What is read so far decodes to `decoded`; it is a whole stream, or a stream may go on behind it, or neither. -/
structure Format (α β : Type) where
  decoded : List α → List β
  Ends : List α → Prop
  Goes : List α → Prop
  start : Goes []
  goes_left : ∀ x y, Goes (x ++ y) → Goes x
  goes_of_ends : ∀ x y, Ends (x ++ y) → y ≠ [] → Goes x
  not_goes : ∀ x, Ends x → ¬Goes x
  decoded_mono : ∀ x y, Goes (x ++ y) ∨ Ends (x ++ y) → decoded x <+: decoded (x ++ y)

namespace Format
variable {format : Format α β} {x y : List α}

/-- No stream begins like this, and none is a beginning of it. -/
structure Astray (format : Format α β) (x : List α) : Prop where
  goes : ¬format.Goes x
  ends : ∀ k, ¬format.Ends (x.take k)

theorem goes_take (h : format.Goes x) (k : Nat) : format.Goes (x.take k) :=
  format.goes_left _ (x.drop k) (by rwa [List.take_append_drop])

/-- A stream is over where it first ends. -/
theorem ends_take_le {j k : Nat} (hj : format.Ends (x.take j)) (hk : format.Ends (x.take k)) (hle : k ≤ x.length) :
    k ≤ j := by
  by_contra hlt
  have hsplit : x.take k = x.take j ++ (x.drop j).take (k - j) := by
    rw [← List.take_add]
    congr 1
    omega
  rw [hsplit] at hk
  refine format.not_goes _ hj (format.goes_of_ends _ _ hk ?_)
  rw [← List.length_pos_iff, List.length_take, List.length_drop]
  omega

theorem ends_unique {j k : Nat} (hj : format.Ends (x.take j)) (hk : format.Ends (x.take k)) (hjle : j ≤ x.length)
    (hkle : k ≤ x.length) : j = k :=
  Nat.le_antisymm (ends_take_le hk hj hjle) (ends_take_le hj hk hkle)

theorem not_goes_of_ends {k : Nat} (h : format.Ends (x.take k)) : ¬format.Goes x :=
  fun hgoes => format.not_goes _ h (goes_take hgoes k)

theorem astray_snoc {a : α} (h : format.Goes x) (hgoes : ¬format.Goes (x ++ [a])) (hends : ¬format.Ends (x ++ [a])) :
    format.Astray (x ++ [a]) := by
  refine ⟨hgoes, fun k hk => ?_⟩
  rcases Nat.lt_or_ge x.length k with hlt | hle
  · rw [List.take_of_length_le (by rw [List.length_append, List.length_singleton]; omega)] at hk
    exact hends hk
  · rw [List.take_append_of_le_length hle] at hk
    exact not_goes_of_ends hk h

theorem astray_append (h : format.Astray x) (y : List α) : format.Astray (x ++ y) := by
  refine ⟨fun hgoes => h.goes (format.goes_left _ _ hgoes), fun k hends => ?_⟩
  rw [List.take_append] at hends
  by_cases hempty : y.take (k - x.length) = []
  · rw [hempty, List.append_nil] at hends
    exact h.ends k hends
  · have hk : x.length ≤ k := by
      by_contra hlt
      rw [Nat.sub_eq_zero_of_le (by omega), List.take_zero] at hempty
      exact hempty rfl
    rw [List.take_of_length_le hk] at hends
    exact h.goes (format.goes_of_ends _ _ hends hempty)

end Format

/-- What a call of a decoder comes to. -/
structure Progress (σ β : Type) where
  consumed : Nat
  produced : List β
  ended : Bool
  state : σ

/-- A decoder: given input and room for so much output, it goes on or refuses the input. -/
structure Decoder (σ α β : Type) where
  init : σ
  decode : σ → List α → (room : Nat) → Option (Progress σ β)

/-- The decoder decodes the format; `Holds s x w` says that in the state `s` it has read `x` and written `w`. -/
structure Decodes (format : Format α β) (decoder : Decoder σ α β) (Holds : σ → List α → List β → Prop) : Prop where
  init : Holds decoder.init [] []
  sound : ∀ s x w, Holds s x w → (format.Goes x ∨ format.Ends x) ∧ w <+: format.decoded x
  bounds : ∀ s x w input room p, Holds s x w → decoder.decode s input room = some p →
    p.consumed ≤ input.length ∧ p.produced.length ≤ room
  ended : ∀ s x w input room p, Holds s x w → decoder.decode s input room = some p → p.ended →
    format.Ends (x ++ input.take p.consumed) ∧ format.decoded (x ++ input.take p.consumed) = w ++ p.produced
  goes : ∀ s x w input room p, Holds s x w → decoder.decode s input room = some p → p.ended = false →
    Holds p.state (x ++ input.take p.consumed) (w ++ p.produced)
  stuck : ∀ s x w input room p, Holds s x w → 0 < room → decoder.decode s input room = some p → p.ended = false →
    p.produced = [] → p.consumed = input.length ∧ format.Goes (x ++ input)
  refuses : ∀ s x w input room, Holds s x w → decoder.decode s input room = none → format.Astray (x ++ input)

/-! ### A decoder for every automaton

An automaton that reads one symbol at a time makes a format, and a decoder of it that reads ahead as far as its room
for output goes. -/

structure Machine (τ α β : Type) where
  init : τ
  step : τ → α → Option (τ × List β)
  halted : τ → Bool
  init_halted : halted init = false
  step_halted : ∀ s a, halted s → step s a = none

namespace Machine
variable {τ : Type}

/-- Reads on from a state in which `out` is written. -/
def run (m : Machine τ α β) : τ × List β → List α → Option (τ × List β)
  | at_, [] => some at_
  | (s, out), a :: rest =>
    match m.step s a with
    | none => none
    | some (s, piece) => m.run (s, out ++ piece) rest

variable {m : Machine τ α β} {at_ at₁ : τ × List β} {x y : List α}

theorem run_append : m.run at_ (x ++ y) = (m.run at_ x).bind fun at_ => m.run at_ y := by
  induction x generalizing at_ with
  | nil => rfl
  | cons a x ih =>
    rw [List.cons_append, run, run]
    rcases m.step at_.1 a with _ | ⟨s, piece⟩
    · rfl
    · exact ih

theorem run_prefix (h : m.run at_ x = some at₁) : at_.2 <+: at₁.2 := by
  induction x generalizing at_ with
  | nil =>
    cases h
    exact List.prefix_rfl
  | cons a x ih =>
    rw [run] at h
    rcases hstep : m.step at_.1 a with _ | ⟨s, piece⟩ <;> rw [hstep] at h
    · cases h
    · exact (List.prefix_append _ _).trans (ih h)

theorem run_halted (hhalted : m.halted at_.1) (h : m.run at_ x = some at₁) : x = [] := by
  rcases x with _ | ⟨a, x⟩
  · rfl
  · rw [run, m.step_halted _ _ hhalted] at h
    cases h

/-- The format of the strings that halt the automaton. -/
def format (m : Machine τ α β) : Format α β where
  decoded x := ((m.run (m.init, []) x).map Prod.snd).getD []
  Ends x := ∃ at₁, m.run (m.init, []) x = some at₁ ∧ m.halted at₁.1
  Goes x := ∃ at₁, m.run (m.init, []) x = some at₁ ∧ m.halted at₁.1 = false
  start := ⟨_, rfl, m.init_halted⟩
  goes_left x y := by
    rintro ⟨at₂, hrun, hgoes⟩
    rw [run_append] at hrun
    obtain ⟨at₁, hx, hy⟩ := Option.bind_eq_some_iff.mp hrun
    refine ⟨at₁, hx, ?_⟩
    by_contra hhalted
    rw [Bool.not_eq_false] at hhalted
    obtain rfl := run_halted hhalted hy
    cases hy
    rw [hhalted] at hgoes
    cases hgoes
  goes_of_ends x y := by
    rintro ⟨at₂, hrun, -⟩ hne
    rw [run_append] at hrun
    obtain ⟨at₁, hx, hy⟩ := Option.bind_eq_some_iff.mp hrun
    exact ⟨at₁, hx, Bool.eq_false_iff.mpr fun hhalted => hne (run_halted hhalted hy)⟩
  not_goes x := by
    rintro ⟨at₁, hrun, hhalted⟩ ⟨at₂, hrun', hgoes⟩
    cases hrun.symm.trans hrun'
    rw [hhalted] at hgoes
    cases hgoes
  decoded_mono x y h := by
    have hrun : ∃ at₂, m.run (m.init, []) (x ++ y) = some at₂ := by
      rcases h with ⟨at₂, hrun, -⟩ | ⟨at₂, hrun, -⟩ <;> exact ⟨at₂, hrun⟩
    obtain ⟨at₂, hrun⟩ := hrun
    obtain ⟨at₁, hx, hy⟩ := Option.bind_eq_some_iff.mp (run_append ▸ hrun)
    rw [hrun, hx]
    exact run_prefix hy

/-- Reads as long as the output read for does not fill the room. -/
def readAhead (m : Machine τ α β) (fill : Nat) : τ × List β → List α → Option ((τ × List β) × Nat)
  | at_, [] => some (at_, 0)
  | (s, out), a :: rest =>
    if m.halted s ∨ fill ≤ out.length then some ((s, out), 0)
    else
      match m.step s a with
      | none => none
      | some (s, piece) => (m.readAhead fill (s, out ++ piece) rest).map fun (at_, n) => (at_, n + 1)

/-- A state is the automaton's, with all that is written, and how much of that has been given out. -/
def decoder (m : Machine τ α β) : Decoder ((τ × List β) × Nat) α β where
  init := ((m.init, []), 0)
  decode s input room :=
    (m.readAhead (s.2 + room) s.1 input).map fun (at_, consumed) =>
      let produced := (at_.2.drop s.2).take room
      { consumed, produced, ended := m.halted at_.1 && decide (at_.2.length ≤ s.2 + room), state := (at_, s.2 + produced.length) }

/-- The automaton has read `x`, and `w` is given out of what it has written. -/
structure Holds (m : Machine τ α β) (s : (τ × List β) × Nat) (x : List α) (w : List β) : Prop where
  run : m.run (m.init, []) x = some s.1
  given : w = s.1.2.take s.2
  within : s.2 ≤ s.1.2.length

theorem readAhead_ok {fill n : Nat} {input : List α} (h : m.readAhead fill at_ input = some (at₁, n)) :
    n ≤ input.length ∧ m.run at_ (input.take n) = some at₁ ∧
      (n = input.length ∨ m.halted at₁.1 ∨ fill ≤ at₁.2.length) := by
  induction input generalizing at_ n with
  | nil =>
    cases h
    exact ⟨Nat.le_refl _, rfl, .inl rfl⟩
  | cons a rest ih =>
    rw [readAhead] at h
    split at h
    next hfull =>
      cases h
      exact ⟨Nat.zero_le _, rfl, .inr hfull⟩
    next hfull =>
      rcases hstep : m.step at_.1 a with _ | ⟨s, piece⟩ <;> rw [hstep] at h
      · cases h
      · obtain ⟨⟨at₂, k⟩, hrest, heq⟩ := Option.map_eq_some_iff.mp h
        cases heq
        obtain ⟨hle, hrun, hstop⟩ := ih hrest
        refine ⟨Nat.succ_le_succ hle, ?_, hstop.imp_left (congrArg (· + 1))⟩
        rw [List.take_succ_cons, run, hstep]
        exact hrun

theorem readAhead_none {fill : Nat} {input : List α} (h : m.readAhead fill at_ input = none) :
    ∃ read a rest at₁, input = read ++ a :: rest ∧ m.run at_ read = some at₁ ∧ m.halted at₁.1 = false ∧
      m.step at₁.1 a = none := by
  induction input generalizing at_ with
  | nil => cases h
  | cons a rest ih =>
    rw [readAhead] at h
    split at h
    · cases h
    next hfull =>
      rcases hstep : m.step at_.1 a with _ | ⟨s, piece⟩ <;> rw [hstep] at h
      · exact ⟨[], a, rest, at_, rfl, rfl, Bool.eq_false_iff.mpr fun hhalted => hfull (.inl hhalted), hstep⟩
      · obtain ⟨read, b, rest, at₁, rfl, hrun, hrefused⟩ := ih (Option.map_eq_none_iff.mp h)
        refine ⟨a :: read, b, rest, at₁, rfl, ?_, hrefused⟩
        rw [run, hstep]
        exact hrun

theorem given_append {s : (τ × List β) × Nat} {w : List β} {input : List α} (h : m.Holds s x w)
    (hrun : m.run s.1 input = some at₁) (room : Nat) :
    s.2 ≤ at₁.2.length ∧ w ++ (at₁.2.drop s.2).take room = at₁.2.take (s.2 + room) := by
  obtain ⟨more, hmore⟩ := run_prefix hrun
  have hlength := congrArg List.length hmore
  rw [List.length_append] at hlength
  have hwithin := h.within
  refine ⟨by omega, ?_⟩
  rw [h.given, List.take_add, ← hmore, List.take_append_of_le_length hwithin]

theorem decodes (m : Machine τ α β) : Decodes m.format m.decoder m.Holds where
  init := ⟨rfl, rfl, Nat.le_refl _⟩
  sound s x w h := by
    refine ⟨?_, ?_⟩
    · rcases hhalted : m.halted s.1.1
      · exact .inl ⟨_, h.run, hhalted⟩
      · exact .inr ⟨_, h.run, hhalted⟩
    · show w <+: ((m.run (m.init, []) x).map Prod.snd).getD []
      rw [h.run, h.given]
      exact List.take_prefix _ _
  bounds s x w input room p h hdecode := by
    obtain ⟨⟨at₁, n⟩, hread, rfl⟩ := Option.map_eq_some_iff.mp hdecode
    exact ⟨(readAhead_ok hread).1, List.length_take_le _ _⟩
  ended s x w input room p h hdecode hended := by
    obtain ⟨⟨at₁, n⟩, hread, rfl⟩ := Option.map_eq_some_iff.mp hdecode
    obtain ⟨-, hrun, -⟩ := readAhead_ok hread
    simp only [Bool.and_eq_true, decide_eq_true_eq] at hended
    have hwhole : m.run (m.init, []) (x ++ input.take n) = some at₁ := by
      rw [run_append, h.run]
      exact hrun
    refine ⟨⟨at₁, hwhole, hended.1⟩, ?_⟩
    show ((m.run (m.init, []) (x ++ input.take n)).map Prod.snd).getD [] = _
    rw [hwhole, (given_append h hrun room).2, List.take_of_length_le hended.2]
    rfl
  goes s x w input room p h hdecode hended := by
    obtain ⟨⟨at₁, n⟩, hread, rfl⟩ := Option.map_eq_some_iff.mp hdecode
    obtain ⟨-, hrun, -⟩ := readAhead_ok hread
    obtain ⟨hwithin, hgiven⟩ := given_append h hrun room
    have hproduced : ((at₁.2.drop s.2).take room).length = min room (at₁.2.length - s.2) := by
      rw [List.length_take, List.length_drop]
    refine ⟨?_, ?_, ?_⟩
    · rw [run_append, h.run]
      exact hrun
    · show w ++ (at₁.2.drop s.2).take room = at₁.2.take (s.2 + ((at₁.2.drop s.2).take room).length)
      rw [hgiven, hproduced]
      rcases Nat.le_total room (at₁.2.length - s.2) with hroom | hroom
      · rw [Nat.min_eq_left hroom]
      · rw [Nat.min_eq_right hroom, List.take_of_length_le (by omega), List.take_of_length_le (by omega)]
    · show s.2 + ((at₁.2.drop s.2).take room).length ≤ at₁.2.length
      omega
  stuck s x w input room p h hroom hdecode hended hproduced := by
    obtain ⟨⟨at₁, n⟩, hread, rfl⟩ := Option.map_eq_some_iff.mp hdecode
    obtain ⟨-, hrun, hstop⟩ := readAhead_ok hread
    have hlength : at₁.2.length ≤ s.2 := by
      have hnil : ((at₁.2.drop s.2).take room).length = 0 := List.length_eq_zero_iff.mpr hproduced
      rw [List.length_take, List.length_drop] at hnil
      omega
    have hhalted : m.halted at₁.1 = false := by
      have hfits : decide (at₁.2.length ≤ s.2 + room) = true := decide_eq_true (by omega)
      simpa [hfits] using hended
    rcases hstop with rfl | hhalted' | hfull
    · refine ⟨rfl, at₁, ?_, hhalted⟩
      rw [List.take_length] at hrun
      rw [run_append, h.run]
      exact hrun
    · rw [hhalted] at hhalted'
      cases hhalted'
    · omega
  refuses s x w input room h hdecode := by
    obtain ⟨read, a, rest, at₁, rfl, hrun, hgoes, hstep⟩ := readAhead_none (Option.map_eq_none_iff.mp hdecode)
    have hread : m.run (m.init, []) (x ++ read) = some at₁ := by
      rw [run_append, h.run]
      exact hrun
    have hnone : m.run (m.init, []) (x ++ read ++ [a]) = none := by
      rw [run_append, hread]
      show m.run at₁ [a] = none
      rw [run, hstep]
    have hastray : m.format.Astray (x ++ read ++ [a]) := by
      refine Format.astray_snoc ⟨at₁, hread, hgoes⟩ ?_ ?_
      · rintro ⟨at₂, hrun, -⟩
        cases hrun.symm.trans hnone
      · rintro ⟨at₂, hrun, -⟩
        cases hrun.symm.trans hnone
    have hsplit : x ++ (read ++ a :: rest) = x ++ read ++ [a] ++ rest := by simp
    rw [hsplit]
    exact Format.astray_append hastray rest

end Machine

end Incremental
