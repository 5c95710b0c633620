import Mathlib

/-! # Occurrences

The first and the last place at which a list holds another as a run, and where such a run may lie in a list made of
parts. -/

namespace Occurs
variable {α : Type} [DecidableEq α] {needle hay list pre post a b : List α} {x : α} {p q : Nat}

/-- The first place at which the needle begins. -/
def first (needle : List α) : List α → Option Nat
  | [] => none
  | x :: rest => if needle <+: x :: rest then some 0 else (first needle rest).map (· + 1)

/-- The last place at which the needle begins. -/
def last (needle : List α) : List α → Option Nat
  | [] => none
  | x :: rest =>
    match last needle rest with
    | some p => some (p + 1)
    | none => if needle <+: x :: rest then some 0 else none

theorem first_eq_some (h : first needle hay = some p) : ∃ pre post, hay = pre ++ needle ++ post ∧ pre.length = p := by
  induction hay generalizing p with
  | nil => cases h
  | cons x rest ih =>
    by_cases hx : needle <+: x :: rest
    · rw [first, if_pos hx] at h
      obtain ⟨post, hpost⟩ := hx
      exact ⟨[], post, hpost.symm, Option.some.inj h⟩
    · rw [first, if_neg hx] at h
      obtain ⟨q, hq, rfl⟩ := Option.map_eq_some_iff.mp h
      obtain ⟨pre, post, rfl, rfl⟩ := ih hq
      exact ⟨x :: pre, post, rfl, rfl⟩

theorem first_eq_none (hne : needle ≠ []) : first needle hay = none ↔ ¬ needle <:+: hay := by
  induction hay with
  | nil => simp [first, hne]
  | cons x rest ih =>
    rw [List.infix_cons_iff, not_or]
    by_cases hx : needle <+: x :: rest
    · simp [first, hx]
    · simp [first, hx, ih]

theorem first_append (h : first needle a = some p) : first needle (a ++ b) = some p := by
  induction a generalizing p with
  | nil => cases h
  | cons x rest ih =>
    by_cases hx : needle <+: x :: rest
    · rw [first, if_pos hx] at h
      have hlong : needle <+: x :: (rest ++ b) := hx.trans (List.prefix_append (x :: rest) b)
      rw [List.cons_append, first, if_pos hlong, h]
    · rw [first, if_neg hx] at h
      obtain ⟨q, hq, rfl⟩ := Option.map_eq_some_iff.mp h
      obtain ⟨pre, post, hrest, -⟩ := first_eq_some hq
      have hlong : needle.length ≤ rest.length := by
        rw [hrest, List.length_append, List.length_append]
        omega
      have hnot : ¬ needle <+: x :: (rest ++ b) := fun hlate =>
        hx (List.prefix_of_prefix_length_le hlate (List.prefix_append (x :: rest) b)
          (by rw [List.length_cons]; omega))
      rw [List.cons_append, first, if_neg hnot, ih hq]
      rfl

/-- The first place is no later than any other. -/
theorem first_le (hfirst : first needle hay = some p) (hq : q < hay.length) (h : needle <+: hay.drop q) : p ≤ q := by
  induction hay generalizing p q with
  | nil => cases hfirst
  | cons x rest ih =>
    by_cases hx : needle <+: x :: rest
    · rw [first, if_pos hx] at hfirst
      cases hfirst
      exact Nat.zero_le q
    · rw [first, if_neg hx] at hfirst
      obtain ⟨p', hp', rfl⟩ := Option.map_eq_some_iff.mp hfirst
      rcases q with _ | q
      · exact absurd h hx
      · exact Nat.succ_le_succ (ih hp' (Nat.lt_of_succ_lt_succ hq) h)

/-- The needle's first place behind a front before whose end it does not begin. -/
theorem first_append_needle (hne : needle ≠ [])
    (hfirst : ∀ p, first needle (pre ++ needle ++ post) = some p → pre.length ≤ p) :
    first needle (pre ++ needle ++ post) = some pre.length := by
  rcases h : first needle (pre ++ needle ++ post) with _ | p
  · exact absurd ⟨pre, post, rfl⟩ ((first_eq_none hne).mp h)
  · have hlong := List.length_pos_of_ne_nil hne
    have hle : p ≤ pre.length := by
      refine first_le h (by rw [List.length_append, List.length_append]; omega) ?_
      rw [List.append_assoc, List.drop_left]
      exact List.prefix_append _ _
    rw [Nat.le_antisymm hle (hfirst p h)]

theorem last_eq_some (h : last needle hay = some p) : ∃ pre post, hay = pre ++ needle ++ post ∧ pre.length = p := by
  induction hay generalizing p with
  | nil => cases h
  | cons x rest ih =>
    cases hrest : last needle rest with
    | some q =>
      rw [last, hrest] at h
      obtain ⟨pre, post, rfl, rfl⟩ := ih hrest
      exact ⟨x :: pre, post, rfl, Option.some.inj h⟩
    | none =>
      simp only [last, hrest] at h
      split at h
      next hx =>
        obtain ⟨post, hpost⟩ := hx
        exact ⟨[], post, hpost.symm, Option.some.inj h⟩
      · cases h

theorem last_eq_none (hne : needle ≠ []) : last needle hay = none ↔ ¬ needle <:+: hay := by
  induction hay with
  | nil => simp [last, hne]
  | cons x rest ih =>
    rw [List.infix_cons_iff, not_or]
    cases hrest : last needle rest with
    | some q =>
      rw [hrest] at ih
      have hinfix : needle <:+: rest := not_not.mp fun h => nomatch ih.mpr h
      simp [last, hrest, hinfix]
    | none => simp [last, hrest, ih.mp hrest]

/-- The last place in a list is the last in any tail of it that has one. -/
theorem last_append (h : last needle b = some p) : last needle (a ++ b) = some (a.length + p) := by
  induction a with
  | nil => rw [List.nil_append, h, List.length_nil, Nat.zero_add]
  | cons x a ih =>
    rw [List.cons_append, last, ih, List.length_cons]
    simp only [Option.some.injEq]
    omega

omit [DecidableEq α] in
/-- A needle that ends in `x` does not begin again behind its first place where no `x` follows. -/
theorem not_infix_tail (hpost : x ∉ post) : ¬ a ++ [x] <:+: (a ++ [x]).tail ++ post := by
  intro h
  have hlt : ¬ a ++ [x] <:+: (a ++ [x]).tail := fun h => by
    have := h.length_le
    rw [List.length_tail, List.length_append, List.length_singleton] at this
    omega
  rcases List.infix_append_iff.mp h with h | h | ⟨l₁, l₂, heq, hl₁, hl₂⟩
  · exact hlt h
  · exact hpost (h.subset (by simp))
  · rcases List.eq_nil_or_concat l₂ with rfl | ⟨l, y, rfl⟩
    · rw [List.append_nil] at heq
      exact hlt (heq ▸ hl₁.isInfix)
    · rw [List.concat_eq_append, ← List.append_assoc] at heq
      obtain ⟨-, hxy⟩ := List.append_inj' heq rfl
      obtain rfl := (List.cons.inj hxy).1
      exact hpost (hl₂.subset (by simp))

/-- The needle at the front is the last one where none begins behind it. -/
theorem last_front (h : needle ≠ []) (hnot : ¬ needle <:+: needle.tail ++ post) :
    last needle (needle ++ post) = some 0 := by
  cases hcons : needle ++ post with
  | nil => exact absurd (List.append_eq_nil_iff.mp hcons).1 h
  | cons y rest =>
    have hrest : needle.tail ++ post = rest := by
      rw [← List.tail_append_of_ne_nil h, hcons]
      rfl
    rw [last, (last_eq_none h).mpr (hrest ▸ hnot)]
    exact if_pos (hcons ▸ List.prefix_append ..)

omit [DecidableEq α] in
/-- A needle that has no `x` lies on one side of it. -/
theorem infix_append_cons (hx : x ∉ needle) (h : needle <:+: a ++ x :: b) : needle <:+: a ∨ needle <:+: b := by
  have hnil {l : List α} (hl : l <+: x :: b) (hxl : x ∉ l) : l = [] := by
    rcases List.prefix_cons_iff.mp hl with rfl | ⟨t, rfl, -⟩
    · rfl
    · exact absurd (List.mem_cons_self ..) hxl
  rcases List.infix_append_iff.mp h with h | h | ⟨l₁, l₂, rfl, hl₁, hl₂⟩
  · exact .inl h
  · rcases List.infix_cons_iff.mp h with h | h
    · exact .inl (hnil h hx ▸ List.nil_infix)
    · exact .inr h
  · have hl := hnil hl₂ fun hmem => hx (List.mem_append_right _ hmem)
    rw [hl, List.append_nil]
    exact .inl hl₁.isInfix

/-! ### A needle that may still be arriving -/

/-- The length of the longest proper front of the needle that the list ends with. -/
def partialSuffix (list needle : List α) : Nat :=
  Nat.findGreatest (fun len => needle.take len <:+ list) (min list.length (needle.length - 1))

theorem partialSuffix_le : partialSuffix list needle ≤ min list.length (needle.length - 1) :=
  Nat.findGreatest_le _

theorem partialSuffix_suffix : needle.take (partialSuffix list needle) <:+ list :=
  @Nat.findGreatest_spec 0 (fun len => needle.take len <:+ list) _ _ (Nat.zero_le _) List.nil_suffix

/-- What the trailing fragment is. -/
theorem partialSuffix_drop : list.drop (list.length - partialSuffix list needle) <+: needle := by
  have hle := @partialSuffix_le α _ needle list
  obtain ⟨before, hbefore⟩ := @partialSuffix_suffix α _ needle list
  have hlength : (needle.take (partialSuffix list needle)).length = partialSuffix list needle := by
    rw [List.length_take]
    omega
  have hcut : list.length - partialSuffix list needle = before.length := by
    have := congrArg List.length hbefore
    rw [List.length_append, hlength] at this
    omega
  rw [hcut, ← hbefore, List.drop_left]
  exact List.take_prefix _ _

/-- Nothing that could be the needle's front at the end of the list begins before the trailing fragment. -/
theorem partialSuffix_begins (hq : q ≤ list.length) (h : list.drop q <+: needle) (hlt : list.length < q + needle.length) :
    list.length - partialSuffix list needle ≤ q := by
  have hlength := List.length_drop (i := q) (l := list)
  have hsuffix : needle.take (list.length - q) <:+ list := by
    rw [← hlength, ← List.prefix_iff_eq_take.mp h]
    exact List.drop_suffix _ _
  have hle : list.length - q ≤ partialSuffix list needle := Nat.le_findGreatest (by omega) hsuffix
  omega

/-- The trailing fragment of a longer list begins no earlier. -/
theorem partialSuffix_mono (h : a <+: b) : a.length - partialSuffix a needle ≤ b.length - partialSuffix b needle := by
  have hle := @partialSuffix_le α _ needle b
  rcases Nat.le_total a.length (b.length - partialSuffix b needle) with hshort | hlong
  · omega
  · have hlength := h.length_le
    rcases Nat.eq_zero_or_pos needle.length with hzero | hpos
    · omega
    · refine partialSuffix_begins hlong ?_ (by omega)
      exact (h.drop _).trans partialSuffix_drop

/-- Until the first needle is whole, the trailing fragment begins where it does or before. -/
theorem partialSuffix_first (hfirst : first needle hay = some p) (h : a <+: hay) (hlt : a.length < p + needle.length) :
    a.length - partialSuffix a needle ≤ p := by
  rcases Nat.le_total a.length p with hshort | hlong
  · omega
  · obtain ⟨pre, post, rfl, rfl⟩ := first_eq_some hfirst
    refine partialSuffix_begins hlong ?_ hlt
    have hdrop := h.drop pre.length
    rw [List.append_assoc, List.drop_left] at hdrop
    exact List.prefix_of_prefix_length_le hdrop (List.prefix_append _ _) (by rw [List.length_drop]; omega)

/-- The first needle of a list is that of every front of it that holds it whole. -/
theorem first_within (hfirst : first needle hay = some p) (h : a <+: hay) (hlong : p + needle.length ≤ a.length)
    (hne : needle ≠ []) : first needle a = some p := by
  obtain ⟨rest, rfl⟩ := h
  rcases hshort : first needle a with _ | q
  · obtain ⟨pre, post, heq, rfl⟩ := first_eq_some hfirst
    refine absurd ?_ ((first_eq_none hne).mp hshort)
    have hfront : pre ++ needle <+: a :=
      List.prefix_of_prefix_length_le ⟨post, heq.symm⟩ (List.prefix_append _ _) (by rwa [List.length_append])
    exact (List.suffix_append pre needle).isInfix.trans hfront.isInfix
  · rw [← first_append (b := rest) hshort, hfirst]

theorem first_eq_none_of_short (hfirst : first needle hay = some p) (h : a <+: hay) (hlt : a.length < p + needle.length) :
    first needle a = none := by
  obtain ⟨rest, rfl⟩ := h
  rcases hshort : first needle a with _ | q
  · rfl
  · obtain ⟨pre, post, heq, rfl⟩ := first_eq_some hshort
    have hsame := first_append (b := rest) hshort
    rw [hfirst, Option.some.injEq] at hsame
    have := congrArg List.length heq
    rw [List.length_append, List.length_append] at this
    omega

end Occurs
