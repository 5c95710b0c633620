import Mathlib

/-! # Maps in key order

A map as the list of its entries in ascending key order. `firstFrom` is the first entry of the range from a key
on; where keys are lists in lexicographic order, it decides whether any key begins with a given list. -/

structure SortedMap (κ β : Type) [LinearOrder κ] where
  entries : List (κ × β)
  sorted : entries.Pairwise (·.1 < ·.1)

namespace SortedMap
variable {κ β : Type} [LinearOrder κ] {m : SortedMap κ β} {k : κ} {b : β} {e : κ × β}

def empty : SortedMap κ β :=
  ⟨[], .nil⟩

def get (m : SortedMap κ β) (k : κ) : Option β :=
  (m.entries.find? (·.1 = k)).map Prod.snd

/-- The first entry whose key is not below `k`. -/
def firstFrom (m : SortedMap κ β) (k : κ) : Option (κ × β) :=
  m.entries.find? (k ≤ ·.1)

/-- Puts an entry in its place, over one of the same key. -/
def place (k : κ) (b : β) : List (κ × β) → List (κ × β)
  | [] => [(k, b)]
  | e :: es =>
    if k < e.1 then (k, b) :: e :: es
    else if k = e.1 then (k, b) :: es
    else e :: place k b es

theorem mem_place {es : List (κ × β)} (h : es.Pairwise (·.1 < ·.1)) :
    e ∈ place k b es ↔ e = (k, b) ∨ e ∈ es ∧ e.1 ≠ k := by
  induction es with
  | nil => simp [place]
  | cons x es ih =>
    obtain ⟨hx, hes⟩ := List.pairwise_cons.mp h
    have habove (hlt : k ≤ x.1) : ∀ y ∈ es, y.1 ≠ k := fun y hy heq => absurd (hx y hy) (not_lt.mpr (heq ▸ hlt))
    unfold place
    split_ifs with hlt heq
    · have hne : ∀ y ∈ x :: es, y.1 ≠ k := List.forall_mem_cons.mpr ⟨hlt.ne', habove hlt.le⟩
      rw [List.mem_cons, and_iff_left_of_imp (hne e)]
    · rw [List.mem_cons, List.mem_cons]
      refine or_congr_right ⟨fun hmem => ⟨.inr hmem, habove heq.le e hmem⟩, ?_⟩
      rintro ⟨rfl | hmem, hne⟩
      · exact absurd heq.symm hne
      · exact hmem
    · rw [List.mem_cons, ih hes, List.mem_cons]
      constructor
      · rintro (rfl | rfl | ⟨hmem, hne⟩)
        · exact .inr ⟨.inl rfl, Ne.symm heq⟩
        · exact .inl rfl
        · exact .inr ⟨.inr hmem, hne⟩
      · rintro (rfl | ⟨rfl | hmem, hne⟩)
        · exact .inr (.inl rfl)
        · exact .inl rfl
        · exact .inr (.inr ⟨hmem, hne⟩)

theorem pairwise_place {es : List (κ × β)} (h : es.Pairwise (·.1 < ·.1)) : (place k b es).Pairwise (·.1 < ·.1) := by
  induction es with
  | nil => exact List.pairwise_singleton _ _
  | cons x es ih =>
    obtain ⟨hx, hes⟩ := List.pairwise_cons.mp h
    unfold place
    split_ifs with hlt heq
    · exact List.pairwise_cons.mpr ⟨List.forall_mem_cons.mpr ⟨hlt, fun y hy => hlt.trans (hx y hy)⟩, h⟩
    · exact List.pairwise_cons.mpr ⟨fun y hy => heq ▸ hx y hy, hes⟩
    · refine List.pairwise_cons.mpr ⟨fun y hy => ?_, ih hes⟩
      rcases (mem_place hes).mp hy with rfl | ⟨hy, -⟩
      · exact lt_of_le_of_ne (not_lt.mp hlt) (Ne.symm heq)
      · exact hx y hy

def insert (m : SortedMap κ β) (k : κ) (b : β) : SortedMap κ β :=
  ⟨place k b m.entries, pairwise_place m.sorted⟩

theorem mem_insert : e ∈ (m.insert k b).entries ↔ e = (k, b) ∨ e ∈ m.entries ∧ e.1 ≠ k :=
  mem_place m.sorted

/-- A key has one entry. -/
theorem eq_of_mem {e' : κ × β} (he : e ∈ m.entries) (he' : e' ∈ m.entries) (h : e.1 = e'.1) : e = e' := by
  have hpair := m.sorted
  induction hentries : m.entries generalizing m with
  | nil => rw [hentries] at he; cases he
  | cons x es ih =>
    rw [hentries] at he he' hpair
    obtain ⟨hx, hes⟩ := List.pairwise_cons.mp hpair
    rcases List.mem_cons.mp he with heq | hmem <;> rcases List.mem_cons.mp he' with heq' | hmem'
    · rw [heq, heq']
    · exact absurd (heq ▸ hx e' hmem') (h ▸ lt_irrefl _)
    · exact absurd (heq' ▸ hx e hmem) (h ▸ lt_irrefl _)
    · exact ih (m := ⟨es, hes⟩) hmem hmem' hes rfl

theorem get_eq_some : m.get k = some b ↔ (k, b) ∈ m.entries := by
  unfold get
  rw [Option.map_eq_some_iff]
  constructor
  · rintro ⟨e, he, rfl⟩
    have hk : e.1 = k := by simpa using List.find?_some he
    exact hk ▸ List.mem_of_find?_eq_some he
  · intro hmem
    have hsome : (m.entries.find? (·.1 = k)).isSome := List.find?_isSome.mpr ⟨(k, b), hmem, decide_eq_true rfl⟩
    obtain ⟨e, he⟩ := Option.isSome_iff_exists.mp hsome
    have hk : e.1 = k := by simpa using List.find?_some he
    exact ⟨e, he, congrArg Prod.snd (eq_of_mem (List.mem_of_find?_eq_some he) hmem hk)⟩

theorem get_eq_none : m.get k = none ↔ ∀ e ∈ m.entries, e.1 ≠ k := by
  simp [get]

/-- The first entry from a key on is the least of those that are not below it. -/
theorem firstFrom_eq_some (h : m.firstFrom k = some e) :
    e ∈ m.entries ∧ k ≤ e.1 ∧ ∀ e' ∈ m.entries, k ≤ e'.1 → e.1 ≤ e'.1 := by
  refine ⟨List.mem_of_find?_eq_some h, by simpa using List.find?_some h, ?_⟩
  obtain ⟨-, before, after, hentries, hbefore⟩ := List.find?_eq_some_iff_append.mp h
  have hpair := m.sorted
  rw [hentries] at hpair ⊢
  intro e' he' hle
  rcases List.mem_append.mp he' with hmem | hmem
  · exact absurd hle (by simpa using hbefore e' hmem)
  rcases List.mem_cons.mp hmem with rfl | hmem
  · exact le_rfl
  · exact ((List.pairwise_cons.mp (List.pairwise_append.mp hpair).2.1).1 e' hmem).le

theorem firstFrom_eq_none : m.firstFrom k = none ↔ ∀ e ∈ m.entries, e.1 < k := by
  simp [firstFrom]

section Prefix
variable {α : Type} [LinearOrder α] {p x s : List α}

/-- Between a list and one that begins with it, every list begins with it. -/
theorem prefix_of_le_of_le (hlow : p ≤ x) (hhigh : x ≤ p ++ s) : p <+: x := by
  induction p generalizing x with
  | nil => exact List.nil_prefix
  | cons a p ih =>
    rcases x with _ | ⟨b, x⟩
    · exact absurd hlow (not_le.mpr (List.nil_lt_cons a p))
    · rw [← not_lt, List.cons_lt_cons_iff, not_or, not_and] at hlow
      rw [List.cons_append, ← not_lt, List.cons_lt_cons_iff, not_or, not_and] at hhigh
      obtain rfl : a = b := le_antisymm (not_lt.mp hlow.1) (not_lt.mp hhigh.1)
      exact List.cons_prefix_cons.mpr ⟨rfl, ih (not_lt.mp (hlow.2 rfl)) (not_lt.mp (hhigh.2 rfl))⟩

theorem le_append (p s : List α) : p ≤ p ++ s := by
  induction p with
  | nil => exact not_lt.mp (List.not_lt_nil s)
  | cons a p ih =>
    rw [List.cons_append, ← not_lt, List.cons_lt_cons_iff, not_or, not_and]
    exact ⟨lt_irrefl a, fun _ => not_lt.mpr ih⟩

/-- Whether a key begins with `p` is seen at the first entry from `p` on. -/
theorem exists_prefix_iff {m : SortedMap (List α) β} :
    (∃ e ∈ m.entries, p <+: e.1) ↔ ∃ e, m.firstFrom p = some e ∧ p <+: e.1 := by
  constructor
  · rintro ⟨e, hmem, s, hs⟩
    have hle : p ≤ e.1 := hs ▸ le_append p s
    rcases hfirst : m.firstFrom p with _ | first
    · exact absurd (firstFrom_eq_none.mp hfirst e hmem) (not_lt.mpr hle)
    · obtain ⟨-, hlow, hleast⟩ := firstFrom_eq_some hfirst
      exact ⟨first, rfl, prefix_of_le_of_le hlow (hs ▸ hleast e hmem hle)⟩
  · rintro ⟨e, hfirst, hprefix⟩
    exact ⟨e, (firstFrom_eq_some hfirst).1, hprefix⟩

end Prefix

end SortedMap
