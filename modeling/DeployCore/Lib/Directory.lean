import Mathlib

/-! # Named entries

A directory is a list of entries under names, looked up by the first that matches. -/

namespace Directory
variable {κ ν : Type} [DecidableEq κ]

/-- The entry under a name. -/
def find (dir : List (κ × ν)) (name : κ) : Option ν := dir.lookup name

/-- A directory without its entries under a name. -/
def erase (dir : List (κ × ν)) (name : κ) : List (κ × ν) := dir.filter (·.1 ≠ name)

/-- A directory with the entry under a name set. -/
def put (dir : List (κ × ν)) (name : κ) (node : ν) : List (κ × ν) := erase dir name ++ [(name, node)]

/-- The names of a directory, in its order. -/
def names (dir : List (κ × ν)) : List κ := dir.map Prod.fst

variable {dir : List (κ × ν)} {name name' : κ} {node : ν}

@[simp] theorem find_nil : find ([] : List (κ × ν)) name = none := rfl

theorem find_cons {entry : κ × ν} :
    find (entry :: dir) name = if name = entry.1 then some entry.2 else find dir name := by
  obtain ⟨key, node⟩ := entry
  by_cases h : name = key
  · simp [find, h]
  · have hne : (name == key) = false := beq_false_of_ne h
    simp [find, List.lookup_cons, hne, h]

theorem find_append {dir' : List (κ × ν)} : find (dir ++ dir') name = (find dir name).or (find dir' name) :=
  List.lookup_append

theorem mem_names : name ∈ names dir ↔ find dir name ≠ none := by
  induction dir with
  | nil => simp [names]
  | cons entry dir ih =>
    rw [find_cons]
    by_cases h : name = entry.1
    · simp [names, h]
    · rw [if_neg h, ← ih]
      simp [names, h]

@[simp] theorem find_erase_self : find (erase dir name) name = none := by
  by_contra h
  obtain ⟨entry, he, rfl⟩ := List.mem_map.mp (mem_names.mpr h)
  simp [erase] at he

theorem find_erase_ne (h : name' ≠ name) : find (erase dir name) name' = find dir name' := by
  induction dir with
  | nil => rfl
  | cons entry dir ih =>
    by_cases he : entry.1 = name
    · rw [erase, List.filter_cons_of_neg (by simp [he]), find_cons, if_neg (by rwa [he])]
      exact ih
    · rw [erase, List.filter_cons_of_pos (by simp [he]), find_cons, find_cons]
      exact congrArg (fun rest => if name' = entry.1 then some entry.2 else rest) ih

theorem erase_of_find_none (h : find dir name = none) : erase dir name = dir := by
  refine List.filter_eq_self.mpr fun entry he => ?_
  have hmem : entry.1 ∈ names dir := List.mem_map_of_mem he
  have hne : entry.1 ≠ name := fun heq => mem_names.mp hmem (heq ▸ h)
  simpa using hne

@[simp] theorem find_put_self : find (put dir name node) name = some node := by
  rw [put, find_append, find_erase_self, find_cons, if_pos rfl]
  rfl

theorem find_put_ne (h : name' ≠ name) : find (put dir name node) name' = find dir name' := by
  rw [put, find_append, find_erase_ne h, find_cons, if_neg h, find_nil, Option.or_none]

/-- A new name goes to the end. -/
theorem put_of_find_none (h : find dir name = none) : put dir name node = dir ++ [(name, node)] := by
  rw [put, erase_of_find_none h]

/-- Setting the last entry again replaces it. -/
theorem put_append_self {node' : ν} (h : find dir name = none) :
    put (dir ++ [(name, node)]) name node' = dir ++ [(name, node')] := by
  rw [put, erase, List.filter_append, ← erase, erase_of_find_none h]
  simp

end Directory
