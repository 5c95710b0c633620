import Mathlib

/-! # Runs of checks that stop at the first refusal

The loops of a validator: one check after another, over one list, with a set of the keys seen so far where
entries must be distinct. Each loop is characterised by what an accepted list satisfies. -/

namespace Checks
variable {ε α β κ : Type}

theorem bind_ok {x : Except ε α} {f : α → Except ε β} {b : β} (h : x.bind f = .ok b) :
    ∃ a, x = .ok a ∧ f a = .ok b := by
  cases x with
  | error e => cases h
  | ok a => exact ⟨a, rfl, h⟩

theorem bind_error {x : Except ε α} {f : α → Except ε β} {e : ε} (h : x.bind f = .error e) :
    x = .error e ∨ ∃ a, x = .ok a ∧ f a = .error e := by
  rcases x with e' | a
  · exact .inl (congrArg Except.error (Except.error.inj h))
  · exact .inr ⟨a, rfl, h⟩

theorem ok_bind {a : α} {f : α → Except ε β} : (Except.ok a >>= f) = f a := rfl

theorem mapError_ok {ε' : Type} {x : Except ε α} {f : ε → ε'} {a : α} :
    x.mapError f = .ok a ↔ x = .ok a := by
  cases x with
  | error e => simp [Except.mapError]
  | ok a => simp [Except.mapError]

theorem map_ok {x : Except ε α} {f : α → β} {b : β} (h : x.map f = .ok b) : ∃ a, x = .ok a ∧ f a = b := by
  rcases x with e | a
  · cases h
  · exact ⟨a, rfl, Except.ok.inj h⟩

/-- Every refusal of a check satisfies `P`. -/
def Refuses (P : ε → Prop) (x : Except ε α) : Prop :=
  ∀ e, x = .error e → P e

namespace Refuses
variable {P : ε → Prop} {x : Except ε α} {e : ε}

theorem ok (a : α) : Refuses P (.ok a) := nofun

theorem error (h : P e) : Refuses P (.error e : Except ε α) := by
  rintro _ ⟨⟩
  exact h

theorem bind {f : α → Except ε β} (h : Refuses P x) (hf : ∀ a, Refuses P (f a)) : Refuses P (x.bind f) := by
  rcases x with e | a
  · exact error (h e rfl)
  · exact hf a

/-- The rest is held to what the first has let pass. -/
theorem bind_of {f : α → Except ε β} (h : Refuses P x) (hf : ∀ a, x = .ok a → Refuses P (f a)) :
    Refuses P (x.bind f) := by
  rcases x with e | a
  · exact error (h e rfl)
  · exact hf a rfl

theorem map {f : α → β} (h : Refuses P x) : Refuses P (x.map f) := by
  rcases x with e | a
  · exact error (h e rfl)
  · exact ok _

theorem ite_of {p : Prop} [Decidable p] {y : Except ε α} (hx : p → Refuses P x) (hy : ¬p → Refuses P y) :
    Refuses P (if p then x else y) := by
  split
  · next hp => exact hx hp
  · next hp => exact hy hp

theorem ite {p : Prop} [Decidable p] {y : Except ε α} (hx : Refuses P x) (hy : Refuses P y) :
    Refuses P (if p then x else y) :=
  ite_of (fun _ => hx) fun _ => hy

end Refuses

/-- Runs a check over every entry. -/
def each (check : α → Except ε Unit) : List α → Except ε Unit
  | [] => .ok ()
  | x :: xs => do
    check x
    each check xs

theorem each_ok_iff {check : α → Except ε Unit} {xs : List α} :
    each check xs = .ok () ↔ ∀ x ∈ xs, check x = .ok () := by
  induction xs with
  | nil => simp [each]
  | cons x xs ih =>
    rw [List.forall_mem_cons, ← ih, each]
    cases hx : check x with
    | error e => simp [bind, Except.bind]
    | ok => simp [bind, Except.bind]

theorem refuses_each {P : ε → Prop} {check : α → Except ε Unit} {xs : List α} (h : ∀ x ∈ xs, Refuses P (check x)) :
    Refuses P (each check xs) := by
  induction xs with
  | nil => exact .ok ()
  | cons x xs ih =>
    obtain ⟨hx, hxs⟩ := List.forall_mem_cons.mp h
    exact .bind hx fun _ => ih hxs

/-- A check that refuses an entry on a condition passes the lists on which it never holds. -/
theorem each_unless_ok {p : α → Prop} [DecidablePred p] {e : α → ε} {xs : List α}
    (h : each (fun x => if p x then .error (e x) else .ok ()) xs = .ok ()) : ∀ x ∈ xs, ¬p x := by
  intro x hx
  have hcheck := each_ok_iff.mp h x hx
  split at hcheck
  · cases hcheck
  · next hp => exact hp

theorem each_if_ok {p : α → Prop} [DecidablePred p] {e : α → ε} {xs : List α}
    (h : each (fun x => if p x then .ok () else .error (e x)) xs = .ok ()) : ∀ x ∈ xs, p x := by
  intro x hx
  have hcheck := each_ok_iff.mp h x hx
  split at hcheck
  · next hp => exact hp
  · cases hcheck

/-- A list that is read as a whole is read entry by entry. -/
theorem exists_of_mapM {f : α → Option β} {xs : List α} {ys : List β} (h : xs.mapM f = some ys) :
    ∀ x ∈ xs, ∃ y, f x = some y := by
  induction xs generalizing ys with
  | nil => exact fun x hx => absurd hx List.not_mem_nil
  | cons x xs ih =>
    simp only [List.mapM_cons, Option.bind_eq_bind, Option.bind_eq_some_iff] at h
    obtain ⟨y, hy, ys, hys, -⟩ := h
    exact List.forall_mem_cons.mpr ⟨⟨y, hy⟩, ih hys⟩

theorem exists_rel_of_mem {R : α → β → Prop} {as : List α} {bs : List β} {b : β} (h : List.Forall₂ R as bs) (hb : b ∈ bs) :
    ∃ a ∈ as, R a b := by
  induction h with
  | nil => cases hb
  | cons hab _ ih =>
    rcases List.mem_cons.mp hb with rfl | hb
    · exact ⟨_, .head _, hab⟩
    · obtain ⟨a, ha, hrel⟩ := ih hb
      exact ⟨a, .tail _ ha, hrel⟩

/-- Reads every entry into a result. -/
def collect (read : α → Except ε β) : List α → Except ε (List β)
  | [] => .ok []
  | x :: xs => do
    let y ← read x
    let ys ← collect read xs
    .ok (y :: ys)

theorem collect_ok {read : α → Except ε β} {xs : List α} {ys : List β} (h : collect read xs = .ok ys) :
    List.Forall₂ (fun x y => read x = .ok y) xs ys := by
  induction xs generalizing ys with
  | nil =>
    cases h
    exact .nil
  | cons x xs ih =>
    obtain ⟨y, hy, h⟩ := bind_ok h
    obtain ⟨ys, hys, h⟩ := bind_ok h
    cases h
    exact .cons hy (ih hys)

/-- Reads every entry into a result, refusing an entry whose key was seen before; `before` runs ahead of that
test and `after` behind it. -/
def collectDistinct [DecidableEq κ] (key : α → κ) (before : α → Except ε Unit) (repeated : α → ε)
    (after : α → Except ε β) : List κ → List α → Except ε (List β)
  | _, [] => .ok []
  | seen, x :: xs => do
    before x
    if key x ∈ seen then .error (repeated x)
    else do
      let y ← after x
      let ys ← collectDistinct key before repeated after (key x :: seen) xs
      .ok (y :: ys)

section CollectDistinct
variable [DecidableEq κ] {key : α → κ} {before : α → Except ε Unit} {repeated : α → ε} {after : α → Except ε β}

theorem collectDistinct_ok {seen : List κ} {xs : List α} {ys : List β}
    (h : collectDistinct key before repeated after seen xs = .ok ys) :
    (∀ x ∈ xs, before x = .ok ()) ∧ (∀ x ∈ xs, key x ∉ seen) ∧ (xs.map key).Nodup ∧
      List.Forall₂ (fun x y => after x = .ok y) xs ys := by
  induction xs generalizing seen ys with
  | nil =>
    cases h
    simp
  | cons x xs ih =>
    obtain ⟨_, hbefore, h⟩ := bind_ok h
    split at h
    · cases h
    next hseen =>
    obtain ⟨y, hafter, h⟩ := bind_ok h
    obtain ⟨ys', hrest, h⟩ := bind_ok h
    cases h
    obtain ⟨hbefores, hkeys, hnodup, hafters⟩ := ih hrest
    refine ⟨List.forall_mem_cons.mpr ⟨hbefore, hbefores⟩,
      List.forall_mem_cons.mpr ⟨hseen, fun x hx => mt (List.mem_cons_of_mem _) (hkeys x hx)⟩, ?_,
      .cons hafter hafters⟩
    refine List.nodup_cons.mpr ⟨fun hmem => ?_, hnodup⟩
    obtain ⟨x', hx', heq⟩ := List.mem_map.mp hmem
    exact hkeys x' hx' (heq ▸ List.mem_cons_self)

/-- A list of good entries under distinct keys is collected. -/
theorem collectDistinct_eq_ok {seen : List κ} {xs : List α} {ys : List β} (hbefore : ∀ x ∈ xs, before x = .ok ())
    (hkeys : ∀ x ∈ xs, key x ∉ seen) (hnodup : (xs.map key).Nodup)
    (hafter : List.Forall₂ (fun x y => after x = .ok y) xs ys) :
    collectDistinct key before repeated after seen xs = .ok ys := by
  induction hafter generalizing seen with
  | nil => rfl
  | @cons x y xs ys hy _ ih =>
    obtain ⟨hb, hbs⟩ := List.forall_mem_cons.mp hbefore
    obtain ⟨hk, hks⟩ := List.forall_mem_cons.mp hkeys
    obtain ⟨hx, hnodup⟩ := List.nodup_cons.mp hnodup
    rw [collectDistinct, hb]
    simp only [bind, Except.bind, if_neg hk, hy]
    rw [ih hbs (fun x' hx' hmem => ?_) hnodup]
    rcases List.mem_cons.mp hmem with heq | hmem
    · exact hx (heq ▸ List.mem_map_of_mem hx')
    · exact hks x' hx' hmem

end CollectDistinct

/-- Refuses the first entry that repeats a key. -/
def distinct [DecidableEq κ] (key : α → κ) (repeated : α → ε) (xs : List α) : Except ε Unit :=
  (collectDistinct key (fun _ => .ok ()) repeated (fun _ => .ok ()) [] xs).map fun _ => ()

theorem distinct_ok_iff [DecidableEq κ] {key : α → κ} {repeated : α → ε} {xs : List α} :
    distinct key repeated xs = .ok () ↔ (xs.map key).Nodup := by
  constructor
  · intro h
    unfold distinct at h
    cases hc : collectDistinct key (fun _ => .ok ()) repeated (fun _ => .ok ()) [] xs with
    | error e => rw [hc] at h; cases h
    | ok ys => exact (collectDistinct_ok hc).2.2.1
  · intro h
    have hafter : List.Forall₂ (fun _ y => (.ok () : Except ε Unit) = .ok y) xs (xs.map fun _ => ()) := by
      induction xs with
      | nil => exact .nil
      | cons x xs ih => exact .cons rfl (ih (List.nodup_cons.mp h).2)
    rw [distinct, collectDistinct_eq_ok (fun _ _ => rfl) (fun _ _ => List.not_mem_nil) h hafter]
    rfl

end Checks
