import Mathlib

/-! # Programs that keep a state and may stop at a fault

Rules for `EStateM`: how a run of a sequence splits, and when two runs of one program agree although their states
differ. -/

namespace Fallible
variable {ε σ τ α β : Type}

open EStateM (Result)

section Runs
variable {x : EStateM ε σ α} {f : α → EStateM ε σ β} {s s' s'' : σ} {a : α} {b : β} {e : ε}

theorem bind_of_ok (h : x s = .ok a s') : (x >>= f) s = f a s' := by
  show EStateM.bind x f s = _
  rw [EStateM.bind, h]

theorem bind_of_error (h : x s = .error e s') : (x >>= f) s = .error e s' := by
  show EStateM.bind x f s = _
  rw [EStateM.bind, h]

theorem bind_ok (h : (x >>= f) s = .ok b s'') : ∃ a s', x s = .ok a s' ∧ f a s' = .ok b s'' := by
  rcases hx : x s with ⟨a, s'⟩ | ⟨e, s'⟩
  · exact ⟨a, s', rfl, (bind_of_ok hx).symm.trans h⟩
  · rw [bind_of_error hx] at h
    cases h

theorem bind_error (h : (x >>= f) s = .error e s'') :
    x s = .error e s'' ∨ ∃ a s', x s = .ok a s' ∧ f a s' = .error e s'' := by
  rcases hx : x s with ⟨a, s'⟩ | ⟨e', s'⟩
  · exact .inr ⟨a, s', rfl, (bind_of_ok hx).symm.trans h⟩
  · rw [bind_of_error hx] at h
    cases h
    exact .inl rfl

end Runs

/-- What a run comes to, its state left aside. -/
def outcome : Result ε σ α → Except ε α
  | .ok a _ => .ok a
  | .error e _ => .error e

/-- A verdict on no state. -/
def lift (x : Except ε α) : EStateM ε σ α :=
  fun s =>
    match x with
    | .ok a => .ok a s
    | .error e => .error e s

theorem lift_ok {x : Except ε α} {s s' : σ} {a : α} (h : lift x s = .ok a s') : x = .ok a ∧ s' = s := by
  rcases x with e | a'
  · cases h
  · cases h
    exact ⟨rfl, rfl⟩

theorem lift_error {x : Except ε α} {s s' : σ} {e : ε} (h : lift x s = .error e s') : x = .error e ∧ s' = s := by
  rcases x with e | a'
  · cases h
    exact ⟨rfl, rfl⟩
  · cases h

/-- A sequence that begins with a verdict goes on if the verdict is favourable. -/
theorem lift_bind_ok {x : Except ε α} {f : α → EStateM ε σ β} {s s' : σ} {b : β} (h : (lift x >>= f) s = .ok b s') :
    ∃ a, x = .ok a ∧ f a s = .ok b s' := by
  rcases x with e | a
  · cases h
  · exact ⟨a, rfl, h⟩

theorem lift_bind_error {x : Except ε α} {f : α → EStateM ε σ β} {s s' : σ} {e : ε} (h : (lift x >>= f) s = .error e s') :
    (x = .error e ∧ s' = s) ∨ ∃ a, x = .ok a ∧ f a s = .error e s' := by
  rcases x with e' | a
  · cases h
    exact .inl ⟨rfl, rfl⟩
  · exact .inr ⟨a, rfl, h⟩

/-- Two outcomes that are the same in related states: `R` where both go on, `E` where both stop. -/
inductive Agree (R : α → σ → τ → Prop) (E : σ → τ → Prop) : Result ε σ α → Result ε τ α → Prop
  | ok {a s t} (h : R a s t) : Agree R E (.ok a s) (.ok a t)
  | error {e s t} (h : E s t) : Agree R E (.error e s) (.error e t)

namespace Agree
variable {R : α → σ → τ → Prop} {R' : β → σ → τ → Prop} {E : σ → τ → Prop} {s : σ} {t : τ}

theorem pure {a : α} (h : R a s t) :
    Agree R E ((Pure.pure a : EStateM ε σ α) s) ((Pure.pure a : EStateM ε τ α) t) :=
  .ok h

theorem throw {e : ε} (h : E s t) :
    Agree R E ((MonadExcept.throw e : EStateM ε σ α) s) ((MonadExcept.throw e : EStateM ε τ α) t) :=
  .error h

theorem lift {x : Except ε α} (hok : ∀ a, R a s t) (herror : E s t) :
    Agree R E (Fallible.lift x s) (Fallible.lift x t) := by
  rcases x with e | a
  · exact .error herror
  · exact .ok (hok a)

theorem cases {x : Result ε σ α} {y : Result ε τ α} (h : Agree R E x y) :
    (∃ a s t, x = .ok a s ∧ y = .ok a t ∧ R a s t) ∨ ∃ e s t, x = .error e s ∧ y = .error e t ∧ E s t := by
  rcases h with h | h
  · exact .inl ⟨_, _, _, rfl, rfl, h⟩
  · exact .inr ⟨_, _, _, rfl, rfl, h⟩

/-- Sequences agree when their parts do. -/
theorem bind {x : EStateM ε σ α} {y : EStateM ε τ α} {f : α → EStateM ε σ β} {g : α → EStateM ε τ β}
    (h : Agree R E (x s) (y t)) (hnext : ∀ a s t, R a s t → Agree R' E (f a s) (g a t)) :
    Agree R' E ((x >>= f) s) ((y >>= g) t) := by
  rcases h.cases with ⟨a, s', t', hx, hy, hrel⟩ | ⟨e, s', t', hx, hy, hrel⟩
  · rw [bind_of_ok hx, bind_of_ok hy]
    exact hnext a s' t' hrel
  · rw [bind_of_error hx, bind_of_error hy]
    exact .error hrel

end Agree

end Fallible
