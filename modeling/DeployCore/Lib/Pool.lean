import Mathlib

/-! # Agents that share a state

A pool is a shared state and the agents that act on it. In a step of the pool a new agent joins it, or one of its
agents makes a move that reads and writes the shared state and its own. `Passes` is every order of such steps,
with the states the pool has passed through. -/

namespace Pool

/-- A shared state and its agents, each known by its place. -/
structure State (σ α : Type) where
  shared : σ
  agents : List α

/-- How agents enter and act: what an agent begins as, and what a move leaves of the shared state and of the
agent, where it can be made. -/
structure System (ι μ σ α : Type) where
  joins : ι → α
  act : μ → σ → α → Option (σ × α)

inductive Event (ι μ : Type)
  | joins (x : ι)
  | acts (i : Nat) (m : μ)

variable {ι μ σ α : Type}

/-- The pool after a new agent has joined it. -/
def State.join (p : State σ α) (a : α) : State σ α := ⟨p.shared, p.agents ++ [a]⟩

/-- The pool after an agent has left the shared state and its own as given. -/
def State.moved (p : State σ α) (i : Nat) (s : σ) (a : α) : State σ α := ⟨s, p.agents.set i a⟩

def System.step (sys : System ι μ σ α) (p : State σ α) : Event ι μ → Option (State σ α)
  | .joins x => some (p.join (sys.joins x))
  | .acts i m => do
    let a ← p.agents[i]?
    let (s, a') ← sys.act m p.shared a
    some (p.moved i s a')

variable {sys : System ι μ σ α} {p p' start : State σ α} {visited : List (State σ α)}

theorem System.step_cases {e : Event ι μ} (h : sys.step p e = some p') :
    (∃ x, e = .joins x ∧ p' = p.join (sys.joins x)) ∨
    ∃ i m a s a', e = .acts i m ∧ p.agents[i]? = some a ∧ sys.act m p.shared a = some (s, a') ∧
      p' = p.moved i s a' := by
  cases e with
  | joins x => exact .inl ⟨x, rfl, (Option.some.inj h).symm⟩
  | acts i m =>
    obtain ⟨a, ha, h⟩ := Option.bind_eq_some_iff.mp h
    obtain ⟨⟨s, a'⟩, hact, h⟩ := Option.bind_eq_some_iff.mp h
    exact .inr ⟨i, m, a, s, a', rfl, ha, hact, (Option.some.inj h).symm⟩

/-- A pool that one order of steps leads to, with the states passed, the latest first. -/
inductive Passes (sys : System ι μ σ α) (start : State σ α) : List (State σ α) → State σ α → Prop
  | start : Passes sys start [start] start
  | step {visited : List (State σ α)} {p p' : State σ α} (h : Passes sys start visited p) (e : Event ι μ)
      (hs : sys.step p e = some p') :
    Passes sys start (p' :: visited) p'

/-- The states a list of events passes through, the latest first. -/
def System.run (sys : System ι μ σ α) (start : State σ α) : List (Event ι μ) → Option (List (State σ α) × State σ α)
  | [] => some ([start], start)
  | e :: events => do
    let (visited, p) ← sys.run start events
    let p' ← sys.step p e
    some (p' :: visited, p')

/-- A run of listed events, the latest first, is one order of steps. -/
theorem Passes.of_run {events : List (Event ι μ)} (h : sys.run start events = some (visited, p)) :
    Passes sys start visited p := by
  induction events generalizing visited p with
  | nil =>
    obtain ⟨rfl, rfl⟩ := Prod.mk.inj (Option.some.inj h)
    exact .start
  | cons e events ih =>
    obtain ⟨⟨visited', q⟩, hrun, h⟩ := Option.bind_eq_some_iff.mp h
    obtain ⟨q', hstep, h⟩ := Option.bind_eq_some_iff.mp h
    obtain ⟨rfl, rfl⟩ := Prod.mk.inj (Option.some.inj h)
    exact (ih hrun).step e hstep

theorem Passes.mem (h : Passes sys start visited p) : p ∈ visited := by
  cases h <;> exact List.mem_cons_self ..

/-- What the start has and every step keeps, every state passed has. -/
theorem Passes.invariant {P : State σ α → Prop} (h : Passes sys start visited p) (hstart : P start)
    (hstep : ∀ q q' e, P q → sys.step q e = some q' → P q') : ∀ q ∈ visited, P q := by
  induction h with
  | start => exact fun q hq => List.mem_singleton.mp hq ▸ hstart
  | step h e hs ih =>
    intro q hq
    rcases List.mem_cons.mp hq with rfl | hq
    · exact hstep _ _ e (ih _ h.mem) hs
    · exact ih q hq

section Only
variable {ok : μ → σ → α → Prop} [∀ m s a, Decidable (ok m s a)]

/-- The agents that make only such moves as are allowed where they are made. -/
def System.only (sys : System ι μ σ α) (ok : μ → σ → α → Prop) [∀ m s a, Decidable (ok m s a)] : System ι μ σ α :=
  { sys with act := fun m s a => if ok m s a then sys.act m s a else none }

theorem System.act_only {m : μ} {s : σ} {a : α} {r : σ × α} (h : (sys.only ok).act m s a = some r) :
    ok m s a ∧ sys.act m s a = some r := by
  by_cases hok : ok m s a
  · exact ⟨hok, (if_pos hok).symm.trans h⟩
  · exact absurd ((if_neg hok).symm.trans h) (by simp)

end Only

section Agents
variable {i j : Nat} {s : σ} {a a' b : α}

theorem State.agents_join (h : (p.join a).agents[j]? = some b) : p.agents[j]? = some b ∨ j = p.agents.length ∧ b = a := by
  simp only [State.join, List.getElem?_append] at h
  split at h
  · exact .inl h
  next hj =>
    have hzero : j - p.agents.length = 0 := by
      by_contra hne
      rw [List.getElem?_singleton, if_neg hne] at h
      cases h
    refine .inr ⟨by omega, ?_⟩
    rw [hzero] at h
    exact (Option.some.inj h).symm

theorem State.agents_moved (h : (p.moved i s a').agents[j]? = some b) :
    j = i ∧ b = a' ∨ j ≠ i ∧ p.agents[j]? = some b := by
  by_cases hij : i = j
  · subst hij
    have hlt : i < (p.agents.set i a').length := (List.getElem?_eq_some_iff.mp h).1
    rw [List.length_set] at hlt
    rw [State.moved, List.getElem?_set_self hlt] at h
    exact .inl ⟨rfl, (Option.some.inj h).symm⟩
  · rw [State.moved, List.getElem?_set_ne hij] at h
    exact .inr ⟨Ne.symm hij, h⟩

theorem State.mem_join : b ∈ (p.join a).agents ↔ b ∈ p.agents ∨ b = a := by
  rw [State.join, List.mem_append, List.mem_singleton]

theorem State.mem_moved (h : b ∈ (p.moved i s a').agents) : b ∈ p.agents ∨ b = a' := List.mem_or_eq_of_mem_set h

theorem State.moved_mem (ha : p.agents[i]? = some a) : a' ∈ (p.moved i s a').agents :=
  List.mem_set (List.getElem?_eq_some_iff.mp ha).1 _

/-- Only the agent that moves is lost to a move. -/
theorem State.mem_moved_of_mem (ha : p.agents[i]? = some a) (hb : b ∈ p.agents) :
    b = a ∨ b ∈ (p.moved i s a').agents := by
  obtain ⟨j, hj⟩ := List.mem_iff_getElem?.mp hb
  by_cases hij : i = j
  · subst hij
    exact .inl (Option.some.inj (hj.symm.trans ha))
  · exact .inr (List.mem_iff_getElem?.mpr ⟨j, (List.getElem?_set_ne hij).trans hj⟩)

/-- A pool whose shared state, agents and pairs of agents all have what is asked of them. -/
structure State.Holds (J : σ → Prop) (L : σ → α → Prop) (R : α → α → Prop) (p : State σ α) : Prop where
  shared : J p.shared
  agent : ∀ {i : Nat} {a : α}, p.agents[i]? = some a → L p.shared a
  pair : ∀ {i j : Nat} {a b : α}, i ≠ j → p.agents[i]? = some a → p.agents[j]? = some b → R a b

variable {J : σ → Prop} {L : σ → α → Prop} {R : α → α → Prop}

theorem State.Holds.join (h : p.Holds J L R) (hL : L p.shared a) (hR : ∀ b, L p.shared b → R a b ∧ R b a) :
    (p.join a).Holds J L R := by
  refine ⟨h.shared, fun hb => ?_, fun hij hb hc => ?_⟩
  · rcases State.agents_join hb with hb | ⟨-, rfl⟩
    · exact h.agent hb
    · exact hL
  · rcases State.agents_join hb with hb' | ⟨hi, rfl⟩ <;> rcases State.agents_join hc with hc' | ⟨hj, rfl⟩
    · exact h.pair hij hb' hc'
    · exact (hR _ (h.agent hb')).2
    · exact (hR _ (h.agent hc')).1
    · exact absurd (hi.trans hj.symm) hij

/-- A move that keeps the shared state, its agent and, for every other agent, what is asked of that agent and of
the pair keeps the pool. -/
theorem State.Holds.moved (h : p.Holds J L R) (ha : p.agents[i]? = some a) (hJ : J s) (hL : L s a')
    (hothers : ∀ b, L p.shared b → R a b → R b a → L s b ∧ R a' b ∧ R b a') : (p.moved i s a').Holds J L R := by
  have hother {j b} (hij : j ≠ i) (hb : p.agents[j]? = some b) : L s b ∧ R a' b ∧ R b a' :=
    hothers b (h.agent hb) (h.pair hij.symm ha hb) (h.pair hij hb ha)
  refine ⟨hJ, fun hb => ?_, fun hij hb hc => ?_⟩
  · rcases State.agents_moved hb with ⟨-, rfl⟩ | ⟨hi, hb⟩
    · exact hL
    · exact (hother hi hb).1
  · rcases State.agents_moved hb with ⟨hi, rfl⟩ | ⟨hi, hb'⟩ <;> rcases State.agents_moved hc with ⟨hj, rfl⟩ | ⟨hj, hc'⟩
    · exact absurd (hi.trans hj.symm) hij
    · exact (hother hj hc').2.1
    · exact (hother hi hb').2.2
    · exact h.pair hij hb' hc'

/-- Agents that do not interfere: what holds at the start, and is kept by every agent that joins and by every move
for the agent that makes it and for all the others, holds of every state passed. -/
theorem Passes.holds (h : Passes sys start visited p) (hstart : start.Holds J L R)
    (hjoins : ∀ s x, J s → L s (sys.joins x) ∧ ∀ b, L s b → R (sys.joins x) b ∧ R b (sys.joins x))
    (hacts : ∀ m s a s' a', J s → L s a → sys.act m s a = some (s', a') →
      J s' ∧ L s' a' ∧ ∀ b, L s b → R a b → R b a → L s' b ∧ R a' b ∧ R b a') :
    ∀ q ∈ visited, q.Holds J L R := by
  refine h.invariant hstart fun q q' e hq hs => ?_
  rcases System.step_cases hs with ⟨x, -, rfl⟩ | ⟨i, m, a, s, a', -, ha, hact, rfl⟩
  · obtain ⟨hL, hR⟩ := hjoins q.shared x hq.shared
    exact hq.join hL hR
  · obtain ⟨hJ, hL, hothers⟩ := hacts m q.shared a s a' hq.shared (hq.agent ha) hact
    exact hq.moved ha hJ hL hothers

end Agents

/-- What the agents hold together, each as much as its weight. -/
def State.total (weight : α → Nat) (p : State σ α) : Nat := (p.agents.map weight).sum

section Total
variable {weight : α → Nat} {i : Nat} {s : σ} {a a' : α}

@[simp] theorem State.total_join : (p.join a).total weight = p.total weight + weight a := by
  simp [State.total, State.join]

theorem State.le_total (h : p.agents[i]? = some a) : weight a ≤ p.total weight :=
  List.single_le_sum (fun _ _ => Nat.zero_le _) _ (List.mem_map_of_mem (List.mem_of_getElem? h))

/-- A move changes the total by what it changes of its agent. -/
theorem State.total_moved (h : p.agents[i]? = some a) :
    (p.moved i s a').total weight + weight a = p.total weight + weight a' := by
  have hsum (l : List α) (i : Nat) (h : l[i]? = some a) :
      ((l.set i a').map weight).sum + weight a = (l.map weight).sum + weight a' := by
    induction l generalizing i with
    | nil => cases h
    | cons b l ih =>
      cases i with
      | zero =>
        obtain rfl := Option.some.inj h
        simp only [List.set_cons_zero, List.map_cons, List.sum_cons]
        omega
      | succ i =>
        have := ih i h
        simp only [List.set_cons_succ, List.map_cons, List.sum_cons]
        omega
  exact hsum p.agents i h

end Total

end Pool
