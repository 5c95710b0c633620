import Mathlib

/-! # Programs that may fail or crash at any step

A program is a sequence of operations on a device, each chosen by the results of those before it. An operation
is carried out, or reports a fault, or is interrupted by a crash; a crash may also fall between two operations.
`Runs` is every way a program can go, with the record of its operations, and `wp` computes what must hold of a
state for all of them to keep a postcondition and, wherever the program stops, a crash condition. -/

namespace Crash

/-- A program over the operations `Op`, whose results are in `Res`. -/
inductive Prog (Op : Type) (Res : Op → Type) (ε α : Type)
  | ret (a : α)
  | fail (e : ε)
  | op (o : Op) (next : Res o → Prog Op Res ε α)

/-- How the operations act on a state: what one that is carried out returns and leaves, which results report
that it was not carried out, and what is left of the state in that case or after a crash. -/
structure Device (Op : Type) (Res : Op → Type) (σ : Type) where
  run : (o : Op) → σ → Res o × σ
  fault : (o : Op) → Res o → Prop
  torn : Op → σ → σ → Prop

/-- An operation a program began: the state it found and, unless a crash interrupted it, its result. -/
structure Event (Op : Type) (Res : Op → Type) (σ : Type) where
  op : Op
  before : σ
  result : Option (Res op)

/-- A state with the record of the operations that led to it. -/
structure World (Op : Type) (Res : Op → Type) (σ : Type) where
  state : σ
  events : List (Event Op Res σ)

inductive Outcome (ε α : Type)
  | ok (a : α)
  | error (e : ε)
  | crashed

variable {Op : Type} {Res : Op → Type} {σ ε α β : Type}

/-- The world after an operation. -/
def World.record (w : World Op Res σ) (o : Op) (result : Option (Res o)) (s : σ) : World Op Res σ :=
  ⟨s, w.events ++ [⟨o, w.state, result⟩]⟩

@[simp] theorem World.state_record {w : World Op Res σ} {o : Op} {r : Option (Res o)} {s : σ} :
    (w.record o r s).state = s := rfl

@[simp] theorem World.events_record {w : World Op Res σ} {o : Op} {r : Option (Res o)} {s : σ} :
    (w.record o r s).events = w.events ++ [⟨o, w.state, r⟩] := rfl

/-- A property of every event of a world is one of those recorded before and of the new one. -/
theorem World.forall_record {P : Event Op Res σ → Prop} {w : World Op Res σ} {o : Op} {r : Option (Res o)} {s : σ}
    (h : ∀ e ∈ w.events, P e) (ho : P ⟨o, w.state, r⟩) : ∀ e ∈ (w.record o r s).events, P e := by
  intro e he
  rw [events_record, List.mem_append, List.mem_singleton] at he
  rcases he with he | rfl
  · exact h e he
  · exact ho

/-- Since `w`, only operations of a kind were recorded, and the states are related. -/
structure World.Since (R : σ → σ → Prop) (kind : Op → Prop) (w w' : World Op Res σ) : Prop where
  state : R w.state w'.state
  events : ∃ events, w'.events = w.events ++ events ∧ ∀ e ∈ events, kind e.op

section Since
variable {R : σ → σ → Prop} {kind : Op → Prop} {w w' : World Op Res σ}

theorem World.Since.refl (h : R w.state w.state) : w.Since R kind w :=
  ⟨h, [], by simp, by simp⟩

theorem World.Since.record {o : Op} {r : Option (Res o)} {s : σ} (h : w.Since R kind w') (hs : R w.state s)
    (ho : kind o) : w.Since R kind (w'.record o r s) := by
  obtain ⟨events, hevents, hkind⟩ := h.events
  refine ⟨hs, events ++ [⟨o, w'.state, r⟩], by rw [events_record, hevents, List.append_assoc], fun e he => ?_⟩
  rcases List.mem_append.mp he with he | he
  · exact hkind e he
  · cases List.mem_singleton.mp he
    exact ho

/-- What holds of the events so far and of every event of the kind holds of the events since. -/
theorem World.Since.forall {P : Event Op Res σ → Prop} (h : w.Since R kind w') (hw : ∀ e ∈ w.events, P e)
    (hkind : ∀ e : Event Op Res σ, kind e.op → P e) : ∀ e ∈ w'.events, P e := by
  obtain ⟨events, hevents, hevents'⟩ := h.events
  intro e he
  rcases List.mem_append.mp (hevents ▸ he) with he | he
  · exact hw e he
  · exact hkind e (hevents' e he)

theorem World.Since.mem {e : Event Op Res σ} (h : w.Since R kind w') (he : e ∈ w.events) : e ∈ w'.events := by
  obtain ⟨events, hevents, -⟩ := h.events
  exact hevents ▸ List.mem_append_left _ he

end Since

namespace Prog

protected def bind : Prog Op Res ε α → (α → Prog Op Res ε β) → Prog Op Res ε β
  | .ret a, f => f a
  | .fail e, _ => .fail e
  | .op o next, f => .op o fun r => (next r).bind f

instance : Monad (Prog Op Res ε) where
  pure := .ret
  bind := .bind

/-- The program of one operation. -/
def perform (o : Op) : Prog Op Res ε (Res o) := .op o .ret

/-- Runs a program on every entry of a list. -/
def each (f : α → Prog Op Res ε Unit) : List α → Prog Op Res ε Unit
  | [] => pure ()
  | x :: xs => do
    f x
    each f xs

/-- Runs a program on every entry of a list and keeps what each returns. -/
def collect (f : α → Prog Op Res ε β) : List α → Prog Op Res ε (List β)
  | [] => pure []
  | x :: xs => do
    let y ← f x
    let ys ← collect f xs
    pure (y :: ys)

/-- A program uses only operations of a kind. -/
def Uses (allowed : Op → Prop) : Prog Op Res ε α → Prop
  | .ret _ => True
  | .fail _ => True
  | .op o next => allowed o ∧ ∀ r, (next r).Uses allowed

section Uses
variable {allowed : Op → Prop}

theorem Uses.bind {p : Prog Op Res ε α} {f : α → Prog Op Res ε β} (hp : p.Uses allowed)
    (hf : ∀ a, (f a).Uses allowed) : (p >>= f).Uses allowed := by
  induction p with
  | ret a => exact hf a
  | fail e => trivial
  | op o next ih => exact ⟨hp.1, fun r => ih r (hp.2 r)⟩

theorem Uses.ite {c : Prop} [Decidable c] {p q : Prog Op Res ε α} (hp : p.Uses allowed) (hq : q.Uses allowed) :
    (if c then p else q).Uses allowed := by
  split
  · exact hp
  · exact hq

theorem Uses.perform {o : Op} (h : allowed o) : (perform o : Prog Op Res ε (Res o)).Uses allowed :=
  ⟨h, fun _ => trivial⟩

theorem Uses.each {f : α → Prog Op Res ε Unit} {xs : List α} (h : ∀ x, (f x).Uses allowed) :
    (each f xs).Uses allowed := by
  induction xs with
  | nil => trivial
  | cons x xs ih => exact (h x).bind fun _ => ih

theorem Uses.collect {f : α → Prog Op Res ε β} {xs : List α} (h : ∀ x, (f x).Uses allowed) :
    (collect f xs).Uses allowed := by
  induction xs with
  | nil => trivial
  | cons x xs ih => exact (h x).bind fun _ => ih.bind fun _ => trivial

end Uses

end Prog

/-- What an operation that ends can return and leave. -/
def Device.Ends (dev : Device Op Res σ) (o : Op) (s : σ) (r : Res o) (s' : σ) : Prop :=
  (r, s') = dev.run o s ∨ (dev.fault o r ∧ dev.torn o s s')

/-- Every way a program can go. -/
inductive Runs (dev : Device Op Res σ) :
    Prog Op Res ε α → World Op Res σ → Outcome ε α → World Op Res σ → Prop
  | ret {a w} : Runs dev (.ret a) w (.ok a) w
  | fail {e w} : Runs dev (.fail e) w (.error e) w
  | crash {p w} : Runs dev p w .crashed w
  | torn {o next w s} (h : dev.torn o w.state s) : Runs dev (.op o next) w .crashed (w.record o none s)
  | op {o next w r s out w'} (h : dev.Ends o w.state r s) (rest : Runs dev (next r) (w.record o (some r) s) out w') :
      Runs dev (.op o next) w out w'

/-- Every run keeps `stop` wherever it stops, and those that return also meet `post`. -/
def wp (dev : Device Op Res σ) (post : α → World Op Res σ → Prop) (stop : World Op Res σ → Prop) :
    Prog Op Res ε α → World Op Res σ → Prop
  | .ret a, w => stop w ∧ post a w
  | .fail _, w => stop w
  | .op o next, w =>
    stop w ∧ (∀ s, dev.torn o w.state s → stop (w.record o none s)) ∧
      ∀ r s, dev.Ends o w.state r s → wp dev post stop (next r) (w.record o (some r) s)

section Rules
variable {dev : Device Op Res σ} {post post' : α → World Op Res σ → Prop} {stop stop' : World Op Res σ → Prop}
  {p : Prog Op Res ε α} {w w' : World Op Res σ}

theorem stop_of_wp (h : wp dev post stop p w) : stop w := by
  cases p with
  | ret a => exact h.1
  | fail e => exact h
  | op o next => exact h.1

/-- The rule the others serve: what `wp` promises holds of every run. -/
theorem Runs.of_wp {out : Outcome ε α} (hrun : Runs dev p w out w') (h : wp dev post stop p w) :
    stop w' ∧ ∀ a, out = .ok a → post a w' := by
  induction hrun with
  | ret => exact ⟨h.1, fun _ ha => by cases ha; exact h.2⟩
  | fail => exact ⟨h, fun _ ha => nomatch ha⟩
  | crash => exact ⟨stop_of_wp h, fun _ ha => nomatch ha⟩
  | torn htorn => exact ⟨h.2.1 _ htorn, fun _ ha => nomatch ha⟩
  | op hends _ ih => exact ih (h.2.2 _ _ hends)

theorem wp.mono (h : wp dev post stop p w) (hpost : ∀ a w, post a w → post' a w) (hstop : ∀ w, stop w → stop' w) :
    wp dev post' stop' p w := by
  induction p generalizing w with
  | ret a => exact ⟨hstop _ h.1, hpost _ _ h.2⟩
  | fail e => exact hstop _ h
  | op o next ih => exact ⟨hstop _ h.1, fun s hs => hstop _ (h.2.1 s hs), fun r s hs => ih r (h.2.2 r s hs)⟩

theorem wp_trivial : wp dev (fun _ _ => True) (fun _ => True) p w := by
  induction p generalizing w with
  | ret a => exact ⟨trivial, trivial⟩
  | fail e => trivial
  | op o next ih => exact ⟨trivial, fun _ _ => trivial, fun r _ _ => ih r⟩

theorem wp.and (h : wp dev post stop p w) (h' : wp dev post' stop' p w) :
    wp dev (fun a w => post a w ∧ post' a w) (fun w => stop w ∧ stop' w) p w := by
  induction p generalizing w with
  | ret a => exact ⟨⟨h.1, h'.1⟩, h.2, h'.2⟩
  | fail e => exact ⟨h, h'⟩
  | op o next ih =>
    exact ⟨⟨h.1, h'.1⟩, fun s hs => ⟨h.2.1 s hs, h'.2.1 s hs⟩, fun r s hs => ih r (h.2.2 r s hs) (h'.2.2 r s hs)⟩

theorem wp_bind {post : β → World Op Res σ → Prop} {f : α → Prog Op Res ε β} :
    wp dev post stop (p >>= f) w ↔ wp dev (fun a w => wp dev post stop (f a) w) stop p w := by
  induction p generalizing w with
  | ret a => exact ⟨fun h => ⟨stop_of_wp h, h⟩, fun h => h.2⟩
  | fail e => exact Iff.rfl
  | op o next ih =>
    exact and_congr_right fun _ => and_congr_right fun _ => forall_congr' fun r => forall_congr' fun s =>
      imp_congr_right fun _ => ih r

/-- Sequencing: the first program's postcondition is what the second one needs. -/
theorem wp.bind {post' : β → World Op Res σ → Prop} {f : α → Prog Op Res ε β} (h : wp dev post stop p w)
    (hf : ∀ a w, post a w → wp dev post' stop (f a) w) : wp dev post' stop (p >>= f) w :=
  wp_bind.mpr (h.mono hf fun _ hw => hw)

theorem wp_pure {a : α} : wp dev post stop (pure a : Prog Op Res ε α) w ↔ stop w ∧ post a w := Iff.rfl

theorem wp_perform {o : Op} {post : Res o → World Op Res σ → Prop} :
    wp dev post stop (Prog.perform o : Prog Op Res ε (Res o)) w ↔
      stop w ∧ (∀ s, dev.torn o w.state s → stop (w.record o none s)) ∧
        ∀ r s, dev.Ends o w.state r s → stop (w.record o (some r) s) ∧ post r (w.record o (some r) s) := Iff.rfl

/-- A run of operations of one kind relates the states as each of them does. -/
theorem wp_since {R : σ → σ → Prop} {kind : Op → Prop} (hrefl : ∀ s, R s s)
    (htrans : ∀ {s s' s''}, R s s' → R s' s'' → R s s'') (hp : p.Uses kind)
    (htorn : ∀ {o s s'}, kind o → dev.torn o s s' → R s s')
    (hends : ∀ {o s r s'}, kind o → dev.Ends o s r s' → R s s') :
    wp dev (fun _ => w.Since R kind) (w.Since R kind) p w := by
  suffices ∀ w', w.Since R kind w' → wp dev (fun _ => w.Since R kind) (w.Since R kind) p w' from
    this w (.refl (hrefl _))
  induction p with
  | ret a => exact fun w' hw' => ⟨hw', hw'⟩
  | fail e => exact fun w' hw' => hw'
  | op o next ih =>
    exact fun w' hw' => ⟨hw', fun s hs => hw'.record (htrans hw'.state (htorn hp.1 hs)) hp.1,
      fun r s hs => ih r (hp.2 r) _ (hw'.record (htrans hw'.state (hends hp.1 hs)) hp.1)⟩

/-- A loop keeps an invariant of the entries done. -/
theorem wp_each {f : α → Prog Op Res ε Unit} {xs : List α} (inv : List α → World Op Res σ → Prop)
    (hw : inv [] w) (hstop : ∀ done w, inv done w → stop w)
    (hstep : ∀ done x rest w, xs = done ++ x :: rest → inv done w →
      wp dev (fun _ => inv (done ++ [x])) stop (f x) w) :
    wp dev (fun _ => inv xs) stop (Prog.each f xs) w := by
  suffices ∀ rest done w, xs = done ++ rest → inv done w →
      wp dev (fun _ => inv xs) stop (Prog.each f rest) w from this xs [] w rfl hw
  intro rest
  induction rest with
  | nil =>
    intro done w hxs hinv
    rw [List.append_nil] at hxs
    exact wp_pure.mpr ⟨hstop _ _ hinv, hxs ▸ hinv⟩
  | cons x rest ih =>
    intro done w hxs hinv
    refine (hstep done x rest w hxs hinv).bind fun _ w' hw' => ?_
    exact ih (done ++ [x]) w' (by simp [hxs]) hw'

/-- A loop that returns `g` of every entry, and keeps an invariant. -/
theorem wp_collect {f : α → Prog Op Res ε β} {xs : List α} (g : α → β) (inv : World Op Res σ → Prop) (hw : inv w)
    (hstop : ∀ w, inv w → stop w)
    (hstep : ∀ x ∈ xs, ∀ w, inv w → wp dev (fun y w => y = g x ∧ inv w) stop (f x) w) :
    wp dev (fun ys w => ys = xs.map g ∧ inv w) stop (Prog.collect f xs) w := by
  induction xs generalizing w with
  | nil => exact wp_pure.mpr ⟨hstop _ hw, rfl, hw⟩
  | cons x xs ih =>
    obtain ⟨hx, hxs⟩ := List.forall_mem_cons.mp hstep
    refine (hx w hw).bind fun y w' hy => ?_
    refine (ih hy.2 hxs).bind fun ys w'' hys => ?_
    exact wp_pure.mpr ⟨hstop _ hys.2, by rw [hy.1, hys.1, List.map_cons], hys.2⟩

end Rules

namespace Prog
variable {dev : Device Op Res σ}

/-- The run in which every operation is carried out. -/
def eval (dev : Device Op Res σ) : Prog Op Res ε α → World Op Res σ → Outcome ε α × World Op Res σ
  | .ret a, w => (.ok a, w)
  | .fail e, w => (.error e, w)
  | .op o next, w =>
    (next (dev.run o w.state).1).eval dev (w.record o (some (dev.run o w.state).1) (dev.run o w.state).2)

/-- The run that carries out its first operations and then crashes. -/
def crashAfter (dev : Device Op Res σ) : Nat → Prog Op Res ε α → World Op Res σ → World Op Res σ
  | _, .ret _, w => w
  | _, .fail _, w => w
  | 0, .op _ _, w => w
  | n + 1, .op o next, w =>
    (next (dev.run o w.state).1).crashAfter dev n
      (w.record o (some (dev.run o w.state).1) (dev.run o w.state).2)

theorem eval_bind {p : Prog Op Res ε α} {f : α → Prog Op Res ε β} {w w' : World Op Res σ} {a : α}
    (h : p.eval dev w = (.ok a, w')) : (p >>= f).eval dev w = (f a).eval dev w' := by
  induction p generalizing w with
  | ret b =>
    cases h
    rfl
  | fail e => cases h
  | op o next ih => exact ih _ h

theorem runs_eval (p : Prog Op Res ε α) (w : World Op Res σ) : Runs dev p w (p.eval dev w).1 (p.eval dev w).2 := by
  induction p generalizing w with
  | ret a => exact .ret
  | fail e => exact .fail
  | op o next ih => exact .op (.inl rfl) (ih _ _)

theorem runs_crashAfter (n : Nat) (p : Prog Op Res ε α) (w : World Op Res σ) :
    Runs dev p w .crashed (p.crashAfter dev n w) := by
  induction p generalizing n w with
  | ret a => cases n <;> exact .crash
  | fail e => cases n <;> exact .crash
  | op o next ih =>
    cases n with
    | zero => exact .crash
    | succ n => exact .op (.inl rfl) (ih _ _ _)

end Prog

end Crash
