import DeployCore.Lib.Crash

/-! # Composing programs that may fail or crash

How the runs of a sequence, of a program that goes on after a failure, and of a program over some of a device's
operations are made of the runs of their parts. A program that only looks leaves the state alone, and one that
also gives up at every fault returns nothing but its `value`, what it returns where nothing fails. -/

namespace Crash

variable {Op Op' : Type} {Res : Op → Type} {Res' : Op' → Type} {σ ε ε' α β γ : Type}

namespace Prog

theorem bind_assoc (p : Prog Op Res ε α) (f : α → Prog Op Res ε β) (g : β → Prog Op Res ε γ) :
    p >>= f >>= g = p >>= fun a => f a >>= g := by
  induction p with
  | ret a => rfl
  | fail e => rfl
  | op o next ih => exact congrArg (Prog.op o) (funext fun r => ih r)

theorem bind_pure (p : Prog Op Res ε α) : p >>= pure = p := by
  induction p with
  | ret a => rfl
  | fail e => rfl
  | op o next ih => exact congrArg (Prog.op o) (funext fun r => ih r)

theorem pure_bind (a : α) (f : α → Prog Op Res ε β) : (pure a : Prog Op Res ε α) >>= f = f a := rfl

/-- The program that returns or fails as decided. -/
def lift : Except ε α → Prog Op Res ε α
  | .ok a => .ret a
  | .error e => .fail e

/-- Goes on after a failure, which it returns. -/
def attempt : Prog Op Res ε α → Prog Op Res ε' (Except ε α)
  | .ret a => .ret (.ok a)
  | .fail e => .ret (.error e)
  | .op o next => .op o fun r => (next r).attempt

/-- A program whose results and failures are told in other terms. -/
def mapEnd (g : ε → ε') (f : α → β) : Prog Op Res ε α → Prog Op Res ε' β
  | .ret a => .ret (f a)
  | .fail e => .fail (g e)
  | .op o next => .op o fun r => (next r).mapEnd g f

/-- What goes on after an attempt is told in other terms as it goes on. -/
theorem mapEnd_attempt_bind {p : Prog Op Res ε α} {f : Except ε α → Prog Op Res ε' β} {ε'' : Type} {g : ε' → ε''}
    {h : β → γ} : (p.attempt >>= f).mapEnd g h = p.attempt >>= fun r => (f r).mapEnd g h := by
  induction p with
  | ret a => rfl
  | fail e => rfl
  | op o next ih => exact congrArg (Prog.op o) (funext fun r => ih r)

/-- A program over operations that a device knows under other names. -/
def via (f : Op → Op') : Prog Op (fun o => Res' (f o)) ε α → Prog Op' Res' ε α
  | .ret a => .ret a
  | .fail e => .fail e
  | .op o next => .op (f o) fun r => (next r).via f

end Prog

/-- A device as it acts through operations it knows under other names. -/
def Device.via (f : Op → Op') (dev : Device Op' Res' σ) : Device Op (fun o => Res' (f o)) σ where
  run o := dev.run (f o)
  fault o := dev.fault (f o)
  torn o := dev.torn (f o)

def Event.via (f : Op → Op') (e : Event Op (fun o => Res' (f o)) σ) : Event Op' Res' σ :=
  ⟨f e.op, e.before, e.result⟩

/-- The world, behind events recorded `before`. -/
def World.via (f : Op → Op') (before : List (Event Op' Res' σ)) (w : World Op (fun o => Res' (f o)) σ) :
    World Op' Res' σ :=
  ⟨w.state, before ++ w.events.map (Event.via f)⟩

theorem World.via_nil {f : Op → Op'} {w : World Op' Res' σ} :
    (⟨w.state, []⟩ : World Op (fun o => Res' (f o)) σ).via f w.events = w := by
  simp [World.via]

theorem World.record_via {f : Op → Op'} {before : List (Event Op' Res' σ)} {w : World Op (fun o => Res' (f o)) σ}
    {o : Op} {r : Option (Res' (f o))} {s : σ} :
    (w.via f before).record (f o) r s = (w.record o r s).via f before := by
  simp [World.via, World.record, Event.via]

section Runs
variable {dev : Device Op Res σ} {p : Prog Op Res ε α} {w w' : World Op Res σ}

/-- A run of a sequence runs the second program where the first returned, or ends as the first did. -/
theorem runs_bind {f : α → Prog Op Res ε β} {out : Outcome ε β} :
    Runs dev (p >>= f) w out w' ↔
      (∃ a w₁, Runs dev p w (.ok a) w₁ ∧ Runs dev (f a) w₁ out w') ∨
        (∃ e, out = .error e ∧ Runs dev p w (.error e) w') ∨ (out = .crashed ∧ Runs dev p w .crashed w') := by
  constructor
  · intro h
    induction p generalizing w with
    | ret a => exact .inl ⟨a, w, .ret, h⟩
    | fail e =>
      cases h with
      | fail => exact .inr (.inl ⟨e, rfl, .fail⟩)
      | crash => exact .inr (.inr ⟨rfl, .crash⟩)
    | op o next ih =>
      cases h with
      | crash => exact .inr (.inr ⟨rfl, .crash⟩)
      | torn htorn => exact .inr (.inr ⟨rfl, .torn htorn⟩)
      | op hends hrest =>
        rcases ih _ hrest with ⟨a, w₁, hp, hf⟩ | ⟨e, rfl, hp⟩ | ⟨rfl, hp⟩
        · exact .inl ⟨a, w₁, .op hends hp, hf⟩
        · exact .inr (.inl ⟨e, rfl, .op hends hp⟩)
        · exact .inr (.inr ⟨rfl, .op hends hp⟩)
  · intro h
    induction p generalizing w with
    | ret a =>
      rcases h with ⟨_, _, hp, hf⟩ | ⟨_, _, hp⟩ | ⟨rfl, hp⟩
      · cases hp
        exact hf
      · cases hp
      · cases hp
        exact .crash
    | fail e =>
      rcases h with ⟨_, _, hp, -⟩ | ⟨_, rfl, hp⟩ | ⟨rfl, hp⟩
      · cases hp
      · cases hp
        exact .fail
      · cases hp
        exact .crash
    | op o next ih =>
      rcases h with ⟨a, w₁, hp, hf⟩ | ⟨e, rfl, hp⟩ | ⟨rfl, hp⟩
      · cases hp with
        | op hends hrest => exact .op hends (ih _ (.inl ⟨a, w₁, hrest, hf⟩))
      · cases hp with
        | op hends hrest => exact .op hends (ih _ (.inr (.inl ⟨e, rfl, hrest⟩)))
      · cases hp with
        | crash => exact .crash
        | torn htorn => exact .torn htorn
        | op hends hrest => exact .op hends (ih _ (.inr (.inr ⟨rfl, hrest⟩)))

/-- A run that records nothing changes nothing. -/
theorem Runs.recorded {out : Outcome ε α} (h : Runs dev p w out w') :
    ∃ events, w'.events = w.events ++ events ∧ (events = [] → w'.state = w.state) := by
  induction h with
  | ret | fail | crash => exact ⟨[], (List.append_nil _).symm, fun _ => rfl⟩
  | torn => exact ⟨_, World.events_record, nofun⟩
  | op _ _ ih =>
    obtain ⟨events, hevents, -⟩ := ih
    exact ⟨_ :: events, by rw [hevents, World.events_record, List.append_assoc]; rfl, nofun⟩

/-- A run does not depend on what was recorded before it. -/
theorem runs_behind {before events : List (Event Op Res σ)} {s : σ} {out : Outcome ε α} :
    Runs dev p ⟨s, before ++ events⟩ out w' ↔
      ∃ w₁, Runs dev p ⟨s, events⟩ out w₁ ∧ w' = ⟨w₁.state, before ++ w₁.events⟩ := by
  have hrecord : ∀ (s : σ) (events : List (Event Op Res σ)) (o : Op) (r : Option (Res o)) (s' : σ),
      (⟨s, before ++ events⟩ : World Op Res σ).record o r s' =
        ⟨s', before ++ ((⟨s, events⟩ : World Op Res σ).record o r s').events⟩ := by
    intro s events o r s'
    simp [World.record]
  constructor
  · intro h
    induction p generalizing s events with
    | ret a =>
      cases h with
      | ret => exact ⟨_, .ret, rfl⟩
      | crash => exact ⟨_, .crash, rfl⟩
    | fail e =>
      cases h with
      | fail => exact ⟨_, .fail, rfl⟩
      | crash => exact ⟨_, .crash, rfl⟩
    | op o next ih =>
      cases h with
      | crash => exact ⟨_, .crash, rfl⟩
      | torn htorn => exact ⟨_, .torn htorn, hrecord ..⟩
      | op hends hrest =>
        rw [hrecord] at hrest
        obtain ⟨w₁, hruns, rfl⟩ := ih _ hrest
        exact ⟨w₁, .op hends hruns, rfl⟩
  · rintro ⟨w₁, h, rfl⟩
    generalize hw : (⟨s, events⟩ : World Op Res σ) = w at h
    induction h generalizing s events with
    | ret => subst hw; exact .ret
    | fail => subst hw; exact .fail
    | crash => subst hw; exact .crash
    | torn htorn =>
      subst hw
      rw [World.state_record, ← hrecord]
      exact .torn htorn
    | op hends _ ih =>
      subst hw
      refine .op hends ?_
      rw [hrecord]
      exact ih rfl

def Outcome.toOption : Outcome ε α → Option α
  | .ok a => some a
  | .error _ | .crashed => none

theorem Outcome.toOption_eq_some {out : Outcome ε α} {a : α} : out.toOption = some a ↔ out = .ok a := by
  cases out <;> simp [toOption]

def Outcome.isError : Outcome ε α → Bool
  | .error _ => true
  | .ok _ | .crashed => false

theorem Outcome.isError_iff {out : Outcome ε α} : out.isError = true ↔ ∃ e, out = .error e := by
  cases out <;> simp [isError]

def Outcome.mapEnd (g : ε → ε') (f : α → β) : Outcome ε α → Outcome ε' β
  | .ok a => .ok (f a)
  | .error e => .error (g e)
  | .crashed => .crashed

theorem runs_mapEnd {g : ε → ε'} {f : α → β} {out : Outcome ε' β} :
    Runs dev (p.mapEnd g f) w out w' ↔ ∃ out', Runs dev p w out' w' ∧ out = out'.mapEnd g f := by
  constructor
  · intro h
    induction p generalizing w with
    | ret a =>
      cases h with
      | ret => exact ⟨_, .ret, rfl⟩
      | crash => exact ⟨_, .crash, rfl⟩
    | fail e =>
      cases h with
      | fail => exact ⟨_, .fail, rfl⟩
      | crash => exact ⟨_, .crash, rfl⟩
    | op o next ih =>
      cases h with
      | crash => exact ⟨_, .crash, rfl⟩
      | torn htorn => exact ⟨_, .torn htorn, rfl⟩
      | op hends hrest =>
        obtain ⟨out', hruns, rfl⟩ := ih _ hrest
        exact ⟨out', .op hends hruns, rfl⟩
  · rintro ⟨out', h, rfl⟩
    induction h with
    | ret => exact .ret
    | fail => exact .fail
    | crash => exact .crash
    | torn htorn => exact .torn htorn
    | op hends _ ih => exact .op hends ih

/-- How an attempt ends when the program ends so. -/
def Outcome.attempted : Outcome ε α → Outcome ε' (Except ε α)
  | .ok a => .ok (.ok a)
  | .error e => .ok (.error e)
  | .crashed => .crashed

theorem runs_attempt {out : Outcome ε' (Except ε α)} :
    Runs dev (p.attempt : Prog Op Res ε' (Except ε α)) w out w' ↔
      ∃ out', Runs dev p w out' w' ∧ out = out'.attempted := by
  constructor
  · intro h
    induction p generalizing w with
    | ret a =>
      cases h with
      | ret => exact ⟨_, .ret, rfl⟩
      | crash => exact ⟨_, .crash, rfl⟩
    | fail e =>
      cases h with
      | ret => exact ⟨_, .fail, rfl⟩
      | crash => exact ⟨_, .crash, rfl⟩
    | op o next ih =>
      cases h with
      | crash => exact ⟨_, .crash, rfl⟩
      | torn htorn => exact ⟨_, .torn htorn, rfl⟩
      | op hends hrest =>
        obtain ⟨out', hruns, rfl⟩ := ih _ hrest
        exact ⟨out', .op hends hruns, rfl⟩
  · rintro ⟨out', h, rfl⟩
    induction h with
    | ret => exact .ret
    | fail => exact .ret
    | crash => exact .crash
    | torn htorn => exact .torn htorn
    | op hends _ ih => exact .op hends ih

theorem Prog.Uses.attempt {kind : Op → Prop} (h : p.Uses kind) :
    (p.attempt : Prog Op Res ε' (Except ε α)).Uses kind := by
  induction p with
  | ret a => trivial
  | fail e => trivial
  | op o next ih => exact ⟨h.1, fun r => ih r (h.2 r)⟩

/-- What a program's attempt promises holds of its runs, of those that fail too. -/
theorem Runs.of_wp_attempt {post : Except ε α → World Op Res σ → Prop} {stop : World Op Res σ → Prop}
    {out : Outcome ε α} (hrun : Runs dev p w out w')
    (h : wp dev post stop (p.attempt : Prog Op Res ε' (Except ε α)) w) :
    stop w' ∧ (∀ a, out = .ok a → post (.ok a) w') ∧ ∀ e, out = .error e → post (.error e) w' := by
  obtain ⟨hstop, hpost⟩ := (runs_attempt.mpr ⟨out, hrun, rfl⟩ : Runs dev p.attempt w out.attempted w').of_wp h
  refine ⟨hstop, ?_, ?_⟩
  · rintro a rfl
    exact hpost _ rfl
  · rintro e rfl
    exact hpost _ rfl

/-- How an attempt of a sequence goes on. -/
def Prog.resume (f : α → Prog Op Res ε β) : Except ε α → Prog Op Res ε' (Except ε β)
  | .ok a => (f a).attempt
  | .error e => .ret (.error e)

theorem Prog.attempt_bind {f : α → Prog Op Res ε β} :
    ((p >>= f).attempt : Prog Op Res ε' (Except ε β)) = p.attempt >>= Prog.resume f := by
  induction p with
  | ret a => rfl
  | fail e => rfl
  | op o next ih => exact congrArg (Prog.op o) (funext fun r => ih r)

theorem wp_attempt_bind {post : Except ε β → World Op Res σ → Prop} {stop : World Op Res σ → Prop}
    {f : α → Prog Op Res ε β} :
    wp dev post stop ((p >>= f).attempt : Prog Op Res ε' (Except ε β)) w ↔
      wp dev (fun r w => wp dev post stop (Prog.resume f r : Prog Op Res ε' (Except ε β)) w) stop
        (p.attempt : Prog Op Res ε' (Except ε α)) w := by
  rw [Prog.attempt_bind, wp_bind]

theorem wp_attempt_attempt {post : Except ε' (Except ε α) → World Op Res σ → Prop} {stop : World Op Res σ → Prop}
    {ε'' : Type} :
    wp dev post stop ((p.attempt : Prog Op Res ε' (Except ε α)).attempt : Prog Op Res ε'' _) w ↔
      wp dev (fun r => post (.ok r)) stop (p.attempt : Prog Op Res ε'' (Except ε α)) w := by
  induction p generalizing w with
  | ret a => exact Iff.rfl
  | fail e => exact Iff.rfl
  | op o next ih =>
    exact and_congr_right fun _ => and_congr_right fun _ => forall_congr' fun r => forall_congr' fun s =>
      imp_congr_right fun _ => ih r

theorem wp_mapEnd {post : β → World Op Res σ → Prop} {stop : World Op Res σ → Prop} {g : ε → ε'} {f : α → β} :
    wp dev post stop (p.mapEnd g f) w ↔ wp dev (fun a => post (f a)) stop p w := by
  induction p generalizing w with
  | ret a => exact Iff.rfl
  | fail e => exact Iff.rfl
  | op o next ih =>
    exact and_congr_right fun _ => and_congr_right fun _ => forall_congr' fun r => forall_congr' fun s =>
      imp_congr_right fun _ => ih r

/-- The runs of a program over renamed operations are its own, renamed. -/
theorem runs_via {f : Op → Op'} {dev : Device Op' Res' σ} {p : Prog Op (fun o => Res' (f o)) ε α}
    {before : List (Event Op' Res' σ)} {w : World Op (fun o => Res' (f o)) σ} {w' : World Op' Res' σ}
    {out : Outcome ε α} :
    Runs dev (p.via f) (w.via f before) out w' ↔ ∃ w₁, Runs (dev.via f) p w out w₁ ∧ w' = w₁.via f before := by
  constructor
  · intro h
    induction p generalizing w with
    | ret a =>
      cases h with
      | ret => exact ⟨w, .ret, rfl⟩
      | crash => exact ⟨w, .crash, rfl⟩
    | fail e =>
      cases h with
      | fail => exact ⟨w, .fail, rfl⟩
      | crash => exact ⟨w, .crash, rfl⟩
    | op o next ih =>
      cases h with
      | crash => exact ⟨w, .crash, rfl⟩
      | torn htorn => exact ⟨_, .torn htorn, World.record_via⟩
      | op hends hrest =>
        rw [World.record_via] at hrest
        obtain ⟨w₁, hruns, rfl⟩ := ih _ hrest
        exact ⟨w₁, .op hends hruns, rfl⟩
  · rintro ⟨w₁, h, rfl⟩
    induction h with
    | ret => exact .ret
    | fail => exact .fail
    | crash => exact .crash
    | torn htorn =>
      rw [← World.record_via]
      exact .torn htorn
    | op hends _ ih =>
      rw [← World.record_via] at ih
      exact .op hends ih

end Runs

/-! ## Where a program can get to -/

section Goes
variable {dev : Device Op Res σ} {p : Prog Op Res ε α} {s s' : σ} {out : Outcome ε α}

/-- A program that starts in one state can end so in the other. -/
def Goes (dev : Device Op Res σ) (p : Prog Op Res ε α) (s : σ) (out : Outcome ε α) (s' : σ) : Prop :=
  ∃ events, Runs dev p ⟨s, []⟩ out ⟨s', events⟩

theorem Goes.runs (h : Goes dev p s out s') (before : List (Event Op Res σ)) :
    ∃ events, Runs dev p ⟨s, before⟩ out ⟨s', events⟩ := by
  obtain ⟨events, hruns⟩ := h
  have hbehind : Runs dev p ⟨s, before ++ []⟩ out ⟨s', before ++ events⟩ := runs_behind.mpr ⟨_, hruns, rfl⟩
  rw [List.append_nil] at hbehind
  exact ⟨_, hbehind⟩

theorem Runs.goes {w w' : World Op Res σ} (h : Runs dev p w out w') : Goes dev p w.state out w'.state := by
  have hbehind : Runs dev p ⟨w.state, w.events ++ []⟩ out w' := by rwa [List.append_nil]
  obtain ⟨w₁, hruns, rfl⟩ := runs_behind.mp hbehind
  exact ⟨w₁.events, hruns⟩

theorem goes_via {f : Op → Op'} {dev : Device Op' Res' σ} {p : Prog Op (fun o => Res' (f o)) ε α}
    (h : Goes (dev.via f) p s out s') : Goes dev (p.via f) s out s' := by
  obtain ⟨events, hruns⟩ := h
  have hvia : Runs dev (p.via f) (World.via f [] ⟨s, []⟩) out (World.via f [] ⟨s', events⟩) :=
    runs_via.mpr ⟨_, hruns, rfl⟩
  exact ⟨_, hvia⟩

theorem goes_bind {f : α → Prog Op Res ε β} {out : Outcome ε β} :
    Goes dev (p >>= f) s out s' ↔
      (∃ a s₁, Goes dev p s (.ok a) s₁ ∧ Goes dev (f a) s₁ out s') ∨
        (∃ e, out = .error e ∧ Goes dev p s (.error e) s') ∨ (out = .crashed ∧ Goes dev p s .crashed s') := by
  constructor
  · rintro ⟨events, hruns⟩
    rcases runs_bind.mp hruns with ⟨a, w₁, hp, hf⟩ | ⟨e, he, hp⟩ | ⟨hcrash, hp⟩
    · exact .inl ⟨a, w₁.state, hp.goes, hf.goes⟩
    · exact .inr (.inl ⟨e, he, hp.goes⟩)
    · exact .inr (.inr ⟨hcrash, hp.goes⟩)
  · rintro (⟨a, s₁, ⟨events, hp⟩, hf⟩ | ⟨e, he, events, hp⟩ | ⟨hcrash, events, hp⟩)
    · obtain ⟨events', hf⟩ := hf.runs events
      exact ⟨events', runs_bind.mpr (.inl ⟨a, _, hp, hf⟩)⟩
    · exact ⟨events, runs_bind.mpr (.inr (.inl ⟨e, he, hp⟩))⟩
    · exact ⟨events, runs_bind.mpr (.inr (.inr ⟨hcrash, hp⟩))⟩

theorem goes_mapEnd {g : ε → ε'} {f : α → β} {out : Outcome ε' β} :
    Goes dev (p.mapEnd g f) s out s' ↔ ∃ out', Goes dev p s out' s' ∧ out = out'.mapEnd g f := by
  constructor
  · rintro ⟨events, hruns⟩
    obtain ⟨out', hruns, hout⟩ := runs_mapEnd.mp hruns
    exact ⟨out', ⟨events, hruns⟩, hout⟩
  · rintro ⟨out', ⟨events, hruns⟩, hout⟩
    exact ⟨events, runs_mapEnd.mpr ⟨out', hruns, hout⟩⟩

end Goes

/-! ## How a program fails -/

namespace Prog

/-- A program whose failures all satisfy `P`, where the operations return only what is allowed. -/
def FailsOnly (allowed : (o : Op) → Res o → Prop) (P : ε → Prop) : Prog Op Res ε α → Prop
  | .ret _ => True
  | .fail e => P e
  | .op o next => ∀ r, allowed o r → (next r).FailsOnly allowed P

section FailsOnly
variable {allowed : (o : Op) → Res o → Prop} {P : ε → Prop}

theorem FailsOnly.bind {p : Prog Op Res ε α} {f : α → Prog Op Res ε β} (hp : p.FailsOnly allowed P)
    (hf : ∀ a, (f a).FailsOnly allowed P) : (p >>= f).FailsOnly allowed P := by
  induction p with
  | ret a => exact hf a
  | fail e => exact hp
  | op o next ih => exact fun r hr => ih r (hp r hr)

theorem FailsOnly.mono {P' : ε → Prop} {p : Prog Op Res ε α} (hp : p.FailsOnly allowed P) (h : ∀ e, P e → P' e) :
    p.FailsOnly allowed P' := by
  induction p with
  | ret a => trivial
  | fail e => exact h e hp
  | op o next ih => exact fun r hr => ih r (hp r hr)

theorem FailsOnly.ite {c : Prop} [Decidable c] {p q : Prog Op Res ε α} (hp : p.FailsOnly allowed P)
    (hq : q.FailsOnly allowed P) : (if c then p else q).FailsOnly allowed P := by
  split
  · exact hp
  · exact hq

theorem FailsOnly.perform {o : Op} : (perform o : Prog Op Res ε (Res o)).FailsOnly allowed P := fun _ _ => trivial

theorem FailsOnly.each {f : α → Prog Op Res ε Unit} {xs : List α} (h : ∀ x, (f x).FailsOnly allowed P) :
    (each f xs).FailsOnly allowed P := by
  induction xs with
  | nil => trivial
  | cons x xs ih => exact (h x).bind fun _ => ih

theorem FailsOnly.collect {f : α → Prog Op Res ε β} {xs : List α} (h : ∀ x, (f x).FailsOnly allowed P) :
    (collect f xs).FailsOnly allowed P := by
  induction xs with
  | nil => trivial
  | cons x xs ih => exact (h x).bind fun _ => ih.bind fun _ => trivial

end FailsOnly

end Prog

/-- What an operation that a run recorded as ended returned is what it can return. -/
theorem Runs.event_ends {dev : Device Op Res σ} {p : Prog Op Res ε α} {w w' : World Op Res σ} {out : Outcome ε α}
    (h : Runs dev p w out w') :
    ∀ e ∈ w'.events, e ∈ w.events ∨ ∀ r, e.result = some r → ∃ s, dev.Ends e.op e.before r s := by
  induction h with
  | ret | fail | crash => exact fun e he => .inl he
  | torn htorn => exact World.forall_record (fun e he => .inl he) (.inr nofun)
  | op hends _ ih =>
    intro e he
    rcases ih e he with he | he
    · rcases List.mem_append.mp (World.events_record ▸ he) with he | he
      · exact .inl he
      · cases List.mem_singleton.mp he
        exact .inr fun r hr => ⟨_, Option.some.inj hr ▸ hends⟩
    · exact .inr he

/-- A run is one of another device's too, where that answers the recorded operations alike. -/
theorem Runs.congr {dev dev' : Device Op Res σ} {p : Prog Op Res ε α} {w w' : World Op Res σ} {out : Outcome ε α}
    (h : Runs dev p w out w') (htorn : ∀ o s s', dev.torn o s s' → dev'.torn o s s')
    (hends : ∀ e ∈ w'.events, ∀ r s, e.result = some r → dev.Ends e.op e.before r s → dev'.Ends e.op e.before r s) :
    Runs dev' p w out w' := by
  induction h with
  | ret => exact .ret
  | fail => exact .fail
  | crash => exact .crash
  | torn h => exact .torn (htorn _ _ _ h)
  | @op o next w r s out w' h hrest ih =>
    have hmem : (⟨o, w.state, some r⟩ : Event Op Res σ) ∈ w'.events := by
      obtain ⟨events, hevents, -⟩ := hrest.recorded
      rw [hevents, World.events_record]
      exact List.mem_append_left _ (List.mem_append_right _ List.mem_cons_self)
    exact .op (hends _ hmem r s rfl h) (ih hends)

/-- A run fails as its program does, where its operations returned what is allowed. -/
theorem Runs.failsOnly {dev : Device Op Res σ} {p : Prog Op Res ε α} {w w' : World Op Res σ} {out : Outcome ε α}
    {allowed : (o : Op) → Res o → Prop} {P : ε → Prop} (h : Runs dev p w out w') (hp : p.FailsOnly allowed P)
    (hall : ∀ e ∈ w'.events, ∀ r, e.result = some r → allowed e.op r) : ∀ e, out = .error e → P e := by
  induction h with
  | ret | crash | torn => exact nofun
  | fail =>
    intro e he
    cases he
    exact hp
  | @op o next w r s out w' hends hrest ih =>
    have hmem : (⟨o, w.state, some r⟩ : Event Op Res σ) ∈ w'.events := by
      obtain ⟨events, hevents, -⟩ := hrest.recorded
      rw [hevents, World.events_record]
      exact List.mem_append_left _ (List.mem_append_right _ List.mem_cons_self)
    exact ih (hp r (hall _ hmem r rfl)) hall

/-! ## Programs that only look -/

/-- No operation changes the state. -/
structure Device.Looks (dev : Device Op Res σ) : Prop where
  run : ∀ o s, (dev.run o s).2 = s
  torn : ∀ o s s', dev.torn o s s' → s' = s

namespace Prog

/-- What a program returns where no operation fails and none changes the state. -/
def value (dev : Device Op Res σ) : Prog Op Res ε α → σ → Except ε α
  | .ret a, _ => .ok a
  | .fail e, _ => .error e
  | .op o next, s => (next (dev.run o s).1).value dev s

/-- A program that fails, in one of these ways, as soon as an operation reports that it was not carried out. -/
def GivesUp (dev : Device Op Res σ) (faulty : ε → Prop) : Prog Op Res ε α → Prop
  | .ret _ => True
  | .fail _ => True
  | .op o next => (∀ r, (next r).GivesUp dev faulty) ∧ ∀ r, dev.fault o r → ∃ e, faulty e ∧ next r = .fail e

variable {dev : Device Op Res σ}

@[simp] theorem value_pure {a : α} {s : σ} : (pure a : Prog Op Res ε α).value dev s = .ok a := rfl

@[simp] theorem value_fail {e : ε} {s : σ} : (fail e : Prog Op Res ε α).value dev s = .error e := rfl

@[simp] theorem value_lift {r : Except ε α} {s : σ} : (lift r : Prog Op Res ε α).value dev s = r := by
  cases r <;> rfl

@[simp] theorem value_perform {o : Op} {s : σ} :
    (perform o : Prog Op Res ε (Res o)).value dev s = .ok (dev.run o s).1 := rfl

theorem value_bind {p : Prog Op Res ε α} {f : α → Prog Op Res ε β} {s : σ} :
    (p >>= f).value dev s = p.value dev s >>= fun a => (f a).value dev s := by
  induction p with
  | ret a => rfl
  | fail e => rfl
  | op o next ih => exact ih _

@[simp] theorem value_attempt {ε' : Type} {p : Prog Op Res ε α} {s : σ} :
    (attempt p : Prog Op Res ε' (Except ε α)).value dev s = .ok (p.value dev s) := by
  induction p with
  | ret a => rfl
  | fail e => rfl
  | op o next ih => exact ih _

section GivesUp
variable {faulty faulty' : ε → Prop}

theorem GivesUp.lift {r : Except ε α} : (lift r : Prog Op Res ε α).GivesUp dev faulty := by
  cases r <;> trivial

theorem GivesUp.mono {p : Prog Op Res ε α} (h : p.GivesUp dev faulty) (himp : ∀ e, faulty e → faulty' e) :
    p.GivesUp dev faulty' := by
  induction p with
  | ret a => trivial
  | fail e => trivial
  | op o next ih =>
    refine ⟨fun r => ih r (h.1 r), fun r hr => ?_⟩
    obtain ⟨e, hfaulty, he⟩ := h.2 r hr
    exact ⟨e, himp e hfaulty, he⟩

theorem GivesUp.bind {p : Prog Op Res ε α} {f : α → Prog Op Res ε β} (hp : p.GivesUp dev faulty)
    (hf : ∀ a, (f a).GivesUp dev faulty) : (p >>= f).GivesUp dev faulty := by
  induction p with
  | ret a => exact hf a
  | fail e => trivial
  | op o next ih =>
    refine ⟨fun r => ih r (hp.1 r), fun r hr => ?_⟩
    obtain ⟨e, hfaulty, he⟩ := hp.2 r hr
    refine ⟨e, hfaulty, ?_⟩
    show (next r).bind f = .fail e
    rw [he]
    rfl

/-- An operation, with what is done at its result. -/
theorem GivesUp.perform {o : Op} {f : Res o → Prog Op Res ε α} (hf : ∀ r, (f r).GivesUp dev faulty)
    (hfault : ∀ r, dev.fault o r → ∃ e, faulty e ∧ f r = .fail e) : (Prog.perform o >>= f).GivesUp dev faulty :=
  ⟨hf, hfault⟩

theorem GivesUp.ite {c : Prop} [Decidable c] {p q : Prog Op Res ε α} (hp : p.GivesUp dev faulty)
    (hq : q.GivesUp dev faulty) : (if c then p else q).GivesUp dev faulty := by
  split
  · exact hp
  · exact hq

end GivesUp

end Prog

section Looks
variable {dev : Device Op Res σ} {p : Prog Op Res ε α} {w w' : World Op Res σ} {out : Outcome ε α}

theorem Device.Looks.ends (hdev : dev.Looks) {o : Op} {s s' : σ} {r : Res o} (h : dev.Ends o s r s') : s' = s := by
  rcases h with hrun | ⟨-, htorn⟩
  · rw [← hdev.run o s, ← hrun]
  · exact hdev.torn o s s' htorn

theorem Runs.looks (hdev : dev.Looks) (h : Runs dev p w out w') : w'.state = w.state := by
  induction h with
  | ret | fail | crash => rfl
  | torn htorn => exact hdev.torn _ _ _ htorn
  | op hends _ ih => exact ih.trans (hdev.ends hends)

/-- A looking program that gives up returns its value, and fails as that does or at a fault. -/
theorem Runs.ends (hdev : dev.Looks) {faulty : ε → Prop} (hp : p.GivesUp dev faulty) (h : Runs dev p w out w') :
    (∀ a, out = .ok a → p.value dev w.state = .ok a) ∧
      ∀ e, out = .error e → faulty e ∨ p.value dev w.state = .error e := by
  induction p generalizing w with
  | ret b =>
    cases h with
    | ret => exact ⟨fun _ ha => congrArg Except.ok (Outcome.ok.inj ha), nofun⟩
    | crash => exact ⟨nofun, nofun⟩
  | fail e =>
    cases h with
    | fail => exact ⟨nofun, fun _ he => .inr (congrArg Except.error (Outcome.error.inj he))⟩
    | crash => exact ⟨nofun, nofun⟩
  | op o next ih =>
    cases h with
    | crash | torn => exact ⟨nofun, nofun⟩
    | op hends hrest =>
      have hstate := hdev.ends hends
      rcases hends with hrun | ⟨hfault, -⟩
      · have hvalue := ih _ (hp.1 _) hrest
        rw [World.state_record, hstate] at hvalue
        rw [Prog.value, ← hrun]
        exact hvalue
      · obtain ⟨e, hfaulty, he⟩ := hp.2 _ hfault
        rw [he] at hrest
        cases hrest with
        | fail => exact ⟨nofun, fun _ heq => by cases heq; exact .inl hfaulty⟩
        | crash => exact ⟨nofun, nofun⟩

/-- Where no operation fails, a looking program ends as its value says. -/
theorem eval_looks (hdev : dev.Looks) :
    (p.eval dev w).2.state = w.state ∧
      (p.eval dev w).1 = match p.value dev w.state with | .ok a => .ok a | .error e => .error e := by
  induction p generalizing w with
  | ret a => exact ⟨rfl, rfl⟩
  | fail e => exact ⟨rfl, rfl⟩
  | op o next ih =>
    have hrest := ih (dev.run o w.state).1 (w := w.record o (some (dev.run o w.state).1) (dev.run o w.state).2)
    rw [World.state_record] at hrest
    have hrun := hdev.run o w.state
    exact ⟨hrest.1.trans hrun, hrest.2.trans (by rw [hrun]; rfl)⟩

end Looks

end Crash
