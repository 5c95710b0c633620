import DeployCore.ReleaseDoors

/-! # Replaying a chain

A chain is the sequence of its accepts: a run of one is a run of each of its steps where the one before left the tree,
up to the first that does not return (`runs_replay`). -/

namespace DeployCore
open Crash

/-- The steps of a chain that were accepted, and what each left. -/
inductive AcceptedSteps (platform : Platform) (surroundings : Surroundings) (root : Bytes) :
    List Bytes → World TrustOp TrustOp.Result Disk → List AdmittedGeneration → World TrustOp TrustOp.Result Disk → Prop
  | nil {w} : AcceptedSteps platform surroundings root [] w [] w
  | cons {package packages w admitted w₁ rest w'}
      (h : Runs (trustDevice platform surroundings) (acceptGeneration platform.lib root package) w (.ok admitted) w₁)
      (hrest : AcceptedSteps platform surroundings root packages w₁ rest w') :
      AcceptedSteps platform surroundings root (package :: packages) w (admitted :: rest) w'

variable {platform : Platform} {surroundings : Surroundings} {root : Bytes} {packages done rest : List Bytes}
  {w w' w₁ : World TrustOp TrustOp.Result Disk} {progress : ChainReplay} {admitted : List AdmittedGeneration}

/-- The progress behind further accepted steps. -/
def ChainReplay.after (progress : ChainReplay) (admitted : List AdmittedGeneration) : ChainReplay :=
  ⟨progress.completed + admitted.length, admitted.getLast?.or progress.last⟩

@[simp] theorem ChainReplay.after_nil : progress.after [] = progress := rfl

theorem ChainReplay.after_cons {first : AdmittedGeneration} :
    progress.after (first :: admitted) = ChainReplay.after ⟨progress.completed + 1, some first⟩ admitted := by
  cases admitted with
  | nil => rfl
  | cons next admitted =>
    simp only [ChainReplay.after, List.length_cons, List.getLast?_cons_cons, ChainReplay.mk.injEq]
    refine ⟨by omega, ?_⟩
    cases hlast : (next :: admitted).getLast? with
    | none => simp at hlast
    | some last => rfl

/-- How a chain stops at a step. -/
def stopped (progress : ChainReplay) : Outcome ReleaseTrustError AdmittedGeneration → Outcome ChainReplayError ChainReplay
  | .error source => .error ⟨progress.completed, progress.last, source⟩
  | _ => .crashed

/-- A chain goes on where its accepted steps left the tree. -/
theorem runs_of_accepted {out : Outcome ChainReplayError ChainReplay}
    (hdone : AcceptedSteps platform surroundings root done w admitted w₁)
    (hrest : Runs (trustDevice platform surroundings) (replayFrom platform.lib root (progress.after admitted) rest) w₁ out w') :
    Runs (trustDevice platform surroundings) (replayFrom platform.lib root progress (done ++ rest)) w out w' := by
  induction hdone generalizing progress with
  | nil => exact hrest
  | cons h _ ih =>
    rw [ChainReplay.after_cons] at hrest
    exact runs_bind.mpr (.inl ⟨_, _, runs_attempt.mpr ⟨_, h, rfl⟩, ih hrest⟩)

/-- A run of a chain: all its steps are accepted, or the ones before a step that fails or crashes, or those before a
crash between two steps. -/
theorem runs_replay {out : Outcome ChainReplayError ChainReplay} :
    Runs (trustDevice platform surroundings) (replayFrom platform.lib root progress packages) w out w' ↔
      ∃ done rest admitted w₁, packages = done ++ rest ∧ AcceptedSteps platform surroundings root done w admitted w₁ ∧
        ((rest = [] ∧ w' = w₁ ∧ (out = .ok (progress.after admitted) ∨ out = .crashed)) ∨
          ∃ package packages' out', rest = package :: packages' ∧ (∀ a, out' ≠ .ok a) ∧
            Runs (trustDevice platform surroundings) (acceptGeneration platform.lib root package) w₁ out' w' ∧
            (out = stopped (progress.after admitted) out' ∨ out = .crashed)) := by
  constructor
  · intro h
    induction packages generalizing w progress with
    | nil =>
      cases h with
      | ret => exact ⟨[], [], [], w', rfl, .nil, .inl ⟨rfl, rfl, .inl rfl⟩⟩
      | crash => exact ⟨[], [], [], w', rfl, .nil, .inl ⟨rfl, rfl, .inr rfl⟩⟩
    | cons package packages ih =>
      rcases runs_bind.mp h with ⟨result, w₁, hattempt, hnext⟩ | ⟨e, -, hattempt⟩ | ⟨rfl, hattempt⟩
      · obtain ⟨out', hruns, hout'⟩ := runs_attempt.mp hattempt
        cases out' with
        | crashed => cases hout'
        | ok first =>
          cases hout'
          obtain ⟨done, rest, admitted, w₂, rfl, hdone, hcases⟩ := ih hnext
          rw [← ChainReplay.after_cons] at hcases
          exact ⟨package :: done, rest, first :: admitted, w₂, rfl, .cons hruns hdone, hcases⟩
        | error source =>
          cases hout'
          refine ⟨[], package :: packages, [], w, rfl, .nil, .inr ⟨package, packages, ?_⟩⟩
          cases hnext with
          | fail => exact ⟨.error source, rfl, nofun, hruns, .inl rfl⟩
          | crash => exact ⟨.error source, rfl, nofun, hruns, .inr rfl⟩
      · obtain ⟨out', -, hout'⟩ := runs_attempt.mp hattempt
        cases out' <;> cases hout'
      · obtain ⟨out', hruns, hout'⟩ := runs_attempt.mp hattempt
        cases out' with
        | crashed =>
          exact ⟨[], package :: packages, [], w, rfl, .nil, .inr ⟨package, packages, .crashed, rfl, nofun, hruns, .inl rfl⟩⟩
        | ok => cases hout'
        | error => cases hout'
  · rintro ⟨done, rest, admitted, w₁, rfl, hdone, hrest⟩
    refine runs_of_accepted hdone ?_
    rcases hrest with ⟨rfl, rfl, rfl | rfl⟩ | ⟨package, packages', out', rfl, hne, hruns, rfl | rfl⟩
    · exact .ret
    · exact .crash
    · cases out' with
      | ok a => exact absurd rfl (hne a)
      | error source => exact runs_bind.mpr (.inl ⟨_, _, runs_attempt.mpr ⟨_, hruns, rfl⟩, .fail⟩)
      | crashed => exact runs_bind.mpr (.inr (.inr ⟨rfl, runs_attempt.mpr ⟨_, hruns, rfl⟩⟩))
    · cases out' with
      | ok a => exact absurd rfl (hne a)
      | error source => exact runs_bind.mpr (.inl ⟨_, _, runs_attempt.mpr ⟨_, hruns, rfl⟩, .crash⟩)
      | crashed => exact runs_bind.mpr (.inr (.inr ⟨rfl, runs_attempt.mpr ⟨_, hruns, rfl⟩⟩))

end DeployCore
