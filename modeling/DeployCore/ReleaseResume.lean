import DeployCore.ReleaseInstall
import DeployCore.ReleaseRun

/-! # Composing and resuming chains

A chain over two lists is the chain over the first and then the one over the second. Where a chain stops, the steps
before are accepted and the failing one was made of the tree they left; as long as that step did not begin to install,
the tree is theirs, and a chain over what remains goes on as the whole one would have (`chain_resumes`). -/

namespace DeployCore
open Directory Crash

/-- The progress of a chain that goes on behind another. -/
def ChainReplay.behind (before replay : ChainReplay) : ChainReplay :=
  ⟨before.completed + replay.completed, replay.last.or before.last⟩

def ChainReplayError.behind (before : ChainReplay) (e : ChainReplayError) : ChainReplayError :=
  ⟨before.completed + e.completed, e.last.or before.last, e.source⟩

/-- How a chain ends behind another. -/
def endBehind (before : ChainReplay) (out : Outcome ChainReplayError ChainReplay) : Outcome ChainReplayError ChainReplay :=
  out.mapEnd (.behind before) (.behind before)

section Compose
variable {lib : Externals} {root : Bytes} {before replay progress : ChainReplay} {packages packages' : List Bytes}

theorem replayFrom_append : replayFrom lib root progress (packages ++ packages') =
    replayFrom lib root progress packages >>= fun progress => replayFrom lib root progress packages' := by
  induction packages generalizing progress with
  | nil => rfl
  | cons package packages ih =>
    rw [List.cons_append, replayFrom, replayFrom, Prog.bind_assoc]
    refine congrArg (_ >>= ·) (funext fun result => ?_)
    cases result with
    | ok admitted => exact ih
    | error source => rfl

/-- A chain behind another counts on from it. -/
theorem replayFrom_behind : replayFrom lib root (before.behind replay) packages =
    (replayFrom lib root replay packages).mapEnd (.behind before) (.behind before) := by
  induction packages generalizing replay with
  | nil => rfl
  | cons package packages ih =>
    rw [replayFrom, replayFrom, Prog.mapEnd_attempt_bind]
    refine congrArg (_ >>= ·) (funext fun result => ?_)
    cases result with
    | ok admitted => exact @ih ⟨replay.completed + 1, some admitted⟩
    | error source => rfl

theorem replayFrom_eq_behind : replayFrom lib root before packages =
    (acceptGenerationChain lib root packages).mapEnd (.behind before) (.behind before) :=
  @replayFrom_behind lib root before ⟨0, none⟩ packages

end Compose

section Chains
variable {platform : Platform} {surroundings : Surroundings} {root : Bytes} {packages packages' : List Bytes} {d d' : Disk}

/-- Where a chain over two lists gets to. -/
theorem goes_chain_append {out : Outcome ChainReplayError ChainReplay} :
    Goes (trustDevice platform surroundings) (acceptGenerationChain platform.lib root (packages ++ packages')) d out d' ↔
      (∃ replay d₁ out', Goes (trustDevice platform surroundings) (acceptGenerationChain platform.lib root packages) d
          (.ok replay) d₁ ∧
        Goes (trustDevice platform surroundings) (acceptGenerationChain platform.lib root packages') d₁ out' d' ∧
        out = endBehind replay out') ∨
      (∀ replay, out ≠ .ok replay) ∧
        Goes (trustDevice platform surroundings) (acceptGenerationChain platform.lib root packages) d out d' := by
  have happend : acceptGenerationChain platform.lib root (packages ++ packages') =
      acceptGenerationChain platform.lib root packages >>= fun replay => replayFrom platform.lib root replay packages' :=
    replayFrom_append
  rw [happend, goes_bind]
  constructor
  · rintro (⟨replay, d₁, hp, hq⟩ | ⟨e, rfl, hp⟩ | ⟨rfl, hp⟩)
    · rw [replayFrom_eq_behind] at hq
      obtain ⟨out', hq, hout⟩ := goes_mapEnd.mp hq
      exact .inl ⟨replay, d₁, out', hp, hq, hout⟩
    · exact .inr ⟨nofun, hp⟩
    · exact .inr ⟨nofun, hp⟩
  · rintro (⟨replay, d₁, out', hp, hq, hout⟩ | ⟨hnot, hp⟩)
    · refine .inl ⟨replay, d₁, hp, ?_⟩
      rw [replayFrom_eq_behind]
      exact goes_mapEnd.mpr ⟨out', hq, hout⟩
    · cases out with
      | ok replay => exact absurd rfl (hnot replay)
      | error e => exact .inr (.inl ⟨e, rfl, hp⟩)
      | crashed => exact .inr (.inr ⟨rfl, hp⟩)

theorem AcceptedSteps.length {w w' : World TrustOp TrustOp.Result Disk} {admitted : List AdmittedGeneration}
    (h : AcceptedSteps platform surroundings root packages w admitted w') : admitted.length = packages.length := by
  induction h with
  | nil => rfl
  | cons _ _ ih => rw [List.length_cons, List.length_cons, ih]

/-- What an accept that fails leaves of the tree: all of it unless it began to install, and all but the names of the
installation unless it swapped the active link. -/
theorem acceptGeneration_error {package : Bytes} {e : ReleaseTrustError} {w : World TrustOp TrustOp.Result Disk}
    (h : Runs (trustDevice platform surroundings) (acceptGeneration platform.lib root package) ⟨d, []⟩ (.error e) w) :
    ((∀ e ∈ w.events, e.op.IsLook) → w.state = d) ∧
      ((∀ e ∈ w.events, ¬SwapsActive e) → ∀ name ∉ d.scratch, find w.state.root name = find d.root name) := by
  have hlooked : w.state = d → ((∀ e ∈ w.events, e.op.IsLook) → w.state = d) ∧
      ((∀ e ∈ w.events, ¬SwapsActive e) → ∀ name ∉ d.scratch, find w.state.root name = find d.root name) :=
    fun hsame => ⟨fun _ => hsame, fun _ _ _ => by rw [hsame]⟩
  rcases runs_judged givesUp_judgeDelivered h with ⟨⟨hsame, -⟩, -⟩ | ⟨judgement, w₁, ⟨hsame, looks, hlooks⟩, -, hrest⟩
  · exact hlooked hsame
  cases judgement with
  | unchanged admitted => cases hrest
  | install verified =>
    obtain ⟨c, hcall, -⟩ := runs_installVerified hrest
    have hbefore : c.before = d := hcall.before.trans hsame
    have hevents : w.events = looks.map (Event.via TrustOp.look) ++ c.events.map (Event.via TrustOp.engine) := by
      rw [hcall.events, hlooks]
      rfl
    refine ⟨fun hlook => ?_, fun hno name hname => ?_⟩
    · obtain ⟨since, hsince, hnothing⟩ := Runs.recorded hcall.went
      have hnil : c.events = [] := by
        refine List.eq_nil_iff_forall_not_mem.mpr fun e he => ?_
        exact hlook _ (hevents ▸ List.mem_append_right _ (List.mem_map_of_mem he))
      rw [← hcall.after, ← hbefore]
      exact hnothing (hsince.symm.trans hnil)
    · have hunswapped : ∀ e ∈ c.events, ¬Swaps e := by
        rintro e he ⟨before, rfl⟩
        exact hno _ (hevents ▸ List.mem_append_right _ (List.mem_map_of_mem he)) ⟨before, rfl⟩
      rw [← hcall.after]
      rcases hcall.went.stops with hlooked | ⟨-, hun | hswapped⟩
      · rw [show c.after = c.before from hlooked.state, hbefore]
      · rw [← hbefore] at hname ⊢
        exact hun.frame.root name hname
      · obtain ⟨e, he, hswaps⟩ := hswapped.swapped
        exact absurd hswaps (hunswapped e he)

/-- Where a chain fails: behind its first steps, at one that was made of the tree they left. -/
theorem goes_chain_error {e : ChainReplayError}
    (h : Goes (trustDevice platform surroundings) (acceptGenerationChain platform.lib root packages) d (.error e) d') :
    ∃ done package rest d₁, packages = done ++ package :: rest ∧ done.length = e.completed ∧
      Goes (trustDevice platform surroundings) (acceptGenerationChain platform.lib root done) d (.ok ⟨e.completed, e.last⟩) d₁ ∧
      Goes (trustDevice platform surroundings) (acceptGeneration platform.lib root package) d₁ (.error e.source) d' := by
  obtain ⟨events, hruns⟩ := h
  obtain ⟨done, rest, admitted, w₁, rfl, hdone, hcases⟩ := runs_replay.mp hruns
  rcases hcases with ⟨-, -, hok | hcrash⟩ | ⟨package, rest', out', rfl, hnot, hfailed, hout | hcrash⟩
  · cases hok
  · cases hcrash
  · have hlast : (⟨0, none⟩ : ChainReplay).after admitted = ⟨admitted.length, admitted.getLast?⟩ := by
      simp [ChainReplay.after]
    have haccepted : Goes (trustDevice platform surroundings) (acceptGenerationChain platform.lib root done) d
        (.ok ⟨admitted.length, admitted.getLast?⟩) w₁.state :=
      (runs_replay.mpr ⟨done, [], admitted, w₁, (List.append_nil done).symm, hdone, .inl ⟨rfl, rfl, .inl (by rw [hlast])⟩⟩).goes
    cases out' with
    | ok a => exact absurd rfl (hnot a)
    | crashed => cases hout
    | error source =>
      rw [hlast] at hout
      cases hout
      exact ⟨done, package, rest', w₁.state, rfl, hdone.length.symm, haccepted, hfailed.goes⟩
  · cases hcrash

/-- A chain over two lists is the one and then the other. Where a chain fails, the steps it counts are accepted and the
failing step was made of the tree they left. That tree stands unless this step began to install, and but for names of
the installation unless it swapped the active link; and while it stands, a chain over the packages from that step on
goes on as the whole chain does. -/
theorem chain_resumes (platform : Platform) (surroundings : Surroundings) (root : Bytes) (packages packages' : List Bytes)
    (d : Disk) :
    (∀ out d', Goes (trustDevice platform surroundings) (acceptGenerationChain platform.lib root (packages ++ packages')) d out d' ↔
      (∃ replay d₁ out', Goes (trustDevice platform surroundings) (acceptGenerationChain platform.lib root packages) d
          (.ok replay) d₁ ∧
        Goes (trustDevice platform surroundings) (acceptGenerationChain platform.lib root packages') d₁ out' d' ∧
        out = endBehind replay out') ∨
      (∀ replay, out ≠ .ok replay) ∧
        Goes (trustDevice platform surroundings) (acceptGenerationChain platform.lib root packages) d out d') ∧
    ∀ e d', Goes (trustDevice platform surroundings) (acceptGenerationChain platform.lib root packages) d (.error e) d' →
      ∃ package rest d₁ events, packages.drop e.completed = package :: rest ∧
        Goes (trustDevice platform surroundings) (acceptGenerationChain platform.lib root (packages.take e.completed)) d
          (.ok ⟨e.completed, e.last⟩) d₁ ∧
        Runs (trustDevice platform surroundings) (acceptGeneration platform.lib root package) ⟨d₁, []⟩ (.error e.source)
          ⟨d', events⟩ ∧
        ((∀ event ∈ events, event.op.IsLook) → d' = d₁) ∧
        ((∀ event ∈ events, ¬SwapsActive event) → ∀ name ∉ d₁.scratch, find d'.root name = find d₁.root name) ∧
        (d' = d₁ → ∀ out d₂,
          Goes (trustDevice platform surroundings) (acceptGenerationChain platform.lib root (packages.drop e.completed)) d' out d₂ →
          Goes (trustDevice platform surroundings) (acceptGenerationChain platform.lib root packages) d
            (endBehind ⟨e.completed, e.last⟩ out) d₂) := by
  refine ⟨fun out d' => goes_chain_append, fun e d' h => ?_⟩
  obtain ⟨done, package, rest, d₁, rfl, hlength, hdone, events, hfailed⟩ := goes_chain_error h
  obtain ⟨hlooked, hunswapped⟩ := acceptGeneration_error hfailed
  have hdrop : (done ++ package :: rest).drop e.completed = package :: rest := by rw [← hlength, List.drop_left]
  have htake : (done ++ package :: rest).take e.completed = done := by rw [← hlength, List.take_left]
  refine ⟨package, rest, d₁, events, hdrop, htake.symm ▸ hdone, hfailed, hlooked, hunswapped, ?_⟩
  rintro rfl out d₂ hrest
  rw [hdrop] at hrest
  exact goes_chain_append.mpr (.inl ⟨_, d', out, hdone, hrest, rfl⟩)

/-- The seeded tree with a file under the name of a generation. -/
def strayFile : Disk := ⟨(asBytes "gen-0", .file [] true) :: seeded.root, []⟩

/-- A chain that fails at its first step, since the stray file is not pruned, has installed that step's generation. -/
theorem chain_fails_behind_swap : ∃ surroundings packages e d',
    Goes (trustDevice samplePlatform surroundings) (acceptGenerationChain samplePlatform.lib sampleRoot packages) strayFile
      (.error e) d' ∧
    e.completed = 0 ∧ recordedEpoch strayFile.root = some 1 ∧ recordedEpoch d'.root = some 2 := by
  obtain ⟨e, herror⟩ : ∃ e, (installRun .second strayFile).1 = .error e := Outcome.isError_iff.mp (by decide +kernel)
  have hinstall : Runs (device (willingHost fun _ => .error .notFound)) (activateGeneration ⟨sampleRoot, none⟩
      (material SampleGeneration.second.package SampleGeneration.second.member 2)) ⟨strayFile, []⟩
      (installRun .second strayFile).1 (installRun .second strayFile).2 := Prog.runs_eval _ _
  rw [herror] at hinstall
  have hinstalled := @goes_installVerified samplePlatform (sampleSurroundings SampleGeneration.second.package) sampleRoot
    SampleGeneration.second.package ⟨SampleGeneration.second.document, 2, SampleGeneration.second.member⟩ _ _ _
    (validateStaged_sample rfl) hinstall.goes
  have hshown : shown strayFile.root = shown seeded.root := by
    have hskip (name : Bytes) (hne : name ≠ asBytes "gen-0") : find strayFile.root name = find seeded.root name :=
      find_cons.trans (if_neg hne)
    refine shown_congr (hskip _ (by decide)) fun target htarget => hskip _ ?_
    rw [(of_shown_eq_generation shown_seeded).1] at htarget
    cases htarget
    decide
  have hlt : 1 < SampleGeneration.second.epoch := by decide
  have haccept : Goes (trustDevice samplePlatform (sampleSurroundings SampleGeneration.second.package))
      (acceptGeneration samplePlatform.lib sampleRoot SampleGeneration.second.package) strayFile (.error e)
      (installRun .second strayFile).2.state := goes_judged (value_judgeDelivered_seeded hshown hlt) hinstalled
  obtain ⟨events, hruns⟩ := haccept
  refine ⟨_, [SampleGeneration.second.package], ⟨0, none, e⟩, _,
    ⟨events, runs_bind.mpr (.inl ⟨_, _, runs_attempt.mpr ⟨_, hruns, rfl⟩, .fail⟩)⟩, rfl, ?_, ?_⟩
  · decide +kernel
  · decide +kernel

end Chains

end DeployCore
