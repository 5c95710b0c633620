import DeployCore.GenerationKept
import DeployCore.ReleaseGates

/-! # How a door goes

A door looks, and unless it refuses it installs what it verified: its runs are those of its looks and of one call of
the generation engine. -/

namespace DeployCore
open Directory Crash

/-! ### What a tree records -/

/-- A generation of a package that carries its document. -/
def Platform.Good (platform : Platform) (files : List GenerationFile) : Prop :=
  ∃ package member document, files = material package member document.epoch ∧ platform.Carries package member document

/-- The epoch a state of the root records; none where nothing is active. -/
def recordedEpoch (view : Entries) : Option UInt64 :=
  match shown view with
  | some (_, some (.dir entries _)) =>
    match find entries EPOCH_RECORD_FILE with
    | some (.file bytes _) => (parseEpochRecord bytes).toOption
    | _ => none
  | _ => none

section Recorded
variable {platform : Platform} {surroundings : Surroundings} {root package member : Bytes} {d : Disk} {view view' : Entries}
  {generation : UInt64} {document : TrustSetDocument}

theorem checkMaterial_material {epoch : UInt64} : checkMaterial (material package member epoch) = .ok () := rfl

theorem recordedEpoch_congr (h : shown view' = shown view) : recordedEpoch view' = recordedEpoch view := by
  rw [recordedEpoch, recordedEpoch, h]

theorem recordedEpoch_eq_none (h : shown view = none) : recordedEpoch view = none := by
  rw [recordedEpoch, h]

theorem recordedEpoch_generation
    (h : shown view = some (shownGeneration generation (material package member document.epoch)))
    (hcarries : platform.Carries package member document) : recordedEpoch view = some document.epoch := by
  have hfile : find (fileEntries (material package member document.epoch)) EPOCH_RECORD_FILE =
      some (.file (renderEpochRecord document.epoch) true) := rfl
  rw [recordedEpoch, h]
  simp only [shownGeneration, generationNode, hfile, parseEpochRecord_render hcarries.epoch_ne_zero]
  rfl

/-- A root that shows a generation of a package. -/
theorem installedFrom_of_shown
    (h : shown d.root = some (shownGeneration generation (material package member document.epoch))) :
    d.InstalledFrom generation (material package member document.epoch) :=
  ⟨checkMaterial_material, (of_shown_eq_generation h).1, (of_shown_eq_generation h).2⟩

theorem metadata_of_shown {files : List GenerationFile} (h : shown d.root = some (shownGeneration generation files)) :
    d.metadata surroundings.stat ACTIVE_LINK = .ok () := by
  obtain ⟨hlink, hgen⟩ := of_shown_eq_generation h
  simp only [Disk.metadata, hlink, hgen, generationNode]

theorem find_eq_none_of_shown (h : shown view = none) : find view ACTIVE_LINK = none := by
  rwa [shown, Option.map_eq_none_iff] at h

theorem value_tryRead {dir name : Bytes} :
    (tryRead dir name).value (lookDevice platform surroundings) d = .ok (d.read surroundings.elsewhere dir name) := rfl

theorem value_readActiveEpoch_generation
    (h : shown d.root = some (shownGeneration generation (material package member document.epoch)))
    (hcarries : platform.Carries package member document) :
    (readActiveEpoch root).value (lookDevice platform surroundings) d = .ok (some document.epoch) := by
  have hread : d.read surroundings.elsewhere ACTIVE_LINK EPOCH_RECORD_FILE = .ok (renderEpochRecord document.epoch) :=
    (installedFrom_of_shown h).read_iff.mpr (by simp [material])
  have hstat : (tryMetadata ACTIVE_LINK).value (lookDevice platform surroundings) d = .ok (.ok ()) :=
    congrArg Except.ok (metadata_of_shown h)
  rw [readActiveEpoch, Prog.value_bind, hstat, Checks.ok_bind]
  dsimp only
  rw [Prog.value_bind, value_tryRead, hread, Checks.ok_bind]
  dsimp only
  rw [Prog.value_lift, parseEpochRecord_render hcarries.epoch_ne_zero]
  rfl

theorem value_readActiveEpoch_none (h : shown d.root = none) :
    (readActiveEpoch root).value (lookDevice platform surroundings) d = .ok none := by
  have hstat : (tryMetadata ACTIVE_LINK).value (lookDevice platform surroundings) d = .ok (.error .notFound) := by
    refine congrArg Except.ok ?_
    show d.metadata surroundings.stat ACTIVE_LINK = _
    rw [Disk.metadata, find_eq_none_of_shown h]
  rw [readActiveEpoch, Prog.value_bind, hstat, Checks.ok_bind]
  rfl

/-- The code reads what is recorded. -/
theorem Disk.Keeps.readActiveEpoch (h : d.Keeps platform.Good) :
    (readActiveEpoch root).value (lookDevice platform surroundings) d = .ok (recordedEpoch d.root) := by
  rcases h.shown Disk.mem_views_root with hnone | ⟨generation, _, hshown, package, member, document, rfl, hcarries⟩
  · rw [value_readActiveEpoch_none hnone, recordedEpoch_eq_none hnone]
  · rw [value_readActiveEpoch_generation hshown hcarries, recordedEpoch_generation hshown hcarries]

/-- The active generation reads as its document, its epoch and a trust set. -/
theorem value_readActiveGeneration
    (h : shown d.root = some (shownGeneration generation (material package member document.epoch)))
    (hcarries : platform.Carries package member document) :
    ∃ trust, (readActiveGeneration platform.lib root).value (lookDevice platform surroundings) d =
        .ok ⟨document, document.epoch, trust⟩ ∧ document.Makes platform.lib trust := by
  obtain ⟨trust, hmaterial, hmakes⟩ := hcarries.generationMaterial
  have hread : d.read surroundings.elsewhere ACTIVE_LINK (asBytes TRUST_SET_MEMBER) = .ok member :=
    (installedFrom_of_shown h).read_iff.mpr (by simp [material])
  refine ⟨trust, ?_, hmakes⟩
  rw [readActiveGeneration, Prog.value_bind, value_readActiveEpoch_generation h hcarries, Checks.ok_bind]
  dsimp only
  rw [readGenerationMaterial, Prog.value_bind, value_tryRead, hread, Checks.ok_bind]
  exact Prog.value_lift.trans hmaterial

theorem value_activeGenerationIndex {files : List GenerationFile}
    (h : shown d.root = some (shownGeneration generation files)) :
    (activeGenerationIndex root).value (lookDevice platform surroundings) d = .ok (some generation) := by
  have hlink : (tryReadLink ACTIVE_LINK).value (lookDevice platform surroundings) d = .ok (.ok (generationName generation)) := by
    refine congrArg Except.ok ?_
    show LookOp.run platform surroundings (.readLink ACTIVE_LINK) d = _
    rw [LookOp.run, (of_shown_eq_generation h).1]
  rw [activeGenerationIndex, Prog.value_bind, hlink, Checks.ok_bind]
  dsimp only
  rw [parseGeneration_generationName]
  rfl

theorem value_activeGenerationIndex_none (h : shown d.root = none) :
    (activeGenerationIndex root).value (lookDevice platform surroundings) d = .ok none := by
  have hlink : (tryReadLink ACTIVE_LINK).value (lookDevice platform surroundings) d = .ok (.error .notFound) := by
    refine congrArg Except.ok ?_
    show LookOp.run platform surroundings (.readLink ACTIVE_LINK) d = _
    rw [LookOp.run, find_eq_none_of_shown h]
  rw [activeGenerationIndex, Prog.value_bind, hlink, Checks.ok_bind]
  rfl

theorem judgeDelivered_unchanged {admitted : AdmittedGeneration}
    (h : (judgeDelivered platform.lib root package).value (lookDevice platform surroundings) d =
      .ok (.unchanged admitted)) :
    ∃ generation active,
      (activeGenerationIndex root).value (lookDevice platform surroundings) d = .ok (some generation) ∧
      (readActiveGeneration platform.lib root).value (lookDevice platform surroundings) d = .ok active ∧
      d.read surroundings.elsewhere ACTIVE_LINK GENERATION_PACKAGE_FILE = .ok package ∧
      admitted = ⟨⟨generation, false⟩, active.epoch, active.document⟩ := by
  rw [judgeDelivered, Prog.value_bind] at h
  obtain ⟨generation, hgeneration, h⟩ := Checks.bind_ok h
  cases generation with
  | none => cases h
  | some generation =>
  dsimp only at h
  rw [Prog.value_bind] at h
  obtain ⟨active, hactive, h⟩ := Checks.bind_ok h
  rw [Prog.value_bind, value_tryRead] at h
  obtain ⟨stored, hstored, h⟩ := Checks.bind_ok h
  have hstored := Except.ok.inj hstored
  cases stored with
  | error kind => cases h
  | ok stored =>
  dsimp only at h
  split at h
  · next heq =>
    cases h
    exact ⟨generation, active, hgeneration, hactive, heq ▸ hstored, rfl⟩
  rw [Prog.value_bind, value_extractMember] at h
  obtain ⟨member, -, h⟩ := Checks.bind_ok h
  split at h
  · cases h
  rw [Prog.value_bind, Prog.value_lift] at h
  obtain ⟨_, -, h⟩ := Checks.bind_ok h
  rw [Prog.value_bind, Prog.value_lift] at h
  obtain ⟨_, -, h⟩ := Checks.bind_ok h
  rw [Prog.value_bind, Prog.value_lift] at h
  obtain ⟨_, -, h⟩ := Checks.bind_ok h
  rw [Prog.value_bind, Prog.value_lift] at h
  obtain ⟨_, -, h⟩ := Checks.bind_ok h
  cases h

/-- On a tree that is kept, a delivered package is judged against what is recorded. -/
theorem Disk.Keeps.judgeDelivered {judgement : Judgement} (hkeeps : d.Keeps platform.Good)
    (h : (judgeDelivered platform.lib root package).value (lookDevice platform surroundings) d = .ok judgement) :
    ∃ recorded, recordedEpoch d.root = some recorded ∧
      match judgement with
      | .unchanged admitted => admitted.activation.changed = false ∧ admitted.epoch = recorded
      | .install verified => verified.From platform package ∧ recorded < verified.epoch := by
  rcases hkeeps.shown Disk.mem_views_root with hnone | ⟨generation, _, hshown, package₀, member, document, rfl, hcarries⟩
  · rw [DeployCore.judgeDelivered, Prog.value_bind, value_activeGenerationIndex_none hnone, Checks.ok_bind] at h
    cases h
  obtain ⟨trust, hactive, hmakes⟩ := @value_readActiveGeneration _ surroundings root _ _ _ _ _ hshown hcarries
  refine ⟨document.epoch, recordedEpoch_generation hshown hcarries, ?_⟩
  cases judgement with
  | unchanged admitted =>
    obtain ⟨_, active, -, hactive', -, rfl⟩ := judgeDelivered_unchanged h
    cases hactive.symm.trans hactive'
    exact ⟨rfl, rfl⟩
  | install verified =>
    obtain ⟨active, hactive', hdelivered, -⟩ := judgeDelivered_install h
    cases hactive.symm.trans hactive'
    exact ⟨hdelivered.carried, hmakes.epoch ▸ hdelivered.lt⟩

/-- On a tree that is kept, only a tree that records nothing takes a first generation. -/
theorem Disk.Keeps.judgeEmptyTree {pin : Option String} {source : Look Bytes} {verified : VerifiedGeneration}
    (hkeeps : d.Keeps platform.Good)
    (h : (judgeEmptyTree platform.lib root pin source).value (lookDevice platform surroundings) d =
      .ok (package, verified)) :
    recordedEpoch d.root = none ∧ verified.From platform package := by
  obtain ⟨hnone, hfrom⟩ := judgeEmptyTree_ok h
  refine ⟨?_, hfrom⟩
  rcases hkeeps.shown Disk.mem_views_root with hshown | ⟨generation, files, hshown, -⟩
  · exact recordedEpoch_eq_none hshown
  · cases hnone.symm.trans (metadata_of_shown hshown)

end Recorded

/-! ### The runs of a door -/

section Runs
variable {α β : Type} {platform : Platform} {surroundings : Surroundings} {root package : Bytes}
  {faulty : ReleaseTrustError → Prop}
  {w w' : World TrustOp TrustOp.Result Disk}

/-- The operations since are looks. -/
def LookedSince (w w' : World TrustOp TrustOp.Result Disk) : Prop :=
  w'.state = w.state ∧ ∃ events : List (Event LookOp LookOp.Result Disk),
    w'.events = w.events ++ events.map (Event.via TrustOp.look)

theorem runs_look {p : Look α} {out : Outcome ReleaseTrustError α}
    (hgives : p.GivesUp (lookDevice platform surroundings) faulty)
    (h : Runs (trustDevice platform surroundings) (look p) w out w') :
    LookedSince w w' ∧ (∀ a, out = .ok a → p.value (lookDevice platform surroundings) w.state = .ok a) ∧
      ∀ e, out = .error e → faulty e ∨ p.value (lookDevice platform surroundings) w.state = .error e := by
  rw [← World.via_nil (f := TrustOp.look) (w := w)] at h
  obtain ⟨w₁, hvia, rfl⟩ := runs_via.mp h
  have hruns : Runs (lookDevice platform surroundings) p ⟨w.state, []⟩ out w₁ := hvia
  have hstate := hruns.looks lookDevice_looks
  exact ⟨⟨hstate, w₁.events, rfl⟩, hruns.ends lookDevice_looks hgives⟩

/-- The call of the engine that a door makes of what it verified. -/
structure InstallCall (platform : Platform) (surroundings : Surroundings) (root package : Bytes)
    (verified : VerifiedGeneration) (w w' : World TrustOp TrustOp.Result Disk) (c : Call ReleaseTrustError) : Prop where
  tree : c.tree = ⟨root, none⟩
  host : c.host = releaseHost platform surroundings
  material : c.material = material package verified.member verified.epoch
  before : c.before = w.state
  after : c.after = w'.state
  events : w'.events = w.events ++ c.events.map (Event.via TrustOp.engine)
  went : c.Went

theorem runs_installVerified {verified : VerifiedGeneration} {out : Outcome ReleaseTrustError AdmittedGeneration}
    (h : Runs (trustDevice platform surroundings) (installVerified root package verified) w out w') :
    ∃ c, InstallCall platform surroundings root package verified w w' c ∧
      (∀ admitted, out = .ok admitted → c.outcome = .ok admitted.activation ∧ admitted.epoch = verified.epoch ∧
        admitted.document = verified.document) ∧
      ∀ e, out = .error e → c.outcome = .error e := by
  have hinstall : ∀ {out w₂}, Runs (trustDevice platform surroundings)
      (installMaterial root package verified.member verified.epoch) w out w₂ →
      ∃ c, InstallCall platform surroundings root package verified w w₂ c ∧ c.outcome = out := by
    intro out w₂ hruns
    rw [← World.via_nil (f := TrustOp.engine) (w := w)] at hruns
    obtain ⟨w₁, hwent, rfl⟩ := runs_via.mp hruns
    exact ⟨⟨⟨root, none⟩, releaseHost platform surroundings, material package verified.member verified.epoch, w.state,
      w₁.events, out, w₁.state⟩, ⟨rfl, rfl, rfl, rfl, rfl, rfl, hwent⟩, rfl⟩
  rcases runs_bind.mp h with ⟨activation, w₂, hruns, hpure⟩ | ⟨e, rfl, hruns⟩ | ⟨rfl, hruns⟩
  · obtain ⟨c, hcall, houtcome⟩ := hinstall hruns
    cases hpure with
    | ret => exact ⟨c, hcall, fun _ hok => by cases hok; exact ⟨houtcome, rfl, rfl⟩, fun _ herror => by cases herror⟩
    | crash => exact ⟨c, hcall, fun _ hok => (by cases hok), fun _ herror => by cases herror⟩
  · obtain ⟨c, hcall, houtcome⟩ := hinstall hruns
    exact ⟨c, hcall, fun _ hok => (by cases hok), fun _ herror => by cases herror; exact houtcome⟩
  · obtain ⟨c, hcall, -⟩ := hinstall hruns
    exact ⟨c, hcall, fun _ hok => (by cases hok), fun _ herror => by cases herror⟩

/-- A door refuses at its looks, or goes on from what they return. -/
theorem runs_judged {judge : Look α} {f : α → Admission ReleaseTrustError β} {out : Outcome ReleaseTrustError β}
    (hgives : judge.GivesUp (lookDevice platform surroundings) faulty)
    (h : Runs (trustDevice platform surroundings) (look judge >>= f) w out w') :
    (LookedSince w w' ∧ (∀ b, out ≠ .ok b) ∧
        ∀ e, out = .error e → faulty e ∨ judge.value (lookDevice platform surroundings) w.state = .error e) ∨
      ∃ a w₁, LookedSince w w₁ ∧ judge.value (lookDevice platform surroundings) w.state = .ok a ∧
        Runs (trustDevice platform surroundings) (f a) w₁ out w' := by
  rcases runs_bind.mp h with ⟨a, w₁, hruns, hrest⟩ | ⟨e, rfl, hruns⟩ | ⟨rfl, hruns⟩
  · obtain ⟨hlooked, hvalue, -⟩ := runs_look hgives hruns
    exact .inr ⟨a, w₁, hlooked, hvalue a rfl, hrest⟩
  · obtain ⟨hlooked, -, hvalue⟩ := runs_look hgives hruns
    exact .inl ⟨hlooked, fun _ hok => (by cases hok), fun _ herror => by cases herror; exact hvalue e rfl⟩
  · exact .inl ⟨(runs_look hgives hruns).1, fun _ hok => (by cases hok), fun _ herror => by cases herror⟩

end Runs

end DeployCore
