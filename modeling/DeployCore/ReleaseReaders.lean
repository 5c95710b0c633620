import DeployCore.ReleaseDoors

/-! # The readers and the doors of a release-trust tree

The state query, and the first step of each door: which tree states each takes for a generation, for an empty tree or
for neither. Absence is judged by a stat that follows `active` and by its name as a link, and the two differ where the
link dangles under a name that is no generation's. -/

namespace DeployCore
open Directory Crash

/-- What the state query reports. -/
structure ActiveGeneration where
  generation : UInt64
  epoch : UInt64
  deriving DecidableEq

section Steps
variable (lib : Externals) (root : Bytes)

/-- The one refusal of the common reader that is mapped is that of a link that dangles. -/
def readGenerationState : Look (Option ActiveGeneration) := do
  match ← activeGenerationIndex root with
  | none => pure none
  | some generation =>
    match ← (readActiveGeneration lib root).attempt with
    | .ok active => pure (some ⟨generation, active.epoch⟩)
    | .error .noActiveGeneration => pure none
    | .error e => .fail e

/-- The first step of `accept_generation`: the generation a delivery is judged against. -/
def activeGenerationStep : Look (UInt64 × ActiveGenerationMaterial) := do
  match ← activeGenerationIndex root with
  | none => .fail .noActiveGeneration
  | some generation => do
    let active ← readActiveGeneration lib root
    pure (generation, active)

/-- The tree state a seed and a bootstrap require: nothing is active. -/
def emptyTreeGate : Look Unit := do
  match ← tryMetadata ACTIVE_LINK with
  | .error .notFound => pure ()
  | .error kind => .fail (.io (activeLink root) (.os kind))
  | .ok () =>
    match ← tryReadLink ACTIVE_LINK with
    | .ok target => .fail (.activeGenerationPresent (parseGeneration target))
    | .error _ => .fail (.activeGenerationPresent none)

/-- The tree state a re-bootstrap requires: an epoch is recorded. -/
def recordedGate : Look UInt64 := do
  match ← readActiveEpoch root with
  | none => .fail .noActiveGeneration
  | some recorded => pure recorded

end Steps

/-! ### The doors begin with these steps -/

section Doors
variable {lib : Externals} {root package : Bytes} {pin : Option String}

/-- What is judged of a delivered package under the active generation. -/
def judgeAgainst (lib : Externals) (root package : Bytes) (found : UInt64 × ActiveGenerationMaterial) : Look Judgement := do
  match ← tryRead ACTIVE_LINK GENERATION_PACKAGE_FILE with
  | .error kind => .fail (.io (joinPath (activeLink root) GENERATION_PACKAGE_FILE) (.os kind))
  | .ok stored =>
    if stored = package then pure (.unchanged ⟨⟨found.1, false⟩, found.2.epoch, found.2.document⟩)
    else do
      let member ← extractMember package
      match provisionalAnchorsAndEpoch lib member with
      | none => .fail .provisionalDecode
      | some (_, deliveredEpoch) => do
        Prog.lift (checkDeliveredEpochCarriers lib package deliveredEpoch)
        let request ← Prog.lift
          ((VerifyRequest.forTrust (toString deliveredEpoch) (memberDigest lib member) deliveredEpoch).mapError .input)
        Prog.lift (verifyUnder lib (.ofBytes package) found.2.trust request)
        let document ← Prog.lift ((readTrustSetDocument lib member).mapError .document)
        pure (.install ⟨document, document.epoch, member⟩)

theorem judgeDelivered_begins : ∃ rest, judgeDelivered lib root package = activeGenerationStep lib root >>= rest := by
  refine ⟨judgeAgainst lib root package, ?_⟩
  rw [judgeDelivered, activeGenerationStep, Prog.bind_assoc]
  congr 1
  funext index
  rcases index with _ | generation
  · rfl
  · dsimp only
    rw [Prog.bind_assoc]
    rfl

theorem judgeEmptyTree_begins {source : Look Bytes} :
    ∃ rest, judgeEmptyTree lib root pin source = emptyTreeGate root >>= fun () => source >>= rest := by
  refine ⟨fun package => do
    let verified ← verifySelfAdmitted lib package
    Prog.lift (checkFingerprintPin lib pin verified.member)
    pure (package, verified), ?_⟩
  rw [judgeEmptyTree, emptyTreeGate, Prog.bind_assoc]
  congr 1
  funext stat
  rcases stat with (_ | _ | _) | ⟨⟩
  · rfl
  · rfl
  · rfl
  · dsimp only
    rw [Prog.bind_assoc]
    congr 1
    funext link
    rcases link with _ | _ <;> rfl

theorem judgeRebootstrap_begins {assertedEpoch : UInt64} :
    ∃ rest, judgeRebootstrap lib root package assertedEpoch pin = recordedGate root >>= rest := by
  refine ⟨fun recorded =>
    if assertedEpoch ≠ recorded then .fail (.rebootstrapEpochMismatch assertedEpoch recorded)
    else do
      let marked ← requirePinMarkerSet root
      if marked && pin.isNone then .fail .fingerprintPinRequired
      else do
        let verified ← verifySelfAdmitted lib package
        Prog.lift (checkFingerprintPin lib pin verified.member)
        if verified.epoch ≤ recorded then .fail (.staleRebootstrap verified.epoch recorded)
        else pure verified, ?_⟩
  rw [judgeRebootstrap, recordedGate, Prog.bind_assoc]
  congr 1
  funext epoch
  rcases epoch with _ | recorded <;> rfl

end Doors

/-! ### Every state of the tree -/

section States
variable {platform : Platform} {surroundings : Surroundings} {root : Bytes} {d : Disk}

/-- `active` is a link whose target is no generation's name. -/
def Disk.NotCanonical (d : Disk) : Prop :=
  ∃ target, find d.root ACTIVE_LINK = some (.link target) ∧ parseGeneration target = none

theorem value_tryMetadata {name : Bytes} : (tryMetadata name).value (lookDevice platform surroundings) d =
    .ok (d.metadata surroundings.stat name) := rfl

theorem value_tryReadLink {name : Bytes} : (tryReadLink name).value (lookDevice platform surroundings) d =
    .ok (LookOp.run platform surroundings (.readLink name) d) := rfl

/-- Nothing is recorded exactly where the stat finds nothing. -/
theorem value_readActiveEpoch_none_iff :
    (readActiveEpoch root).value (lookDevice platform surroundings) d = .ok none ↔
      d.metadata surroundings.stat ACTIVE_LINK = .error .notFound := by
  rw [readActiveEpoch, Prog.value_bind, value_tryMetadata, Checks.ok_bind]
  rcases d.metadata surroundings.stat ACTIVE_LINK with (_ | _ | _) | ⟨⟩
  · simp
  · simp
  · simp
  · dsimp only
    rw [Prog.value_bind, value_tryRead, Checks.ok_bind]
    rcases d.read surroundings.elsewhere ACTIVE_LINK EPOCH_RECORD_FILE with (_ | _ | _) | bytes
    · simp
    · simp
    · simp
    · rcases hparse : parseEpochRecord bytes with e | epoch <;> simp [hparse, Except.map]

theorem value_emptyTreeGate_iff :
    (emptyTreeGate root).value (lookDevice platform surroundings) d = .ok () ↔
      d.metadata surroundings.stat ACTIVE_LINK = .error .notFound := by
  rw [emptyTreeGate, Prog.value_bind, value_tryMetadata, Checks.ok_bind]
  rcases d.metadata surroundings.stat ACTIVE_LINK with (_ | _ | _) | ⟨⟩
  · simp
  · simp
  · simp
  · dsimp only
    rw [Prog.value_bind, value_tryReadLink, Checks.ok_bind]
    rcases LookOp.run platform surroundings (.readLink ACTIVE_LINK) d with _ | _ <;> simp

theorem value_recordedGate {recorded : UInt64} :
    (recordedGate root).value (lookDevice platform surroundings) d = .ok recorded ↔
      (readActiveEpoch root).value (lookDevice platform surroundings) d = .ok (some recorded) := by
  rw [recordedGate, Prog.value_bind]
  rcases (readActiveEpoch root).value (lookDevice platform surroundings) d with e | _ | epoch
  · simp [bind, Except.bind]
  · simp [bind, Except.bind]
  · simp [bind, Except.bind]

/-! No reader of a generation that is there says that there is none. -/

theorem refuses_parseEpochRecord {bytes : Bytes} : Checks.Refuses (· ≠ .noActiveGeneration) (parseEpochRecord bytes) := by
  unfold parseEpochRecord
  refine .ite (.error ?_) (.ite (.error nofun) (.ite (.error nofun) ?_))
  · split_ifs <;> exact nofun
  · split
    · refine .error ?_
      split_ifs <;> exact nofun
    · refine .ite (.error nofun) (.ite (.error nofun) ?_)
      split
      · exact .ok _
      · exact .error nofun

theorem refuses_generationMaterial {lib : Externals} {epoch : UInt64} {member : Bytes} :
    Checks.Refuses (· ≠ .noActiveGeneration) (generationMaterial lib epoch member) := by
  have hmapped {α β : Type} {x : Except α β} {f : α → ReleaseTrustError} (hf : ∀ e, f e ≠ .noActiveGeneration) :
      Checks.Refuses (· ≠ .noActiveGeneration) (x.mapError f) := by
    rcases x with e | b
    · exact .error (hf e)
    · exact .ok b
  refine .bind (hmapped fun _ => nofun) fun document => .bind (.ite (.ok _) (.error nofun)) fun _ => ?_
  split
  · exact .error nofun
  · exact .bind (hmapped fun _ => nofun) fun trust => .ok _

/-- The common reader finds no generation exactly where none is recorded. -/
theorem value_readActiveGeneration_none_iff :
    (readActiveGeneration platform.lib root).value (lookDevice platform surroundings) d = .error .noActiveGeneration ↔
      (readActiveEpoch root).value (lookDevice platform surroundings) d = .ok none := by
  rw [readActiveGeneration, Prog.value_bind]
  rcases hepoch : (readActiveEpoch root).value (lookDevice platform surroundings) d with e | _ | epoch
  · have hne : e ≠ .noActiveGeneration := by
      rintro rfl
      rw [readActiveEpoch, Prog.value_bind, value_tryMetadata, Checks.ok_bind] at hepoch
      rcases hstat : d.metadata surroundings.stat ACTIVE_LINK with (_ | _ | _) | ⟨⟩ <;> rw [hstat] at hepoch
      · cases hepoch
      · cases hepoch
      · cases hepoch
      · dsimp only at hepoch
        rw [Prog.value_bind, value_tryRead, Checks.ok_bind] at hepoch
        rcases hread : d.read surroundings.elsewhere ACTIVE_LINK EPOCH_RECORD_FILE with (_ | _ | _) | bytes <;>
          rw [hread] at hepoch
        · cases hepoch
        · cases hepoch
        · cases hepoch
        · dsimp only at hepoch
          rw [Prog.value_lift] at hepoch
          exact refuses_parseEpochRecord.map _ hepoch rfl
    simp [bind, Except.bind, hne]
  · simp [bind, Except.bind]
  · rw [Checks.ok_bind]
    dsimp only
    rw [readGenerationMaterial, Prog.value_bind, value_tryRead, Checks.ok_bind]
    rcases d.read surroundings.elsewhere ACTIVE_LINK (asBytes TRUST_SET_MEMBER) with e | member
    · simp
    · dsimp only
      rw [Prog.value_lift]
      have hne := @refuses_generationMaterial platform.lib epoch member
      simp only [Except.ok.injEq, reduceCtorEq, iff_false]
      exact fun h => hne _ h rfl

/-- What the name of `active` tells. -/
theorem activeGenerationIndex_cases :
    (d.metadata surroundings.stat ACTIVE_LINK = .error .notFound ∧ ¬d.NotCanonical ∧
      (activeGenerationIndex root).value (lookDevice platform surroundings) d = .ok none) ∨
    (¬d.NotCanonical ∧ ∃ generation,
      (activeGenerationIndex root).value (lookDevice platform surroundings) d = .ok (some generation)) ∨
    ((d.metadata surroundings.stat ACTIVE_LINK = .error .notFound → d.NotCanonical) ∧
      ∃ e, (activeGenerationIndex root).value (lookDevice platform surroundings) d = .error e) := by
  rw [activeGenerationIndex, Prog.value_bind, value_tryReadLink, Checks.ok_bind, LookOp.run]
  rcases hactive : find d.root ACTIVE_LINK with _ | node
  · refine .inl ⟨by rw [Disk.metadata, hactive], ?_, rfl⟩
    rintro ⟨target, hlink, -⟩
    rw [hactive] at hlink
    cases hlink
  · rcases node with ⟨bytes, flushed⟩ | target | ⟨entries, flushed⟩
    · refine .inr (.inr ⟨fun hstat => ?_, _, rfl⟩)
      rw [Disk.metadata, hactive] at hstat
      cases hstat
    · rcases hparse : parseGeneration target with _ | generation
      · exact .inr (.inr ⟨fun _ => ⟨target, hactive, hparse⟩, _, by simp [hparse]; rfl⟩)
      · refine .inr (.inl ⟨?_, generation, by simp [hparse]⟩)
        rintro ⟨target', hlink, hnone⟩
        rw [hactive] at hlink
        cases hlink
        rw [hparse] at hnone
        cases hnone
    · refine .inr (.inr ⟨fun hstat => ?_, _, rfl⟩)
      rw [Disk.metadata, hactive] at hstat
      cases hstat

theorem value_readGenerationState_some {generation epoch : UInt64} :
    (readGenerationState platform.lib root).value (lookDevice platform surroundings) d = .ok (some ⟨generation, epoch⟩) ↔
      ∃ active, (activeGenerationStep platform.lib root).value (lookDevice platform surroundings) d =
        .ok (generation, active) ∧ active.epoch = epoch := by
  rw [readGenerationState, activeGenerationStep, Prog.value_bind, Prog.value_bind]
  rcases (activeGenerationIndex root).value (lookDevice platform surroundings) d with e | _ | index
  · simp [bind, Except.bind]
  · simp [bind, Except.bind]
  · rw [Checks.ok_bind, Checks.ok_bind]
    dsimp only
    rw [Prog.value_bind, Prog.value_attempt, Checks.ok_bind, Prog.value_bind]
    rcases (readActiveGeneration platform.lib root).value (lookDevice platform surroundings) d with e | active
    · rcases e <;> simp [bind, Except.bind]
    · simp [bind, Except.bind]

theorem value_readGenerationState_none_iff :
    (readGenerationState platform.lib root).value (lookDevice platform surroundings) d = .ok none ↔
      (readActiveEpoch root).value (lookDevice platform surroundings) d = .ok none ∧ ¬d.NotCanonical := by
  rw [readGenerationState, Prog.value_bind]
  rcases @activeGenerationIndex_cases platform surroundings root d with
    ⟨hstat, hlink, hindex⟩ | ⟨hlink, generation, hindex⟩ | ⟨hlink, e, hindex⟩
  · rw [hindex, value_readActiveEpoch_none_iff]
    exact ⟨fun _ => ⟨hstat, hlink⟩, fun _ => rfl⟩
  · rw [hindex, Checks.ok_bind, ← value_readActiveGeneration_none_iff]
    dsimp only
    rw [Prog.value_bind, Prog.value_attempt, Checks.ok_bind]
    rcases (readActiveGeneration platform.lib root).value (lookDevice platform surroundings) d with e | active
    · rcases e <;> simp [hlink]
    · simp
  · rw [hindex, value_readActiveEpoch_none_iff]
    refine ⟨fun h => ?_, fun h => absurd (hlink h.1) h.2⟩
    cases h

/-- On every state of a tree the readers and the doors agree, but that the state query refuses a dangling link that
names no generation. -/
theorem readers_agree (platform : Platform) (surroundings : Surroundings) (root : Bytes) (d : Disk) :
    (∀ generation epoch, (readGenerationState platform.lib root).value (lookDevice platform surroundings) d =
      .ok (some ⟨generation, epoch⟩) ↔ ∃ active,
        (activeGenerationStep platform.lib root).value (lookDevice platform surroundings) d = .ok (generation, active) ∧
          active.epoch = epoch) ∧
    ((readGenerationState platform.lib root).value (lookDevice platform surroundings) d = .ok none ↔
      (readActiveEpoch root).value (lookDevice platform surroundings) d = .ok none ∧ ¬d.NotCanonical) ∧
    ((emptyTreeGate root).value (lookDevice platform surroundings) d = .ok () ↔
      (readActiveEpoch root).value (lookDevice platform surroundings) d = .ok none) ∧
    ¬((emptyTreeGate root).value (lookDevice platform surroundings) d = .ok () ∧
      ∃ recorded, (recordedGate root).value (lookDevice platform surroundings) d = .ok recorded) := by
  refine ⟨fun generation epoch => value_readGenerationState_some, value_readGenerationState_none_iff, ?_, ?_⟩
  · rw [value_emptyTreeGate_iff, value_readActiveEpoch_none_iff]
  · rintro ⟨hempty, recorded, hrecorded⟩
    rw [value_emptyTreeGate_iff, ← value_readActiveEpoch_none_iff] at hempty
    rw [value_recordedGate, hempty] at hrecorded
    cases hrecorded

end States

/-- A tree whose `active` leads to a name that nothing has and no generation could. -/
def foreignTree : Disk := ⟨[(ACTIVE_LINK, .link (asBytes "gone"))], []⟩

/-- A platform that reads nothing, in surroundings that hold nothing. -/
def barePlatform : Platform where
  lib := ⟨fun _ => none, fun _ => none, fun _ => [], fun _ _ _ _ => false⟩
  decode _ := .error .unreadableFrame
  scratch := []

def bareSurroundings : Surroundings where
  elsewhere _ := .error .notFound
  stat _ := .error .notFound
  reopen _ := .error .notFound

theorem readers_differ :
    (readActiveEpoch []).value (lookDevice barePlatform bareSurroundings) foreignTree = .ok none ∧
    (readGenerationState barePlatform.lib []).value (lookDevice barePlatform bareSurroundings) foreignTree =
      .error (.activeNotCanonical (asBytes "gone")) :=
  ⟨rfl, rfl⟩

end DeployCore
