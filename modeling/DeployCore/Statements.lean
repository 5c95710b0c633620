import DeployCore.Trust
import DeployCore.VerifyError

/-! # The statements a manifest makes

The checks an authenticated manifest passes, in their order: completeness, safe identifiers, withdrawal, the exact
build target, the epoch, and the passes over the image declarations. `checkStatements_ok` is what a manifest that
passes them all satisfies. -/

namespace DeployCore

def MAX_BUILD_IDENTIFIER_BYTES : Nat := 128

def isSafeBuildIdentifier (value : String) : Bool :=
  !(value.toList.isEmpty || MAX_BUILD_IDENTIFIER_BYTES < byteLen value) &&
    !(value.toList.head? == some '.' || value.toList.head? == some '-') &&
    value.toList.all fun c =>
      isAsciiAlphanumeric c || c == '.' || c == '-' || c == '_' || c == '+' || c == '~' || c == ':'

/-- The archive member an artifact requires, whatever its kind. -/
def requiredMember (artifact : PayloadArtifact) : String :=
  artifact.archivePath

/-- The names the manifest binds, safe and distinct. -/
def checkBoundNames (members : List ArchiveMember) : Except VerifyError (List String) :=
  Checks.collectDistinct ArchiveMember.name
    (fun member => if isSafeArchivePath member.name then .ok () else .error (.unsafePath member.name))
    (fun member => .duplicatePath member.name) (fun member => .ok member.name) [] members

/-- The bound member list and the artifacts correspond one to one. -/
def checkCompleteness (manifest : PayloadManifest) : Except VerifyError Unit :=
  match manifest.archiveMembers with
  | none => .error (.invalidManifest .missingArchiveMembers)
  | some members => do
    let bound ← checkBoundNames members
    let claimed := manifest.artifacts.map (·.archivePath)
    Checks.each (fun name => if name ∈ claimed then .ok () else .error (.unlistedMember name)) bound
    if manifest.artifacts.isEmpty then .error (.missingRequiredMember none)
    else
      Checks.each (fun artifact => if requiredMember artifact ∈ bound then .ok ()
        else .error (.missingRequiredMember (some (requiredMember artifact)))) manifest.artifacts

def checkIdentifier (field : BuildIdentifier) (value : String) : Except VerifyError Unit :=
  if isSafeBuildIdentifier value then .ok () else .error (.unsafeBuildIdentifier field value)

/-- `commit.as_deref().unwrap_or_default()`. -/
def PayloadArtifact.commitText (artifact : PayloadArtifact) : String :=
  artifact.commit.getD ""

def checkIdentifiers (manifest : PayloadManifest) : Except VerifyError Unit :=
  Checks.each (fun artifact => do
    checkIdentifier .component artifact.component
    checkIdentifier .version artifact.version
    checkIdentifier .commit artifact.commitText) manifest.artifacts

def checkWithdrawal (manifest : PayloadManifest) (trust : TrustSet) : Except VerifyError Unit :=
  Checks.each (fun artifact =>
    if trust.isWithdrawn artifact.component artifact.version artifact.commitText then
      .error (.withdrawnBuild artifact.component artifact.version artifact.commitText)
    else .ok ()) manifest.artifacts

def checkTarget (manifest : PayloadManifest) (request : VerifyRequest) : Except VerifyError Unit :=
  Checks.each (fun artifact =>
    if artifact.component ≠ request.target ∨ artifact.version ≠ request.version ∨
        artifact.commitText ≠ request.commit then
      .error (.targetMismatch artifact.component artifact.version artifact.commitText)
    else .ok ()) manifest.artifacts

def checkEpoch (request : VerifyRequest) (trust : TrustSet) : Except VerifyError Unit :=
  match request.epoch with
  | none => .ok ()
  | some delivered => if delivered > trust.epoch then .ok () else .error (.staleTrustSet delivered trust.epoch)

/-- The artifacts that carry a declaration, in manifest order. -/
def declaredImages (manifest : PayloadManifest) : List (PayloadArtifact × ImageDeclaration) :=
  manifest.artifacts.filterMap fun artifact => artifact.image.map fun image => (artifact, image)

/-- Every reference a manifest declares, with its artifact and declaration. -/
def declaredReferences (manifest : PayloadManifest) : List (PayloadArtifact × ImageDeclaration × String) :=
  (declaredImages manifest).flatMap fun (artifact, image) => image.publicRefs.map fun reference => (artifact, image, reference)

def ImageArchitecture.forTarget : TargetArch → ImageArchitecture
  | .x86_64 => .amd64
  | .aarch64 => .arm64

def checkDeclaredPlatforms (manifest : PayloadManifest) : Except ImageVerifyError Unit :=
  Checks.each (fun (artifact, image) =>
    if image.platform.architecture ≠ .forTarget artifact.targetArch then
      .error (.platformMismatch artifact.archivePath artifact.targetArch image.platform.architecture)
    else .ok ()) (declaredImages manifest)

/-- A reference under the reserved registry is its declaration's own alias, under a managed lifecycle. -/
def checkReservedAliases (manifest : PayloadManifest) : Except ImageVerifyError Unit :=
  Checks.each (fun (artifact, image, reference) =>
    match parseTaggedReference reference with
    | .error _ => .ok ()
    | .ok parsed =>
      if parsed.host.map toAsciiLower ≠ RUNTIME_ALIAS_REGISTRY.toList then .ok ()
      else
        let expected := image.canonicalRuntimeAlias.toOption
        if expected ≠ some reference then
          .error (.nonCanonicalReservedReference artifact.archivePath reference expected)
        else if image.referenceLifecycle ≠ .managedRuntime then
          .error (.reservedReferenceLifecycle artifact.archivePath reference)
        else .ok ()) (declaredReferences manifest)

def conflictBetween (first later : ImageDeclaration) : Option ReferenceConflict :=
  if first.configDigest ≠ later.configDigest then some .configDigest
  else if first.platform ≠ later.platform then some .platform
  else if first.owner ≠ later.owner then some .owner
  else if first.referenceLifecycle ≠ later.referenceLifecycle then some .lifecycle
  else none

/-- Each reference against the first that has its normalized form; `assigned` are the first ones so far. -/
def checkReferenceConflictsFrom :
    List (NormalizedReference × PayloadArtifact × ImageDeclaration × String) →
      List (PayloadArtifact × ImageDeclaration × String) → Except ImageVerifyError Unit
  | _, [] => .ok ()
  | assigned, (artifact, image, reference) :: references =>
    match parseTaggedReference reference with
    | .error _ => checkReferenceConflictsFrom assigned references
    | .ok key =>
      match assigned.lookup key with
      | some (firstArtifact, firstImage, firstReference) =>
        match conflictBetween firstImage image with
        | some conflict =>
          .error (.conflictingReference artifact.archivePath reference firstArtifact.archivePath firstReference conflict)
        | none => checkReferenceConflictsFrom assigned references
      | none => checkReferenceConflictsFrom ((key, artifact, image, reference) :: assigned) references

def checkReferenceConflicts (manifest : PayloadManifest) : Except ImageVerifyError Unit :=
  checkReferenceConflictsFrom [] (declaredReferences manifest)

def checkOwners (manifest : PayloadManifest) (request : VerifyRequest) : Except ImageVerifyError Unit :=
  match (declaredImages manifest).head?, request.namespaceName with
  | none, _ => .ok ()
  | some (first, _), none => .error (.missingNamespace first.archivePath)
  | some _, some name => do
    Checks.each (fun (artifact, image) =>
      if image.owner.namespaceName ≠ name then
        .error (.namespaceMismatch artifact.archivePath name image.owner.namespaceName)
      else .ok ()) (declaredImages manifest)
    Checks.each (fun (artifact, image) =>
      if image.owner.component ≠ request.target then
        .error (.ownerComponentMismatch artifact.archivePath request.target image.owner.component)
      else .ok ()) (declaredImages manifest)

def checkImages (manifest : PayloadManifest) (request : VerifyRequest) : Except ImageVerifyError Unit := do
  checkDeclaredPlatforms manifest
  checkReservedAliases manifest
  checkReferenceConflicts manifest
  checkOwners manifest request

/-- The post-parse checks as one unit; without a trust set, withdrawal and the epoch are not decided. -/
def checkStatements (manifest : PayloadManifest) (request : VerifyRequest) (trust : Option TrustSet) :
    Except VerifyError Unit := do
  checkCompleteness manifest
  checkIdentifiers manifest
  match trust with
  | some trust => checkWithdrawal manifest trust
  | none => .ok ()
  checkTarget manifest request
  match trust with
  | some trust => checkEpoch request trust
  | none => .ok ()
  (checkImages manifest request).mapError .image

/-! ### What the checks guarantee -/

/-- What a manifest that passes the checks states. -/
structure Stated (manifest : PayloadManifest) (request : VerifyRequest) (trust : TrustSet) : Prop where
  bound : ∃ members, manifest.archiveMembers = some members ∧ members ≠ [] ∧
    (members.map ArchiveMember.name).Nodup ∧
    ∀ name, name ∈ members.map ArchiveMember.name ↔ name ∈ manifest.artifacts.map PayloadArtifact.archivePath
  target : ∀ artifact ∈ manifest.artifacts,
    artifact.component = request.target ∧ artifact.version = request.version ∧ artifact.commitText = request.commit
  not_withdrawn : ∀ artifact ∈ manifest.artifacts,
    (artifact.component, artifact.version, artifact.commitText) ∉ trust.withdrawnBuilds
  epoch : ∀ delivered, request.epoch = some delivered → trust.epoch < delivered
  owner : ∀ artifact ∈ manifest.artifacts, ∀ image, artifact.image = some image →
    request.namespaceName = some image.owner.namespaceName ∧ image.owner.component = request.target

section
variable {manifest : PayloadManifest} {request : VerifyRequest} {trust : TrustSet}

theorem checkBoundNames_ok {members : List ArchiveMember} {bound : List String} (h : checkBoundNames members = .ok bound) :
    bound = members.map ArchiveMember.name ∧ bound.Nodup := by
  obtain ⟨-, -, hnodup, hnames⟩ := Checks.collectDistinct_ok h
  have hbound : members.map ArchiveMember.name = bound := by
    refine List.forall₂_eq_eq_eq ▸ List.forall₂_map_left_iff.mpr (hnames.imp fun _ _ hname => ?_)
    exact Except.ok.inj hname
  exact ⟨hbound.symm, hbound ▸ hnodup⟩

/-- The bound names are the artifacts' paths. -/
theorem checkCompleteness_ok (h : checkCompleteness manifest = .ok ()) :
    ∃ members, manifest.archiveMembers = some members ∧ members ≠ [] ∧ (members.map ArchiveMember.name).Nodup ∧
      ∀ name, name ∈ members.map ArchiveMember.name ↔ name ∈ manifest.artifacts.map PayloadArtifact.archivePath := by
  unfold checkCompleteness at h
  split at h
  · cases h
  next members hmembers =>
  obtain ⟨bound, hbound, h⟩ := Checks.bind_ok h
  obtain ⟨rfl, hnodup⟩ := checkBoundNames_ok hbound
  obtain ⟨_, hclaimed, h⟩ := Checks.bind_ok h
  split at h
  · cases h
  next hartifacts =>
  have hrequired := Checks.each_if_ok h
  have hmem (name : String) : name ∈ members.map ArchiveMember.name ↔
      name ∈ manifest.artifacts.map PayloadArtifact.archivePath := by
    refine ⟨Checks.each_if_ok hclaimed name, fun hname => ?_⟩
    obtain ⟨artifact, hartifact, rfl⟩ := List.mem_map.mp hname
    exact hrequired artifact hartifact
  refine ⟨members, hmembers, ?_, hnodup, hmem⟩
  rintro rfl
  obtain ⟨artifact, hartifact⟩ := List.exists_mem_of_ne_nil _ (by simpa using hartifacts)
  exact absurd ((hmem _).mpr (List.mem_map_of_mem hartifact)) List.not_mem_nil

theorem mem_declaredImages {artifact : PayloadArtifact} {image : ImageDeclaration} :
    (artifact, image) ∈ declaredImages manifest ↔ artifact ∈ manifest.artifacts ∧ artifact.image = some image := by
  simp only [declaredImages, List.mem_filterMap, Option.map_eq_some_iff, Prod.mk.injEq]
  constructor
  · rintro ⟨a, ha, i, hi, rfl, rfl⟩
    exact ⟨ha, hi⟩
  · rintro ⟨ha, hi⟩
    exact ⟨artifact, ha, image, hi, rfl, rfl⟩

theorem checkOwners_ok (h : checkOwners manifest request = .ok ()) {artifact : PayloadArtifact} {image : ImageDeclaration}
    (himage : (artifact, image) ∈ declaredImages manifest) :
    request.namespaceName = some image.owner.namespaceName ∧ image.owner.component = request.target := by
  unfold checkOwners at h
  split at h
  · next hnone =>
    rw [List.head?_eq_none_iff.mp hnone] at himage
    cases himage
  · cases h
  · next name _ hname =>
    obtain ⟨_, hnames, h⟩ := Checks.bind_ok h
    have hsame := Checks.each_unless_ok hnames _ himage
    have htarget := Checks.each_unless_ok h _ himage
    rw [hname, not_not.mp hsame]
    exact ⟨rfl, not_not.mp htarget⟩

theorem checkEpoch_ok (h : checkEpoch request trust = .ok ()) {delivered : UInt64}
    (hdelivered : request.epoch = some delivered) : trust.epoch < delivered := by
  rw [checkEpoch, hdelivered] at h
  dsimp only at h
  split at h
  · next hlt => exact hlt
  · cases h

theorem checkStatements_ok (h : checkStatements manifest request (some trust) = .ok ()) :
    Stated manifest request trust := by
  obtain ⟨_, hcompleteness, h⟩ := Checks.bind_ok h
  obtain ⟨_, -, h⟩ := Checks.bind_ok h
  obtain ⟨_, hwithdrawal, h⟩ := Checks.bind_ok h
  obtain ⟨_, htarget, h⟩ := Checks.bind_ok h
  obtain ⟨_, hepoch, himages⟩ := Checks.bind_ok h
  obtain ⟨_, -, himages⟩ := Checks.bind_ok (Checks.mapError_ok.mp himages)
  obtain ⟨_, -, himages⟩ := Checks.bind_ok himages
  obtain ⟨_, -, howners⟩ := Checks.bind_ok himages
  refine ⟨checkCompleteness_ok hcompleteness, fun artifact hmem => ?_, fun artifact hmem => ?_,
    fun delivered => checkEpoch_ok hepoch, fun artifact hmem image himage =>
      checkOwners_ok howners (mem_declaredImages.mpr ⟨hmem, himage⟩)⟩
  · have hsame := Checks.each_unless_ok htarget artifact hmem
    simpa only [not_or, not_not] using hsame
  · simpa [TrustSet.isWithdrawn] using Checks.each_unless_ok hwithdrawal artifact hmem

end

end DeployCore
