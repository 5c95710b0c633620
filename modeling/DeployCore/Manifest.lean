import DeployCore.ImageDeclaration
import DeployCore.PayloadError

/-! # The payload manifest

The manifest's types, the validation every one of them passes (`PayloadManifest.fromParts`) and the two doors
into it: `PayloadManifest.parse`, which reads the bytes as a generic value and decides the format version from
that, and `PayloadManifest.deserialize`, the derived decoder run on the text. `PayloadManifest.WellFormed` is
what the validation guarantees. -/

namespace DeployCore
open Serde Json

/-- The third-party functions the code calls. -/
structure Externals where
  /-- The JSON reader, up to the end of the input. -/
  readJson : Bytes → Option Text
  /-- Standard base64 with padding. -/
  base64Decode : String → Option Bytes
  sha256 : Bytes → Bytes
  /-- Signature verification under a raw public key. -/
  verifies : SignatureAlgorithm → (publicKey message signature : Bytes) → Bool

def MANIFEST_FORMAT_VERSION : UInt32 := 9
def MIN_MANIFEST_FORMAT_VERSION : UInt32 := 3
def MAX_MANIFEST_FORMAT_VERSION : UInt32 := 9
def IMAGE_DECLARATION_FORMAT_VERSION : UInt32 := 6
def SUPPLEMENTARY_GROUPS_FORMAT_VERSION : UInt32 := 8
def PRIVILEGE_PROFILES_FORMAT_VERSION : UInt32 := 9
def LEGACY_UNVERSIONED_FOOTER_VERSION : UInt8 := 1

inductive TargetArch
  | x86_64
  | aarch64
  deriving DecidableEq

def TargetArch.decoder : Decoder TargetArch :=
  .enum <| .unit "x86_64" .x86_64 <| .unit "aarch64" .aarch64 .nil

inductive Disposition
  | install
  | stage
  deriving DecidableEq

def Disposition.decoder : Decoder Disposition :=
  .enum <| .unit "install" .install <| .unit "stage" .stage .nil

/-- One artifact of a manifest. -/
structure PayloadArtifact where
  component : String
  version : String
  commit : Option String
  targetArch : TargetArch
  kind : ArtifactKind
  dispositions : Finset Disposition
  archivePath : String
  sha256 : String
  spec : Option ModuleSpec
  image : Option ImageDeclaration
  deriving DecidableEq

/-- One entry of the bound archive member list. -/
structure ArchiveMember where
  name : String
  length : UInt64
  deriving DecidableEq

def ArchiveMember.decoder : Decoder ArchiveMember :=
  .record false (.cons "name" none .string <| .cons "length" none .u64 .nil) fun (name, length, ()) => ⟨name, length⟩

/-- Why a manifest is refused. Decoder errors carry third-party text and are opaque here. -/
inductive ManifestError
  | emptyDispositions (archivePath : String)
  | duplicateArchivePath (archivePath : String)
  | unsafeArchivePath (archivePath : String)
  | decode
  | missingFormatVersion
  | malformedFormatVersion
  | unsupportedManifestFormat (found min max : UInt32)
  | missingCommit (archivePath : String)
  | missingArchiveMembers
  | invalidCommit (archivePath commit : String)
  | baselineWithCommit (archivePath : String)
  | baselineWithSpec (archivePath : String)
  | baselineWithTrustSet
  | baselineWithArchiveMembers
  | invalidSpec (archivePath : String) (source : ModuleSpecError)
  | trustSetNotBase64
  | emptyTrustSet
  | baselineWithImage (archivePath : String)
  | imageBeforeDeclarationFormat (archivePath : String) (formatVersion : UInt32)
  | supplementaryGroupsBeforeFormat (archivePath : String) (formatVersion : UInt32)
  | privilegeProfilesBeforeFormat (archivePath : String) (formatVersion : UInt32)
  | imageOnNonImageArtifact (archivePath : String) (kind : ArtifactKind)
  | missingImageDeclaration (archivePath : String)
  | imageDecode (archivePath : String)
  | invalidImageDeclaration (archivePath : String) (source : ImageDeclarationError)
  deriving DecidableEq

/-- A commit identifier: 40 or 64 lowercase hexadecimal characters. -/
def isValidCommit (value : String) : Bool :=
  (byteLen value == GIT_COMMIT_HEX_LEN || byteLen value == IMAGE_DIGEST_HEX_LEN) && isLowerHex value

/-- A relative path whose segments are all plain names. `Path::components` sees a root where the path starts
with a slash and a parent where a segment is `..`; there are no prefixes on this platform. -/
def isSafeArchivePath (path : String) : Bool :=
  let segments := path.toList.splitOn '/'
  !(path.toList.head? == some '/' || segments.contains ['.', '.']) &&
    segments.all fun segment => !segment.isEmpty && segment != ['.'] && segment != ['.', '.']

/-- A validated manifest. -/
structure PayloadManifest where
  formatVersion : Option UInt32
  pinset : Option String
  releaseBuild : Bool
  trustSet : Option Bytes
  archiveMembers : Option (List ArchiveMember)
  artifacts : List PayloadArtifact
  deriving DecidableEq

/-- One artifact as it is read, its image still undecoded; a `null` image is present. -/
structure RawArtifact where
  component : String
  version : String
  commit : Option String
  targetArch : TargetArch
  kind : ArtifactKind
  dispositions : Finset Disposition
  archivePath : String
  sha256 : String
  spec : Option ModuleSpec
  image : Option Value

def RawArtifact.decoder : Decoder RawArtifact :=
  .record false
    (.cons "component" none .string <| .cons "version" none .string <|
      .cons "commit" (some none) (.option .string) <| .cons "target_arch" none TargetArch.decoder <|
      .cons "kind" none ArtifactKind.decoder <|
      .cons "dispositions" none (.map List.toFinset (.seq Disposition.decoder)) <|
      .cons "archive_path" none .string <| .cons "sha256" none .string <|
      .cons "spec" (some none) (.option ModuleSpec.decoder) <| .cons "image" (some none) (.map some .any) .nil)
    fun (component, version, commit, targetArch, kind, dispositions, archivePath, sha256, spec, image, ()) =>
      ⟨component, version, commit, targetArch, kind, dispositions, archivePath, sha256, spec, image⟩

/-- The manifest as it is read. -/
structure RawManifest where
  formatVersion : Option UInt32
  pinset : Option String
  releaseBuild : Bool
  trustSet : Option String
  archiveMembers : Option (List ArchiveMember)
  artifacts : List RawArtifact

def RawManifest.decoder : Decoder RawManifest :=
  .record false
    (.cons "format_version" (some none) (.option .u32) <| .cons "pinset" (some none) (.option .string) <|
      .cons "release_build" (some false) .bool <| .cons "trust_set" (some none) (.option .string) <|
      .cons "archive_members" (some none) (.option (.seq ArchiveMember.decoder)) <|
      .cons "artifacts" none (.seq RawArtifact.decoder) .nil)
    fun (formatVersion, pinset, releaseBuild, trustSet, archiveMembers, artifacts, ()) =>
      ⟨formatVersion, pinset, releaseBuild, trustSet, archiveMembers, artifacts⟩

/-- Where an artifact's image comes from. -/
inductive ImageSource
  | absent
  | wire (value : Value)
  | typed (declaration : ImageDeclaration)

def RawArtifact.intoParts (raw : RawArtifact) : PayloadArtifact × ImageSource :=
  ({ component := raw.component
     version := raw.version
     commit := raw.commit
     targetArch := raw.targetArch
     kind := raw.kind
     dispositions := raw.dispositions
     archivePath := raw.archivePath
     sha256 := raw.sha256
     spec := raw.spec
     image := none },
   raw.image.elim .absent .wire)

def rawParts (artifacts : List RawArtifact) : List (PayloadArtifact × ImageSource) :=
  artifacts.map RawArtifact.intoParts

/-- The parts of artifacts that are already typed. -/
def typedParts (artifacts : List PayloadArtifact) : List (PayloadArtifact × ImageSource) :=
  artifacts.map fun artifact => ({ artifact with image := none }, artifact.image.elim .absent .typed)

/-- Spec content that an older manifest format cannot carry. -/
def checkSpecFormat (spec : ModuleSpec) (formatVersion : Option UInt32) (archivePath : String) :
    Except ManifestError Unit :=
  match formatVersion, spec.unit with
  | some formatVersion, some unit =>
    if formatVersion < SUPPLEMENTARY_GROUPS_FORMAT_VERSION && !unit.supplementaryGroups.isEmpty then
      .error (.supplementaryGroupsBeforeFormat archivePath formatVersion)
    else if formatVersion < PRIVILEGE_PROFILES_FORMAT_VERSION && !unit.privilegeProfiles.isEmpty then
      .error (.privilegeProfilesBeforeFormat archivePath formatVersion)
    else .ok ()
  | _, _ => .ok ()

/-- Decodes a declaration, naming an unknown schema before anything else. -/
def decodeDeclaration (archivePath : String) (value : Value) : Except ManifestError ImageDeclaration :=
  match (value.get "schema").bind Value.asU64 with
  | some found =>
    if found ≠ IMAGE_DECLARATION_SCHEMA.toUInt64 then
      .error (.invalidImageDeclaration archivePath (.unsupportedSchema found))
    else decode
  | none => decode
where
  decode : Except ManifestError ImageDeclaration :=
    match ImageDeclaration.decoder.value value with
    | some declaration => .ok declaration
    | none => .error (.imageDecode archivePath)

/-- The declaration a container image brings. -/
def sourceDeclaration (archivePath : String) : ImageSource → Except ManifestError ImageDeclaration
  | .absent | .wire .null => .error (.missingImageDeclaration archivePath)
  | .wire value => decodeDeclaration archivePath value
  | .typed declaration => .ok declaration

/-- The declaration a container image carries from format 6 on, and the only thing that carries one. -/
def resolveImage (formatVersion : Option UInt32) (artifact : PayloadArtifact) (source : ImageSource) :
    Except ManifestError (Option ImageDeclaration) :=
  let refuseIfPresent (e : ManifestError) : Except ManifestError (Option ImageDeclaration) :=
    match source with
    | .absent => .ok none
    | _ => .error e
  match formatVersion with
  | none => refuseIfPresent (.baselineWithImage artifact.archivePath)
  | some formatVersion =>
    if formatVersion < IMAGE_DECLARATION_FORMAT_VERSION then
      refuseIfPresent (.imageBeforeDeclarationFormat artifact.archivePath formatVersion)
    else if artifact.kind ≠ .containerImage then
      refuseIfPresent (.imageOnNonImageArtifact artifact.archivePath artifact.kind)
    else do
      let declaration ← sourceDeclaration artifact.archivePath source
      declaration.validate.mapError (.invalidImageDeclaration artifact.archivePath)
      .ok (some declaration)

def checkFormatVersion : Option UInt32 → Except ManifestError Unit
  | none => .ok ()
  | some found =>
    if MIN_MANIFEST_FORMAT_VERSION ≤ found ∧ found ≤ MAX_MANIFEST_FORMAT_VERSION then .ok ()
    else .error (.unsupportedManifestFormat found MIN_MANIFEST_FORMAT_VERSION MAX_MANIFEST_FORMAT_VERSION)

def checkArchiveMembers (archiveMembers : Option (List ArchiveMember)) (formatVersion : Option UInt32) :
    Except ManifestError Unit :=
  match archiveMembers, formatVersion with
  | none, some _ => .error .missingArchiveMembers
  | some _, none => .error .baselineWithArchiveMembers
  | _, _ => .ok ()

/-- The checks made of an artifact before its archive path is compared with the ones before it. -/
def checkArtifactPath (artifact : PayloadArtifact) : Except ManifestError Unit :=
  if artifact.dispositions = ∅ then .error (.emptyDispositions artifact.archivePath)
  else if !isSafeArchivePath artifact.archivePath then .error (.unsafeArchivePath artifact.archivePath)
  else .ok ()

def checkCommit (formatVersion : Option UInt32) (artifact : PayloadArtifact) : Except ManifestError Unit :=
  match artifact.commit, formatVersion with
  | some commit, some _ =>
    if isValidCommit commit then .ok () else .error (.invalidCommit artifact.archivePath commit)
  | none, some _ => .error (.missingCommit artifact.archivePath)
  | some _, none => .error (.baselineWithCommit artifact.archivePath)
  | none, none => .ok ()

def checkSpec (formatVersion : Option UInt32) (artifact : PayloadArtifact) : Except ManifestError Unit :=
  match artifact.spec with
  | none => .ok ()
  | some spec => do
    if formatVersion.isNone then .error (.baselineWithSpec artifact.archivePath)
    else do
      (spec.validate artifact.component artifact.kind).mapError (.invalidSpec artifact.archivePath)
      checkSpecFormat spec formatVersion artifact.archivePath

/-- The rest of an artifact's checks, ending with its image. -/
def completeArtifact (formatVersion : Option UInt32) (part : PayloadArtifact × ImageSource) :
    Except ManifestError PayloadArtifact := do
  let (artifact, source) := part
  checkCommit formatVersion artifact
  checkSpec formatVersion artifact
  let image ← resolveImage formatVersion artifact source
  .ok { artifact with image }

def checkTrustSet (formatVersion : Option UInt32) : Option Bytes → Except ManifestError Unit
  | none => .ok ()
  | some bytes =>
    if bytes.isEmpty then .error .emptyTrustSet
    else if formatVersion.isNone then .error .baselineWithTrustSet
    else .ok ()

/-- The one validation every manifest passes. -/
def PayloadManifest.fromParts (formatVersion : Option UInt32) (pinset : Option String) (releaseBuild : Bool)
    (archiveMembers : Option (List ArchiveMember)) (artifacts : List (PayloadArtifact × ImageSource))
    (trustSet : Option Bytes) : Except ManifestError PayloadManifest := do
  checkFormatVersion formatVersion
  checkArchiveMembers archiveMembers formatVersion
  let artifacts ← Checks.collectDistinct (·.1.archivePath) (checkArtifactPath ·.1)
    (.duplicateArchivePath ·.1.archivePath) (completeArtifact formatVersion) [] artifacts
  checkTrustSet formatVersion trustSet
  .ok { formatVersion, pinset, releaseBuild, trustSet, archiveMembers, artifacts }

/-- `trust_set_codec::decode`. -/
def decodeTrustSet (lib : Externals) : Option String → Except ManifestError (Option Bytes)
  | none => .ok none
  | some encoded =>
    match lib.base64Decode encoded with
    | some bytes => .ok (some bytes)
    | none => .error .trustSetNotBase64

/-- `TryFrom<RawManifest>`, which has no footer to excuse an absent version. -/
def RawManifest.tryInto (lib : Externals) (raw : RawManifest) : Except ManifestError PayloadManifest := do
  match raw.formatVersion with
  | none => .error .missingFormatVersion
  | some formatVersion => do
    let trustSet ← decodeTrustSet lib raw.trustSet
    PayloadManifest.fromParts (some formatVersion) raw.pinset raw.releaseBuild raw.archiveMembers (rawParts raw.artifacts) trustSet

/-- The `Deserialize` door, run on the text of a document. -/
def PayloadManifest.deserialize (lib : Externals) (manifestBytes : Bytes) : Except ManifestError PayloadManifest :=
  match lib.readJson manifestBytes with
  | none => .error .decode
  | some text =>
    match RawManifest.decoder.text text recursionLimit with
    | none => .error .decode
    | some raw => raw.tryInto lib

/-- The format version of a document; absent and `null` are one. -/
def readFormatVersion (document : Value) : Except ManifestError (Option UInt32) :=
  match document.get "format_version" with
  | none | some .null => .ok none
  | some value =>
    match value.asU64 with
    | some found => if found.toNat < 2 ^ 32 then .ok (some found.toUInt32) else .error .malformedFormatVersion
    | none => .error .malformedFormatVersion

/-- Stage one of the parse, and nothing else. -/
def parseFormatVersion (lib : Externals) (manifestBytes : Bytes) : Except ManifestError (Option UInt32) :=
  match (lib.readJson manifestBytes).bind (·.toValue recursionLimit) with
  | none => .error .decode
  | some document => readFormatVersion document

/-- The archive path of the first artifact that carries `key`, or its index. -/
def artifactWithKeyFrom (key : String) : Nat → List Value → Option String
  | _, [] => none
  | index, artifact :: artifacts =>
    if (artifact.get key).isSome then
      some (((artifact.get "archive_path").bind Value.asStr).getD ("#" ++ toString index))
    else artifactWithKeyFrom key (index + 1) artifacts

def artifactWithKey (document : Value) (key : String) : Option String := do
  let artifacts ← (← document.get "artifacts").asArray
  artifactWithKeyFrom key 0 artifacts

def artifactWithCommit (document : Value) : Option String := artifactWithKey document "commit"
def artifactWithSpec (document : Value) : Option String := artifactWithKey document "spec"
def hasTrustSet (document : Value) : Bool := (document.get "trust_set").isSome
def hasArchiveMembers (document : Value) : Bool := (document.get "archive_members").isSome

/-- The conjunction that excuses an absent version: an old container and none of the newer content. -/
def isPreVersionedBaseline (footerVersion : UInt8) (document : Value) : Bool :=
  (match document.get "format_version" with
    | none | some .null => true
    | some _ => false) &&
  footerVersion == LEGACY_UNVERSIONED_FOOTER_VERSION && (artifactWithCommit document).isNone &&
  !hasTrustSet document && (artifactWithSpec document).isNone && !hasArchiveMembers document

def nonBaselineReason (document : Value) : ManifestError :=
  match artifactWithCommit document with
  | some archivePath => .baselineWithCommit archivePath
  | none =>
    if hasTrustSet document then .baselineWithTrustSet
    else
      match artifactWithSpec document with
      | some archivePath => .baselineWithSpec archivePath
      | none => if hasArchiveMembers document then .baselineWithArchiveMembers else .missingFormatVersion

/-- What a document's version alone decides. -/
def checkDocumentVersion (footerVersion : UInt8) (document : Value) (formatVersion : Option UInt32) :
    Except ManifestError Unit :=
  match formatVersion with
  | some found => checkFormatVersion (some found)
  | none => if isPreVersionedBaseline footerVersion document then .ok () else .error (nonBaselineReason document)

/-- The two-stage parse of a manifest block. -/
def PayloadManifest.parse (lib : Externals) (manifestBytes : Bytes) (footerVersion : UInt8) :
    Except ManifestError PayloadManifest := do
  match (lib.readJson manifestBytes).bind (·.toValue recursionLimit) with
  | none => .error .decode
  | some document => do
    let formatVersion ← readFormatVersion document
    checkDocumentVersion footerVersion document formatVersion
    match RawManifest.decoder.value document with
    | none => .error .decode
    | some raw => do
      let trustSet ← decodeTrustSet lib raw.trustSet
      PayloadManifest.fromParts formatVersion raw.pinset raw.releaseBuild raw.archiveMembers (rawParts raw.artifacts) trustSet

/-! ### What the validation guarantees -/

/-- An artifact of a manifest of `formatVersion` that the validation lets through. -/
structure PayloadArtifact.WellFormed (formatVersion : Option UInt32) (artifact : PayloadArtifact) : Prop where
  dispositions : artifact.dispositions ≠ ∅
  archivePath : isSafeArchivePath artifact.archivePath = true
  commit : checkCommit formatVersion artifact = .ok ()
  spec : checkSpec formatVersion artifact = .ok ()
  image : ∀ image, artifact.image = some image → image.validate = .ok () ∧ artifact.kind = .containerImage ∧
    ∃ version, formatVersion = some version ∧ IMAGE_DECLARATION_FORMAT_VERSION ≤ version

/-- What the one validation guarantees of a manifest, whichever door it came through. -/
structure PayloadManifest.WellFormed (manifest : PayloadManifest) : Prop where
  version : checkFormatVersion manifest.formatVersion = .ok ()
  members : manifest.archiveMembers.isSome = manifest.formatVersion.isSome
  artifacts : ∀ artifact ∈ manifest.artifacts, artifact.WellFormed manifest.formatVersion
  nodup : (manifest.artifacts.map PayloadArtifact.archivePath).Nodup

theorem checkFormatVersion_some {version : UInt32} (h : checkFormatVersion (some version) = .ok ()) :
    MIN_MANIFEST_FORMAT_VERSION ≤ version ∧ version ≤ MAX_MANIFEST_FORMAT_VERSION := by
  dsimp only [checkFormatVersion] at h
  split at h
  · next hrange => exact hrange
  · cases h

/-- An artifact of a versioned manifest names its commit. -/
theorem exists_of_checkCommit {version : UInt32} {artifact : PayloadArtifact}
    (h : checkCommit (some version) artifact = .ok ()) : ∃ commit, artifact.commit = some commit := by
  unfold checkCommit at h
  cases hcommit : artifact.commit with
  | none =>
    rw [hcommit] at h
    cases h
  | some commit => exact ⟨commit, rfl⟩

theorem checkArtifactPath_ok {artifact : PayloadArtifact} (h : checkArtifactPath artifact = .ok ()) :
    artifact.dispositions ≠ ∅ ∧ isSafeArchivePath artifact.archivePath = true := by
  unfold checkArtifactPath at h
  split at h
  · cases h
  next hdispositions =>
  split at h
  · cases h
  next hsafe => exact ⟨hdispositions, by simpa using hsafe⟩

/-- A resolved declaration is valid, on a container image, and of a format that carries one. -/
theorem resolveImage_ok {formatVersion : Option UInt32} {artifact : PayloadArtifact} {source : ImageSource}
    {image : ImageDeclaration} (h : resolveImage formatVersion artifact source = .ok (some image)) :
    image.validate = .ok () ∧ artifact.kind = .containerImage ∧
      ∃ version, formatVersion = some version ∧ IMAGE_DECLARATION_FORMAT_VERSION ≤ version := by
  unfold resolveImage at h
  cases formatVersion with
  | none => cases source <;> cases h
  | some version =>
    dsimp only at h
    split at h
    · cases source <;> cases h
    next hversion =>
    split at h
    · cases source <;> cases h
    next hkind =>
    obtain ⟨declaration, -, h⟩ := Checks.bind_ok h
    obtain ⟨_, hvalid, h⟩ := Checks.bind_ok h
    cases h
    exact ⟨Checks.mapError_ok.mp hvalid, not_not.mp hkind, version, rfl, UInt32.not_lt.mp hversion⟩

theorem completeArtifact_ok {formatVersion : Option UInt32} {part : PayloadArtifact × ImageSource}
    {artifact : PayloadArtifact} (hpath : checkArtifactPath part.1 = .ok ())
    (h : completeArtifact formatVersion part = .ok artifact) :
    artifact.WellFormed formatVersion ∧ artifact.archivePath = part.1.archivePath := by
  obtain ⟨_, hcommit, h⟩ := Checks.bind_ok h
  obtain ⟨_, hspec, h⟩ := Checks.bind_ok h
  obtain ⟨image, himage, h⟩ := Checks.bind_ok h
  cases h
  obtain ⟨hdispositions, hsafe⟩ := checkArtifactPath_ok hpath
  refine ⟨⟨hdispositions, hsafe, hcommit, hspec, ?_⟩, rfl⟩
  rintro declaration rfl
  exact resolveImage_ok himage

theorem PayloadManifest.wellFormed_of_fromParts {formatVersion : Option UInt32} {pinset : Option String}
    {releaseBuild : Bool} {members : Option (List ArchiveMember)} {parts : List (PayloadArtifact × ImageSource)}
    {trustSet : Option Bytes} {manifest : PayloadManifest}
    (h : fromParts formatVersion pinset releaseBuild members parts trustSet = .ok manifest) : manifest.WellFormed := by
  obtain ⟨_, hversion, h⟩ := Checks.bind_ok h
  obtain ⟨_, hmembers, h⟩ := Checks.bind_ok h
  obtain ⟨artifacts, hartifacts, h⟩ := Checks.bind_ok h
  obtain ⟨_, -, h⟩ := Checks.bind_ok h
  cases h
  obtain ⟨hpaths, -, hnodup, hcomplete⟩ := Checks.collectDistinct_ok hartifacts
  have hboth := ((List.forall₂_and_left _ _).mpr ⟨hpaths, hcomplete⟩).imp fun _ _ h => completeArtifact_ok h.1 h.2
  obtain ⟨hwell, hsame⟩ := (List.forall₂_and_left _ _).mp hboth.flip
  have hmap : artifacts.map PayloadArtifact.archivePath = parts.map (·.1.archivePath) :=
    List.forall₂_eq_eq_eq ▸ List.forall₂_map_left_iff.mpr (List.forall₂_map_right_iff.mpr hsame)
  refine ⟨hversion, ?_, hwell, hmap ▸ hnodup⟩
  cases members <;> cases formatVersion <;> first | rfl | cases hmembers

/-- A manifest that parses is well formed. -/
theorem PayloadManifest.wellFormed_of_parse {lib : Externals} {manifestBytes : Bytes} {footerVersion : UInt8}
    {manifest : PayloadManifest} (h : parse lib manifestBytes footerVersion = .ok manifest) : manifest.WellFormed := by
  unfold parse at h
  split at h
  · cases h
  obtain ⟨_, -, h⟩ := Checks.bind_ok h
  obtain ⟨_, -, h⟩ := Checks.bind_ok h
  split at h
  · cases h
  obtain ⟨_, -, h⟩ := Checks.bind_ok h
  exact wellFormed_of_fromParts h

theorem formatVersion_of_fromParts {formatVersion : Option UInt32} {pinset : Option String} {releaseBuild : Bool}
    {members : Option (List ArchiveMember)} {parts : List (PayloadArtifact × ImageSource)} {trustSet : Option Bytes}
    {manifest : PayloadManifest}
    (h : PayloadManifest.fromParts formatVersion pinset releaseBuild members parts trustSet = .ok manifest) :
    manifest.formatVersion = formatVersion := by
  obtain ⟨_, -, h⟩ := Checks.bind_ok h
  obtain ⟨_, -, h⟩ := Checks.bind_ok h
  obtain ⟨_, -, h⟩ := Checks.bind_ok h
  obtain ⟨_, -, h⟩ := Checks.bind_ok h
  cases h
  rfl

/-- Stage one reads the version of the manifest that the parse returns. -/
theorem parseFormatVersion_of_parse {lib : Externals} {manifestBytes : Bytes} {footerVersion : UInt8}
    {manifest : PayloadManifest} (h : PayloadManifest.parse lib manifestBytes footerVersion = .ok manifest) :
    parseFormatVersion lib manifestBytes = .ok manifest.formatVersion := by
  unfold PayloadManifest.parse at h
  split at h
  · cases h
  next document hdocument =>
  obtain ⟨formatVersion, hversion, h⟩ := Checks.bind_ok h
  obtain ⟨_, -, h⟩ := Checks.bind_ok h
  split at h
  · cases h
  obtain ⟨_, -, h⟩ := Checks.bind_ok h
  rw [parseFormatVersion, hdocument, formatVersion_of_fromParts h]
  exact hversion

end DeployCore
