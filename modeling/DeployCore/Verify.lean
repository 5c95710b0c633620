import DeployCore.ManifestDoors
import DeployCore.Statements
import DeployCore.Tail
import DeployCore.VerifySignature

/-! # Verifying a package

`verifyPackage` reads the container, authenticates the raw manifest block under both algorithms, parses it and
checks what it states. `verifyPackage_accepts` says what an accepted file is. -/

namespace DeployCore

/-- A manifest past both signatures, the format floor and the typed parse. -/
structure Authenticated where
  manifest : PayloadManifest
  ed25519KeyId : String
  mlDsa87KeyId : String
  manifestSha256 : Bytes

/-- The container's contents, behind the source they are read from. -/
structure Payload where
  manifest : PayloadManifest
  archiveOffset : UInt64
  archiveLen : UInt64
  signature : Option Bytes
  keyId : Option Bytes
  mlDsa87Signature : Option Bytes
  mlDsa87KeyId : Option Bytes
  deriving DecidableEq

structure VerifiedPackage where
  payload : Payload
  deriving DecidableEq

def UnparsedContainer.intoPayload (container : UnparsedContainer) (manifest : PayloadManifest) : Payload where
  manifest := manifest
  archiveOffset := container.archiveOffset
  archiveLen := container.archiveLen
  signature := container.signature.intoBytes
  keyId := container.keyId.intoBytes
  mlDsa87Signature := container.mlDsa87Signature.intoBytes
  mlDsa87KeyId := container.mlDsa87KeyId.intoBytes

/-- The declared version against the set's floor. -/
def TrustSet.checkFormatVersion (trust : TrustSet) (found : UInt32) : Except VerifyError Unit :=
  if found < trust.minManifestFormatVersion then
    .error (.unsupportedManifestFormat found trust.minManifestFormatVersion MAX_MANIFEST_FORMAT_VERSION)
  else .ok ()

/-- Both signatures over the raw manifest bytes, the version floor, the typed parse. -/
def authenticateManifest (lib : Externals) (container : UnparsedContainer) (trust : TrustSet) :
    Except VerifyError Authenticated := do
  let ed25519KeyId ←
    verifySignature lib .ed25519 container.manifestBytes container.signature container.keyId trust
  let mlDsa87KeyId ←
    verifySignature lib .mlDsa87 container.manifestBytes container.mlDsa87Signature container.mlDsa87KeyId trust
  let declared ← (parseFormatVersion lib container.manifestBytes).mapError mapManifestError
  declared.elim (.ok ()) trust.checkFormatVersion
  let manifest ← (PayloadManifest.parse lib container.manifestBytes container.footerVersion).mapError mapManifestError
  .ok { manifest, ed25519KeyId, mlDsa87KeyId, manifestSha256 := lib.sha256 container.manifestBytes }

def authenticate (lib : Externals) (container : UnparsedContainer) (trust : TrustSet) (request : VerifyRequest) :
    Except VerifyError PayloadManifest := do
  let authenticated ← authenticateManifest lib container trust
  checkStatements authenticated.manifest request (some trust)
  .ok authenticated.manifest

/-- Verifies the package in `src`. -/
def verifyPackage (lib : Externals) (src : Source) (trust : TrustSet) (request : VerifyRequest) :
    Except VerifyError VerifiedPackage := do
  let container ← (readPackageContainer src ENVELOPE_BOUNDS).mapError .payload
  let manifest ← authenticate lib container trust request
  .ok ⟨container.intoPayload manifest⟩

/-- An anchor of each algorithm, not revoked, vouches for the container's signatures. -/
def UnparsedContainer.VouchedBy (lib : Externals) (container : UnparsedContainer) (trust : TrustSet) : Prop :=
  (∃ anchor, trust.Vouches lib .ed25519 container.manifestBytes container.signature false anchor) ∧
    ∃ anchor, trust.Vouches lib .mlDsa87 container.manifestBytes container.mlDsa87Signature false anchor

section
variable {lib : Externals} {trust : TrustSet} {request : VerifyRequest} {container : UnparsedContainer} {manifest : PayloadManifest}

/-- What an authenticated manifest was read from, and under whose keys. -/
theorem authenticateManifest_ok {container : UnparsedContainer} {authenticated : Authenticated}
    (h : authenticateManifest lib container trust = .ok authenticated) :
    (∃ anchor, trust.Vouches lib .ed25519 container.manifestBytes container.signature false anchor) ∧
    (∃ anchor, trust.Vouches lib .mlDsa87 container.manifestBytes container.mlDsa87Signature false anchor) ∧
    PayloadManifest.parse lib container.manifestBytes container.footerVersion = .ok authenticated.manifest ∧
    ∀ version, authenticated.manifest.formatVersion = some version → trust.minManifestFormatVersion ≤ version := by
  obtain ⟨_, hed, h⟩ := Checks.bind_ok h
  obtain ⟨_, hml, h⟩ := Checks.bind_ok h
  obtain ⟨found, hfound, h⟩ := Checks.bind_ok h
  obtain ⟨_, hfloor, h⟩ := Checks.bind_ok h
  obtain ⟨manifest, hparse, h⟩ := Checks.bind_ok h
  cases h
  have hparse := Checks.mapError_ok.mp hparse
  refine ⟨verifySignature_ok_iff.mp ⟨_, hed⟩, verifySignature_ok_iff.mp ⟨_, hml⟩, hparse, ?_⟩
  intro version hversion
  obtain rfl : found = some version := by
    rw [← hversion]
    exact Except.ok.inj ((Checks.mapError_ok.mp hfound).symm.trans (parseFormatVersion_of_parse hparse))
  dsimp only [Option.elim, TrustSet.checkFormatVersion] at hfloor
  split at hfloor
  · cases hfloor
  · next hlt => exact UInt32.not_lt.mp hlt

theorem verifyPackage_ok {src : Source} {verified : VerifiedPackage}
    (h : verifyPackage lib src trust request = .ok verified) :
    ∃ container authenticated, readPackageContainer src ENVELOPE_BOUNDS = .ok container ∧
      authenticateManifest lib container trust = .ok authenticated ∧
      checkStatements authenticated.manifest request (some trust) = .ok () ∧
      verified.payload = container.intoPayload authenticated.manifest := by
  obtain ⟨container, hcontainer, h⟩ := Checks.bind_ok h
  obtain ⟨manifest, hmanifest, h⟩ := Checks.bind_ok h
  cases h
  obtain ⟨authenticated, hauthenticated, hmanifest⟩ := Checks.bind_ok hmanifest
  obtain ⟨_, hstatements, hmanifest⟩ := Checks.bind_ok hmanifest
  cases hmanifest
  exact ⟨container, authenticated, Checks.mapError_ok.mp hcontainer, hauthenticated, hstatements, rfl⟩

theorem UnparsedContainer.VouchedBy.congr {trust' : TrustSet} (h : container.VouchedBy lib trust)
    (hanchors : trust'.anchors = trust.anchors) : container.VouchedBy lib trust' := by
  obtain ⟨⟨anchor, hmem, halgorithm, hrevoked, hverifies⟩, anchor', hmem', halgorithm', hrevoked', hverifies'⟩ := h
  exact ⟨⟨anchor, hanchors ▸ hmem, halgorithm, hrevoked, hverifies⟩,
    anchor', hanchors ▸ hmem', halgorithm', hrevoked', hverifies'⟩

/-- A container is authenticated when both signatures are vouched for and its manifest reads. -/
theorem authenticateManifest_of_vouched (hvouched : container.VouchedBy lib trust)
    (hparse : PayloadManifest.parse lib container.manifestBytes container.footerVersion = .ok manifest)
    (hfloor : ∀ version, manifest.formatVersion = some version → trust.minManifestFormatVersion ≤ version) :
    ∃ authenticated, authenticateManifest lib container trust = .ok authenticated ∧ authenticated.manifest = manifest := by
  obtain ⟨hed, hml⟩ := hvouched
  obtain ⟨edId, hed⟩ := verifySignature_ok_iff.mpr hed
  obtain ⟨mlId, hml⟩ := verifySignature_ok_iff.mpr hml
  have hdeclared : manifest.formatVersion.elim (.ok ()) trust.checkFormatVersion = .ok () := by
    cases hversion : manifest.formatVersion with
    | none => rfl
    | some version => exact if_neg (UInt32.not_lt.mpr (hfloor version hversion))
  refine ⟨⟨manifest, edId, mlId, lib.sha256 container.manifestBytes⟩, ?_, rfl⟩
  rw [authenticateManifest, hed, Checks.ok_bind, hml, Checks.ok_bind, parseFormatVersion_of_parse hparse]
  show manifest.formatVersion.elim (.ok ()) trust.checkFormatVersion >>= _ = _
  rw [hdeclared, Checks.ok_bind, hparse]
  rfl

theorem verifyPackage_of_vouched {src : Source}
    (hread : readPackageContainer src ENVELOPE_BOUNDS = .ok container) (hvouched : container.VouchedBy lib trust)
    (hparse : PayloadManifest.parse lib container.manifestBytes container.footerVersion = .ok manifest)
    (hfloor : ∀ version, manifest.formatVersion = some version → trust.minManifestFormatVersion ≤ version)
    (hstated : checkStatements manifest request (some trust) = .ok ()) :
    verifyPackage lib src trust request = .ok ⟨container.intoPayload manifest⟩ := by
  obtain ⟨authenticated, hauthenticated, rfl⟩ := authenticateManifest_of_vouched hvouched hparse hfloor
  rw [verifyPackage, hread]
  show authenticate lib container trust request >>= _ = _
  rw [authenticate, hauthenticated, Checks.ok_bind, hstated]
  rfl

/-- The signature block of a sound container that an anchor vouches for. -/
theorem exists_of_vouches_ofBlock {algorithm : SignatureAlgorithm} {message : Bytes} {bound : UInt64}
    {block : Option Bytes} {anchor : TrustAnchor}
    (h : trust.Vouches lib algorithm message (.ofBlock bound block) false anchor) :
    ∃ signature, block = some signature ∧ anchor ∈ trust.anchors ∧ anchor.algorithm = algorithm ∧
      anchor.revoked = false ∧ lib.verifies algorithm anchor.publicKey message signature = true := by
  obtain ⟨hmem, halgorithm, hrevoked, bytes, hblock, hverifies⟩ := h
  cases block with
  | none => cases hblock
  | some signature =>
    unfold EnvelopeBlock.ofBlock at hblock
    dsimp only at hblock
    split at hblock
    · cases hblock
      exact ⟨bytes, rfl, hmem, halgorithm, hrevoked, hverifies⟩
    · cases hblock

end

/-- An accepted file is a sound container whose manifest block two anchors vouch for, one of each algorithm and
neither revoked; the manifest that was parsed from it has a format the floor and the build accept, and states what
the request asks for and the trust set allows. -/
theorem verifyPackage_accepts (lib : Externals) (file : Bytes) (trust : TrustSet) (request : VerifyRequest)
    (verified : VerifiedPackage) (h : verifyPackage lib (.ofBytes file) trust request = .ok verified) :
    ∃ c : Container, c.Sound ∧ c.bytes = file ∧
      (∃ signature anchor, c.signature = some signature ∧ anchor ∈ trust.anchors ∧ anchor.algorithm = .ed25519 ∧
        anchor.revoked = false ∧ lib.verifies .ed25519 anchor.publicKey c.manifest signature = true) ∧
      (∃ signature anchor, c.mlDsa87Signature = some signature ∧ anchor ∈ trust.anchors ∧ anchor.algorithm = .mlDsa87 ∧
        anchor.revoked = false ∧ lib.verifies .mlDsa87 anchor.publicKey c.manifest signature = true) ∧
      PayloadManifest.parse lib c.manifest FORMAT_VERSION = .ok verified.payload.manifest ∧
      (∃ version, verified.payload.manifest.formatVersion = some version ∧
        trust.minManifestFormatVersion ≤ version ∧ 3 ≤ version ∧ version ≤ 9) ∧
      (∀ artifact ∈ verified.payload.manifest.artifacts, artifact.component = request.target ∧
        artifact.version = request.version ∧ artifact.commit = some request.commit ∧
        (artifact.component, artifact.version, request.commit) ∉ trust.withdrawnBuilds) ∧
      (∀ delivered, request.epoch = some delivered → trust.epoch < delivered) ∧
      (∃ members, verified.payload.manifest.archiveMembers = some members ∧ members ≠ [] ∧
        (members.map ArchiveMember.name).Nodup ∧
        ∀ name, name ∈ members.map ArchiveMember.name ↔
          name ∈ verified.payload.manifest.artifacts.map PayloadArtifact.archivePath) ∧
      (∀ artifact ∈ verified.payload.manifest.artifacts, ∀ image, artifact.image = some image →
        request.namespaceName = some image.owner.namespaceName ∧ image.owner.component = request.target) := by
  obtain ⟨container, authenticated, hcontainer, hauthenticated, hstatements, hpayload⟩ := verifyPackage_ok h
  obtain ⟨c, hsound, hbytes, rfl⟩ := exists_of_readPackageContainer hcontainer
  obtain ⟨⟨_, hed⟩, ⟨_, hml⟩, hparse, hfloor⟩ := authenticateManifest_ok hauthenticated
  obtain ⟨hbound, htarget, hwithdrawn, hepoch, howner⟩ := checkStatements_ok hstatements
  have hmanifest : verified.payload.manifest = authenticated.manifest := by rw [hpayload]; rfl
  rw [hmanifest]
  have hwell := PayloadManifest.wellFormed_of_parse hparse
  obtain ⟨version, hversion⟩ := exists_formatVersion_of_parse (show FORMAT_VERSION ≠ _ by decide) hparse
  obtain ⟨hmin, hmax⟩ := checkFormatVersion_some (hversion ▸ hwell.version)
  obtain ⟨signature, hsignature, hed⟩ := exists_of_vouches_ofBlock hed
  obtain ⟨mlSignature, hmlSignature, hml⟩ := exists_of_vouches_ofBlock hml
  refine ⟨c, hsound, hbytes, ⟨signature, _, hsignature, hed⟩, ⟨mlSignature, _, hmlSignature, hml⟩, hparse,
    ⟨version, hversion, hfloor version hversion, hmin, hmax⟩, fun artifact hmem => ?_, hepoch, hbound, howner⟩
  obtain ⟨hcomponent, hbuild, hcommit⟩ := htarget artifact hmem
  obtain ⟨commit, hsome⟩ := exists_of_checkCommit (hversion ▸ (hwell.artifacts artifact hmem).commit)
  have hnot := hwithdrawn artifact hmem
  rw [PayloadArtifact.commitText, hsome, Option.getD_some] at hcommit hnot
  subst hcommit
  exact ⟨hcomponent, hbuild, hsome, hnot⟩

/-! ### A package of trust material -/

section
open Json

/-- The text of a manifest that binds one member of the reserved component. -/
def trustManifestText : Text :=
  manifestText [
    ("archive_members", .arr [.obj [(some "name", .str "t"), (some "length", .num (.posInt 1))]]),
    ("artifacts", .arr [.obj [(some "component", .str "trust"), (some "version", .str "8"),
      (some "commit", .str "0123456789abcdef0123456789abcdef01234567"), (some "target_arch", .str "x86_64"),
      (some "kind", .str "static-assets"), (some "dispositions", .arr [.str "stage"]),
      (some "archive_path", .str "t"), (some "sha256", .str "00")]])]

def trustManifestBytes : Bytes :=
  asBytes ("\x7b\"format_version\":9,\"archive_members\":[\x7b\"name\":\"t\",\"length\":1\x7d],\"artifacts\":[\x7b" ++
    "\"component\":\"trust\",\"version\":\"8\",\"commit\":\"0123456789abcdef0123456789abcdef01234567\"," ++
    "\"target_arch\":\"x86_64\",\"kind\":\"static-assets\",\"dispositions\":[\"stage\"],\"archive_path\":\"t\"," ++
    "\"sha256\":\"00\"\x7d]\x7d")

def trustExternals : Externals :=
  { Externals.reading trustManifestText with sha256 := zeroSha256 }

/-- The manifest the text decodes to. -/
def trustManifest : PayloadManifest where
  formatVersion := some 9
  pinset := none
  releaseBuild := false
  trustSet := none
  archiveMembers := some [⟨"t", 1⟩]
  artifacts := [⟨"trust", "8", some "0123456789abcdef0123456789abcdef01234567", .x86_64, .staticAssets, {.stage}, "t",
    "00", none, none⟩]

/-- A trust set at epoch 7 that has withdrawn a build. -/
def sampleTrustSet (withdrawnBuilds : Finset (String × String × String)) : TrustSet where
  anchors := [zeroAnchor trustExternals .ed25519, zeroAnchor trustExternals .mlDsa87]
  withdrawnBuilds := withdrawnBuilds
  minManifestFormatVersion := 3
  epoch := 7
  nodup := nodup_zeroAnchors rfl

/-- A request for the reserved target at epoch 8. -/
def trustRequest : VerifyRequest where
  target := TRUST_TARGET
  version := "8"
  commit := "0123456789abcdef0123456789abcdef01234567"
  epoch := some 8
  namespaceName := none
  epoch_target _ := rfl
  namespace_target := VerifyRequest.nameless TRUST_TARGET

def trustPackage : Container :=
  .ofParts [] trustManifestBytes [0] (some zeroSigned)

set_option maxRecDepth 20000 in
theorem length_trustManifestBytes : trustManifestBytes.length < 1000 := by
  decide

theorem sound_signedOn {manifest : Bytes} (h : manifest.length < 1000) :
    (Container.ofParts [] manifest [0] (some zeroSigned)).Sound := by
  refine sound_ofParts (fun s hs => Option.some.inj hs ▸ validateSigned_zeroSigned) ?_ (fun _ => ?_) ?_
  · show 0 + manifest.length + 1 + 4819 + 105 < 2 ^ 64
    omega
  · show 0 < 0 + manifest.length + 1
    omega
  · show ¬((0 + manifest.length) / 2 ^ 56 = 0x42 ∧ 1 = 0x02444C5950524C54)
    omega

theorem parse_trustManifestBytes :
    PayloadManifest.parse trustExternals trustManifestBytes FORMAT_VERSION = .ok trustManifest := by
  rfl

theorem checkStatements_trustManifest {withdrawnBuilds : Finset (String × String × String)}
    (h : ("trust", "8", "0123456789abcdef0123456789abcdef01234567") ∉ withdrawnBuilds) :
    checkStatements trustManifest trustRequest (some (sampleTrustSet withdrawnBuilds)) = .ok () := by
  have hcompleteness : checkCompleteness trustManifest = .ok () := by decide
  have hidentifiers : checkIdentifiers trustManifest = .ok () := by decide
  have hwithdrawal : checkWithdrawal trustManifest (sampleTrustSet withdrawnBuilds) = .ok () := by
    simp [checkWithdrawal, trustManifest, Checks.each, TrustSet.isWithdrawn, sampleTrustSet,
      PayloadArtifact.commitText, h, bind, Except.bind]
  have htarget : checkTarget trustManifest trustRequest = .ok () := by decide
  have hepoch : checkEpoch trustRequest (sampleTrustSet withdrawnBuilds) = .ok () := by rfl
  have himages : checkImages trustManifest trustRequest = .ok () := by decide
  simp only [checkStatements, hcompleteness, hidentifiers, hwithdrawal, htarget, hepoch, himages, bind, Except.bind,
    Except.mapError]

/-- The signature blocks of a signed container, as the verifier reads them. -/
theorem signatures_ofParts {base manifest archive : Bytes} {signed : Signed} (h : validateSigned signed = .ok ()) :
    ((Container.ofParts base manifest archive (some signed)).unparsed ENVELOPE_BOUNDS).signature =
        .present signed.ed25519.signature ∧
      ((Container.ofParts base manifest archive (some signed)).unparsed ENVELOPE_BOUNDS).mlDsa87Signature =
        .present signed.mlDsa87.signature := by
  obtain ⟨h0, -, h2, -⟩ := lengths_of_validateSigned h
  exact ⟨if_pos h0, if_pos h2⟩

/-- A signed container is vouched for where a live anchor of each algorithm verifies its manifest. -/
theorem vouchedBy_ofParts {base manifest archive : Bytes} {signed : Signed} (h : validateSigned signed = .ok ())
    (hverifies : ∀ algorithm signature, ∃ anchor ∈ trust.anchors, anchor.algorithm = algorithm ∧ anchor.revoked = false ∧
      lib.verifies algorithm anchor.publicKey manifest signature = true) :
    ((Container.ofParts base manifest archive (some signed)).unparsed ENVELOPE_BOUNDS).VouchedBy lib trust := by
  obtain ⟨hsignature, hmlSignature⟩ := @signatures_ofParts base manifest archive signed h
  obtain ⟨anchor, hmem, halgorithm, hlive, hed⟩ := hverifies .ed25519 signed.ed25519.signature
  obtain ⟨anchor', hmem', halgorithm', hlive', hml⟩ := hverifies .mlDsa87 signed.mlDsa87.signature
  exact ⟨⟨anchor, hmem, halgorithm, hlive, _, hsignature, hed⟩, anchor', hmem', halgorithm', hlive', _, hmlSignature, hml⟩

/-- The package is accepted unless its own build is withdrawn. -/
theorem verifyPackage_trustPackage {withdrawnBuilds : Finset (String × String × String)}
    (h : ("trust", "8", "0123456789abcdef0123456789abcdef01234567") ∉ withdrawnBuilds) :
    ∃ verified, verifyPackage trustExternals (.ofBytes trustPackage.bytes) (sampleTrustSet withdrawnBuilds) trustRequest =
      .ok verified ∧ verified.payload.manifest = trustManifest := by
  have hread : readPackageContainer (.ofBytes trustPackage.bytes) ENVELOPE_BOUNDS =
      .ok (trustPackage.unparsed ENVELOPE_BOUNDS) :=
    Container.readPackageContainer_bytes (sound_signedOn length_trustManifestBytes) ENVELOPE_BOUNDS
  have hvouched : (trustPackage.unparsed ENVELOPE_BOUNDS).VouchedBy trustExternals (sampleTrustSet withdrawnBuilds) := by
    refine vouchedBy_ofParts validateSigned_zeroSigned fun algorithm signature => ⟨zeroAnchor trustExternals algorithm, ?_, rfl, rfl, rfl⟩
    cases algorithm
    · exact List.mem_cons_self
    · exact List.mem_cons_of_mem _ List.mem_cons_self
  refine ⟨_, verifyPackage_of_vouched hread hvouched parse_trustManifestBytes (fun version hversion => ?_)
    (checkStatements_trustManifest h), rfl⟩
  cases hversion
  show (3 : UInt32) ≤ 9
  decide

theorem verifyPackage_accepts_trust_material :
    ∃ verified, ∃ c : Container, verifyPackage trustExternals (.ofBytes trustPackage.bytes) (sampleTrustSet ∅) trustRequest =
        .ok verified ∧
      c.Sound ∧ c.bytes = trustPackage.bytes ∧ verified.payload.manifest.formatVersion = some 9 ∧
      (sampleTrustSet ∅).epoch < 8 := by
  obtain ⟨verified, hverified, hmanifest⟩ := @verifyPackage_trustPackage ∅ (by simp)
  obtain ⟨c, hsound, hbytes, -, -, -, -, -, hepoch, -, -⟩ := verifyPackage_accepts _ _ _ _ verified hverified
  exact ⟨verified, c, hverified, hsound, hbytes, by rw [hmanifest]; rfl, hepoch 8 rfl⟩

/-- Withdrawal is of a component, a version and a commit: the triple of a component, the requested target and a
version may be withdrawn and the package accepted, also when trust material is requested. -/
theorem verifyPackage_ignores_target_withdrawal :
    ∃ verified, verifyPackage trustExternals (.ofBytes trustPackage.bytes)
        (sampleTrustSet {("trust", "trust", "8")}) trustRequest = .ok verified ∧
      trustRequest.epoch.isSome ∧
      ∃ artifact ∈ verified.payload.manifest.artifacts,
        (artifact.component, trustRequest.target, artifact.version) ∈
          (sampleTrustSet {("trust", "trust", "8")}).withdrawnBuilds := by
  obtain ⟨verified, hverified, hmanifest⟩ := @verifyPackage_trustPackage {("trust", "trust", "8")} (by decide)
  refine ⟨verified, hverified, rfl, ?_⟩
  rw [hmanifest]
  exact ⟨_, List.mem_cons_self, Finset.mem_singleton_self _⟩

end

end DeployCore
