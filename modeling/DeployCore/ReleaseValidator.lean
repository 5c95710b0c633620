import DeployCore.ReleaseInstall

/-! # What the staged validator asks of a package that a door has verified

An accept verifies a package under the active generation's anchors. The validator verifies the staged copy under the
anchors that the package itself delivers, and that is all it can refuse (`validateStaged_iff`). -/

namespace DeployCore
open Directory Crash

/-- The anchors that a package delivers vouch for its own signatures. -/
def SelfVouched (lib : Externals) (package : Bytes) (document : TrustSetDocument) : Prop :=
  ∃ container trust, readPackageContainer (.ofBytes package) ENVELOPE_BOUNDS = .ok container ∧
    documentAnchors lib document = some trust.anchors ∧ container.VouchedBy lib trust

section Verify
variable {lib : Externals} {package member : Bytes} {version commit : String} {epoch : UInt64} {trust active : TrustSet}
  {manifest : PayloadManifest} {container : UnparsedContainer} {request request' : VerifyRequest}

/-- A set that withdraws nothing asks no more of a manifest than any other, when no epoch is compared. -/
theorem checkStatements_selfAdmission (hwithdrawn : trust.withdrawnBuilds = ∅)
    (hrequest : VerifyRequest.forTrust version commit epoch = .ok request)
    (hself : VerifyRequest.forTrustSelfAdmission version commit = .ok request')
    (h : checkStatements manifest request (some active) = .ok ()) :
    checkStatements manifest request' (some trust) = .ok () := by
  cases hrequest
  cases hself
  obtain ⟨_, hcompleteness, h⟩ := Checks.bind_ok h
  obtain ⟨_, hidentifiers, h⟩ := Checks.bind_ok h
  obtain ⟨_, -, h⟩ := Checks.bind_ok h
  obtain ⟨_, htarget, h⟩ := Checks.bind_ok h
  obtain ⟨_, -, himages⟩ := Checks.bind_ok h
  have hwithdrawal : checkWithdrawal manifest trust = .ok () := by
    refine Checks.each_ok_iff.mpr fun artifact _ => if_neg ?_
    simp [TrustSet.isWithdrawn, hwithdrawn]
  rw [checkStatements, hcompleteness, Checks.ok_bind, hidentifiers, Checks.ok_bind]
  dsimp only
  rw [hwithdrawal, Checks.ok_bind, show checkTarget manifest ⟨TRUST_TARGET, version, commit, none, none, _, _⟩ = .ok () from htarget,
    Checks.ok_bind]
  exact himages

/-- A package that verifies under some set verifies under one that withdraws nothing and has no floor just when that
one's anchors vouch for it. -/
theorem verifyUnder_selfAdmission_iff (hwithdrawn : trust.withdrawnBuilds = ∅) (hfloor : trust.minManifestFormatVersion = 0)
    (hrequest : VerifyRequest.forTrust version commit epoch = .ok request)
    (hself : VerifyRequest.forTrustSelfAdmission version commit = .ok request')
    (h : verifyUnder lib (.ofBytes package) active request = .ok ()) :
    verifyUnder lib (.ofBytes package) trust request' = .ok () ↔
      ∃ container, readPackageContainer (.ofBytes package) ENVELOPE_BOUNDS = .ok container ∧
        container.VouchedBy lib trust := by
  constructor
  · intro hverify
    obtain ⟨_, hverified, -⟩ := Checks.map_ok hverify
    obtain ⟨container, _, hread, hauthenticated, -⟩ := verifyPackage_ok (Checks.mapError_ok.mp hverified)
    obtain ⟨hed, hml, -⟩ := authenticateManifest_ok hauthenticated
    exact ⟨container, hread, hed, hml⟩
  · rintro ⟨container, hread, hvouched⟩
    obtain ⟨_, hverified, -⟩ := Checks.map_ok h
    obtain ⟨container', authenticated, hread', hauthenticated, hstated, -⟩ := verifyPackage_ok (Checks.mapError_ok.mp hverified)
    cases hread.symm.trans hread'
    obtain ⟨-, -, hparse, -⟩ := authenticateManifest_ok hauthenticated
    have hfloor' : ∀ version, authenticated.manifest.formatVersion = some version → trust.minManifestFormatVersion ≤ version :=
      fun version _ => by
        rw [hfloor]
        exact UInt32.zero_le
    rw [verifyUnder, verifyPackage_of_vouched hread hvouched hparse hfloor'
      (checkStatements_selfAdmission hwithdrawn hrequest hself hstated)]
    rfl

end Verify

section Validator
variable {platform : Platform} {surroundings : Surroundings} {root package dir : Bytes} {d : Disk}
  {verified : VerifiedGeneration} {active : TrustSet} {reopen : Bytes → Except ErrorKind Source}

/-- The validator judges what a door delivered by the delivered anchors alone. -/
theorem Delivered.validateStaged_iff (h : Delivered platform package active verified)
    (hreopen : reopen (joinPath dir GENERATION_PACKAGE_FILE) = .ok (.ofBytes package)) :
    validateStaged platform.lib reopen dir (material package verified.member verified.epoch) = .ok () ↔
      SelfVouched platform.lib package verified.document := by
  obtain ⟨⟨hcarries, hepoch⟩, ⟨anchors, hprovisional⟩, -, request, hrequest, hverify⟩ := h
  obtain ⟨-, hanchors, hnodup⟩ := document_of_provisional hcarries.read hprovisional
  let candidate : TrustSet := ⟨anchors, ∅, 0, verified.epoch, hnodup⟩
  have hcandidate : selfAdmissionCandidate platform.lib verified.member = some (candidate, verified.epoch) := by
    simp only [selfAdmissionCandidate, hprovisional, Option.bind_eq_bind, Option.bind_some,
      TrustSet.new_of_nodup [] 0 verified.epoch hnodup]
    rfl
  have hself : verifyUnder platform.lib (.ofBytes package) candidate
      ⟨TRUST_TARGET, toString verified.epoch, memberDigest platform.lib verified.member, none, none, fun _ => rfl,
        VerifyRequest.nameless TRUST_TARGET⟩ =
        .ok () ↔ SelfVouched platform.lib package verified.document := by
    rw [verifyUnder_selfAdmission_iff rfl rfl hrequest rfl hverify]
    constructor
    · rintro ⟨container, hread, hvouched⟩
      exact ⟨container, candidate, hread, hanchors, hvouched⟩
    · rintro ⟨container, trust, hread, htrust, hvouched⟩
      exact ⟨container, hread, hvouched.congr (Option.some.inj (hanchors.symm.trans htrust))⟩
  have hzero : verified.epoch ≠ 0 := hepoch ▸ hcarries.epoch_ne_zero
  -- behind the verification, the document and the record read back
  rw [← hself, validateStaged.eq_def]
  dsimp only [material]
  rw [hcandidate]
  show (reopen (joinPath dir GENERATION_PACKAGE_FILE)).mapError _ >>= _ = _ ↔ _
  rw [hreopen]
  show (verifyUnder platform.lib (.ofBytes package) candidate _ >>= _) = _ ↔ _
  refine ⟨fun hvalid => ?_, fun hvalid => ?_⟩
  · obtain ⟨_, hvalid, -⟩ := Checks.bind_ok hvalid
    exact hvalid
  · rw [hvalid, Checks.ok_bind, hcarries.read]
    show parseEpochRecord (renderEpochRecord verified.epoch) >>= _ = _
    rw [parseEpochRecord_render hzero, Checks.ok_bind]
    exact if_pos hepoch

/-- The error of a call of the engine is an I/O error or the validator's. -/
theorem isIo_of_callError {host : Host ReleaseTrustError} {files : List GenerationFile} {e : ReleaseTrustError}
    (h : CallError host files e) : e.IsIo ∨ ∃ dir, host.validate dir files = .error e := by
  rcases h with ⟨path, kind, rfl⟩ | hdir
  · exact .inl trivial
  · exact .inr hdir

/-- A delivered package that is judged fit to be installed is accepted by the staged validator just when the anchors
that it delivers vouch for its own signatures. If they do, the accept fails with I/O errors only; if not, it never
succeeds. -/
theorem validator_accepts_iff (platform : Platform) (surroundings : Surroundings) (root package : Bytes) (d : Disk)
    (verified : VerifiedGeneration)
    (hjudged : (judgeDelivered platform.lib root package).value (lookDevice platform surroundings) d =
      .ok (.install verified))
    (hreopen : ∀ path, surroundings.reopen path = .ok (.ofBytes package)) :
    (∀ dir, validateStaged platform.lib surroundings.reopen dir (material package verified.member verified.epoch) = .ok () ↔
      SelfVouched platform.lib package verified.document) ∧
    ∀ out w, Runs (trustDevice platform surroundings) (acceptGeneration platform.lib root package) ⟨d, []⟩ out w →
      (SelfVouched platform.lib package verified.document → ∀ e, out = .error e → e.IsIo) ∧
      (¬SelfVouched platform.lib package verified.document → ∀ admitted, out ≠ .ok admitted) := by
  obtain ⟨active, -, hdelivered, hstored⟩ := judgeDelivered_install hjudged
  have hvalid : ∀ dir, validateStaged platform.lib surroundings.reopen dir
      (material package verified.member verified.epoch) = .ok () ↔ SelfVouched platform.lib package verified.document :=
    fun dir => hdelivered.validateStaged_iff (hreopen _)
  refine ⟨hvalid, fun out w hruns => ?_⟩
  rcases runs_judged givesUp_judgeDelivered hruns with ⟨-, hnone, herror⟩ | ⟨judgement, w₁, hlooked, hvalue, hrest⟩
  · refine ⟨fun _ e he => (herror e he).resolve_right fun hvalue => ?_, fun _ admitted => hnone admitted⟩
    cases hjudged.symm.trans hvalue
  cases hjudged.symm.trans hvalue
  obtain ⟨c, hcall, hok, herror⟩ := runs_installVerified hrest
  have hcheck : checkMaterial c.material = .ok () := by
    rw [hcall.material]
    rfl
  refine ⟨fun hvouched e he => ?_, fun hvouched admitted hadmitted => ?_⟩
  · rcases isIo_of_callError (hcall.went.error (by rw [hcall.tree]) hcheck e (herror e he)) with hio | ⟨dir, hrefused⟩
    · exact hio
    · rw [hcall.host, hcall.material] at hrefused
      cases ((hvalid dir).mpr hvouched).symm.trans hrefused
  · obtain ⟨hact, -⟩ := hok admitted hadmitted
    cases hchanged : admitted.activation.changed with
    | true =>
      obtain ⟨dir, haccepted⟩ := hcall.went.accepted hact hchanged
      rw [hcall.host, hcall.material] at haccepted
      exact hvouched ((hvalid dir).mp haccepted)
    | false =>
      rcases (Runs.of_wp hcall.went activateGeneration_call).2 _ hact with ⟨-, -, hmatches⟩ | ⟨hnew, -⟩
      · have hserved := hmatches.served ⟨GENERATION_PACKAGE_FILE, package⟩ (by simp [hcall.material, material])
        rw [hcall.host, hcall.before, hlooked.1] at hserved
        exact hstored hserved
      · rw [hnew] at hchanged
        cases hchanged

/-- The second generation lists the keys it is signed with, and is accepted. -/
theorem validator_accepts_second : SelfVouched samplePlatform.lib SampleGeneration.second.package SampleGeneration.second.document ∧
    ∀ out w, Runs (trustDevice samplePlatform (sampleSurroundings SampleGeneration.second.package))
      (acceptGeneration samplePlatform.lib sampleRoot SampleGeneration.second.package) ⟨seeded, []⟩ out w →
        ∀ e, out = .error e → e.IsIo := by
  have hlt : 1 < SampleGeneration.second.epoch := by decide
  have hanchors : SampleGeneration.second.anchors = SampleGeneration.first.anchors := rfl
  obtain ⟨haccepts, hruns⟩ := validator_accepts_iff samplePlatform (sampleSurroundings SampleGeneration.second.package) sampleRoot
    SampleGeneration.second.package seeded _ (value_judgeDelivered_seeded rfl hlt) fun _ => rfl
  have hvouched := (haccepts []).mp (validateStaged_sample hanchors [])
  exact ⟨hvouched, fun out w h => (hruns out w h).1 hvouched⟩

/-- A generation signed with keys that it no longer lists is judged fit to be installed, and refused by the staged
validator. -/
theorem validator_refuses_rotated :
    (judgeDelivered samplePlatform.lib sampleRoot SampleGeneration.rotated.package).value
        (lookDevice samplePlatform (sampleSurroundings SampleGeneration.rotated.package)) seeded =
      .ok (.install ⟨SampleGeneration.rotated.document, 3, SampleGeneration.rotated.member⟩) ∧
    ∀ dir, validateStaged samplePlatform.lib (sampleSurroundings SampleGeneration.rotated.package).reopen dir
      (material SampleGeneration.rotated.package SampleGeneration.rotated.member 3) ≠ .ok () := by
  have hlt : 1 < SampleGeneration.rotated.epoch := by decide
  have hjudged := @value_judgeDelivered_seeded seeded (sampleSurroundings SampleGeneration.rotated.package) _ rfl hlt
  refine ⟨hjudged, fun dir hvalid => ?_⟩
  obtain ⟨active, -, hdelivered, -⟩ := judgeDelivered_install hjudged
  have hreopen : (sampleSurroundings SampleGeneration.rotated.package).reopen (joinPath dir GENERATION_PACKAGE_FILE) =
      .ok (.ofBytes SampleGeneration.rotated.package) := rfl
  obtain ⟨container, trust, -, hanchors, ⟨anchor, hmem, -, -, _, -, hverifies⟩, -⟩ :=
    (hdelivered.validateStaged_iff hreopen).mp hvalid
  have hlisted : SampleGeneration.rotated.anchors = trust.anchors :=
    Option.some.inj ((documentAnchors_keysListed SampleGeneration.rotated.length_key).symm.trans hanchors)
  -- its keys do not begin with a zero
  rw [← hlisted] at hmem
  have hkey : ∃ algorithm, anchor.publicKey = SampleGeneration.rotated.key algorithm := by
    rcases List.mem_cons.mp hmem with rfl | hmem
    · exact ⟨.ed25519, rfl⟩
    · rw [List.mem_singleton.mp hmem]
      exact ⟨.mlDsa87, rfl⟩
  obtain ⟨algorithm, hkey⟩ := hkey
  have hhead : (SampleGeneration.rotated.key algorithm).head? = some 0 := by
    rw [← hkey]
    exact beq_iff_eq.mp hverifies
  cases algorithm
  · cases hhead
  · cases hhead

end Validator

end DeployCore
