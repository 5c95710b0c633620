import DeployCore.RewrapVerdict

/-! # Stricter trust

A trust set is replaced when keys are revoked, builds withdrawn, the format floor raised or the epoch advanced. Each
of these moves down the order of `TrustSet`, and the doors to a package are monotone along it: nothing that is refused
comes to be accepted by tightening the set, and what a tighter set accepts reads the same under the looser one
(`verifyPackage_mono`). Between any two sets, what one accepts the other refuses for a reason of its own
(`verifyPackage_refuses_for_trust`). -/

namespace DeployCore

/-- One set is below another if it has no live anchor of its own, withdraws all that the other does, and asks for no
older a format and no older an epoch. -/
instance : Preorder TrustSet where
  le t' t := (∀ anchor ∈ t'.anchors, anchor.revoked = false → anchor ∈ t.anchors) ∧
    t.withdrawnBuilds ⊆ t'.withdrawnBuilds ∧ t.minManifestFormatVersion ≤ t'.minManifestFormatVersion ∧ t.epoch ≤ t'.epoch
  le_refl t := ⟨fun _ hmem _ => hmem, Finset.Subset.refl _, UInt32.le_refl _, UInt64.le_refl _⟩
  le_trans _ _ _ := fun ⟨hanchors, hwithdrawn, hfloor, hepoch⟩ ⟨hanchors', hwithdrawn', hfloor', hepoch'⟩ =>
    ⟨fun anchor hmem hlive => hanchors' anchor (hanchors anchor hmem hlive) hlive,
      hwithdrawn'.trans hwithdrawn, UInt32.le_trans hfloor' hfloor, UInt64.le_trans hepoch' hepoch⟩

section
variable {lib : Externals} {src : Source} {trust trust' : TrustSet} {request : VerifyRequest} {manifest : PayloadManifest}
  {container : UnparsedContainer} {algorithm : SignatureAlgorithm} {message : Bytes} {signature : EnvelopeBlock}
  {anchor : TrustAnchor}

theorem TrustSet.Vouches.mono (hle : trust' ≤ trust) (h : trust'.Vouches lib algorithm message signature false anchor) :
    trust.Vouches lib algorithm message signature false anchor :=
  ⟨hle.1 anchor h.mem h.revoked_eq, h.algorithm_eq, h.revoked_eq, h.verifies⟩

theorem UnparsedContainer.VouchedBy.mono (hle : trust' ≤ trust) (h : container.VouchedBy lib trust') :
    container.VouchedBy lib trust :=
  ⟨h.1.imp fun _ hvouches => hvouches.mono hle, h.2.imp fun _ hvouches => hvouches.mono hle⟩

theorem checkWithdrawal_mono (hle : trust' ≤ trust) (h : checkWithdrawal manifest trust' = .ok ()) :
    checkWithdrawal manifest trust = .ok () := by
  refine Checks.each_ok_iff.mpr fun artifact hmem => if_neg fun hwithdrawn => ?_
  refine Checks.each_unless_ok h artifact hmem ?_
  simp only [TrustSet.isWithdrawn, decide_eq_true_eq] at hwithdrawn ⊢
  exact hle.2.1 hwithdrawn

theorem checkEpoch_mono (hle : trust' ≤ trust) (h : checkEpoch request trust' = .ok ()) :
    checkEpoch request trust = .ok () := by
  cases hepoch : request.epoch with
  | none => rw [checkEpoch, hepoch]
  | some delivered =>
    rw [checkEpoch, hepoch]
    exact if_pos (UInt64.lt_of_le_of_lt hle.2.2.2 (checkEpoch_ok h hepoch))

theorem checkStatements_mono (hle : trust' ≤ trust) (h : checkStatements manifest request (some trust') = .ok ()) :
    checkStatements manifest request (some trust) = .ok () := by
  obtain ⟨_, hcompleteness, h⟩ := Checks.bind_ok h
  obtain ⟨_, hidentifiers, h⟩ := Checks.bind_ok h
  obtain ⟨_, hwithdrawal, h⟩ := Checks.bind_ok h
  obtain ⟨_, htarget, h⟩ := Checks.bind_ok h
  obtain ⟨_, hepoch, himages⟩ := Checks.bind_ok h
  rw [checkStatements, hcompleteness, Checks.ok_bind, hidentifiers, Checks.ok_bind]
  dsimp only
  rw [checkWithdrawal_mono hle hwithdrawal, Checks.ok_bind, htarget, Checks.ok_bind, checkEpoch_mono hle hepoch,
    Checks.ok_bind]
  exact himages

/-- A container that the stricter set accepts is accepted with the same result. -/
theorem judge_mono (hle : trust' ≤ trust) {verified : VerifiedPackage}
    (h : judge lib trust' request container = .ok verified) : judge lib trust request container = .ok verified := by
  obtain ⟨manifest, hmanifest, h⟩ := Checks.bind_ok h
  obtain ⟨authenticated, hauthenticated, hmanifest⟩ := Checks.bind_ok hmanifest
  obtain ⟨_, hstatements, hmanifest⟩ := Checks.bind_ok hmanifest
  cases hmanifest
  cases h
  obtain ⟨hed, hml, hparse, hfloor⟩ := authenticateManifest_ok hauthenticated
  have hvouched : container.VouchedBy lib trust' := ⟨hed, hml⟩
  obtain ⟨authenticated', hauthenticated', hsame⟩ := authenticateManifest_of_vouched (hvouched.mono hle) hparse
    fun version hversion => UInt32.le_trans hle.2.2.1 (hfloor version hversion)
  rw [judge, authenticate, hauthenticated', Checks.ok_bind, hsame, checkStatements_mono hle hstatements]
  rfl

theorem verifyPackage_of_le (hle : trust' ≤ trust) {verified : VerifiedPackage}
    (h : verifyPackage lib src trust' request = .ok verified) : verifyPackage lib src trust request = .ok verified := by
  rw [verifyPackage_eq_judge] at h ⊢
  obtain ⟨container, hcontainer, h⟩ := Checks.bind_ok h
  rw [hcontainer]
  exact judge_mono hle h

end

/-! ### The reasons of a set -/

/-- A refusal that a trust set gives for what it holds: its keys, its floor, a build it withdraws, its epoch. -/
def VerifyError.OfTrust (trust : TrustSet) : VerifyError → Prop
  | .badSignature _ | .unknownKeyId _ _ => True
  | .revokedKey algorithm keyId => ∃ anchor ∈ trust.anchors, anchor.algorithm = algorithm ∧ anchor.revoked = true ∧
      anchor.keyId = keyId
  | .unsupportedManifestFormat found min _ => min = trust.minManifestFormatVersion ∧ found < min
  | .withdrawnBuild component version commit => (component, version, commit) ∈ trust.withdrawnBuilds
  | .staleTrustSet delivered active => active = trust.epoch ∧ delivered ≤ active
  | _ => False

section
variable {lib : Externals} {src : Source} {trust trust' : TrustSet} {request : VerifyRequest} {manifest : PayloadManifest}
  {container : UnparsedContainer} {e : VerifyError}

open Checks in
theorem refuses_verifySignature (algorithm : SignatureAlgorithm) (message : Bytes) (signature keyIdBlock : EnvelopeBlock) :
    Refuses (·.OfTrust trust) (verifySignature lib algorithm message signature keyIdBlock trust) := by
  intro e h
  have hnone : ∀ anchor, ¬trust.Vouches lib algorithm message signature false anchor := fun anchor hvouches => by
    obtain ⟨_, hok⟩ := verifySignature_ok_iff.mpr ⟨anchor, hvouches⟩
    cases hok.symm.trans h
  have hcases := verifySignature_of_none keyIdBlock hnone
  split at hcases
  · next anchor hfirst =>
    cases hcases.symm.trans h
    have hvouches := TrustSet.vouches_of_firstVouching hfirst
    exact ⟨anchor, hvouches.mem, hvouches.algorithm_eq, hvouches.revoked_eq, rfl⟩
  · rcases hcases with hbad | ⟨hint, hunknown⟩
    · cases hbad.symm.trans h
      trivial
    · cases hunknown.symm.trans h
      trivial

open Checks in
/-- A manifest that reads and whose statements pass under one set is refused under another for trust alone. -/
theorem refuses_judge (hparse : PayloadManifest.parse lib container.manifestBytes container.footerVersion = .ok manifest)
    (hstated : checkStatements manifest request (some trust) = .ok ()) :
    Refuses (·.OfTrust trust') (judge lib trust' request container) := by
  have hdeclared : (parseFormatVersion lib container.manifestBytes).mapError mapManifestError = .ok manifest.formatVersion := by
    rw [parseFormatVersion_of_parse hparse]
    rfl
  have hfloor : Refuses (·.OfTrust trust') (manifest.formatVersion.elim (.ok ()) trust'.checkFormatVersion) := by
    cases manifest.formatVersion with
    | none => exact .ok ()
    | some found =>
      show Refuses _ (trust'.checkFormatVersion found)
      unfold TrustSet.checkFormatVersion
      split
      · next hlt => exact .error ⟨rfl, hlt⟩
      · exact .ok ()
  have hauthenticated : Refuses (·.OfTrust trust') (authenticateManifest lib container trust') := by
    refine .bind (refuses_verifySignature _ _ _ _) fun _ => .bind (refuses_verifySignature _ _ _ _) fun _ => ?_
    rw [hdeclared, ok_bind]
    refine .bind hfloor fun _ => ?_
    rw [hparse]
    exact .ok _
  have hstatements : Refuses (·.OfTrust trust') (checkStatements manifest request (some trust')) := by
    obtain ⟨_, hcompleteness, h⟩ := bind_ok hstated
    obtain ⟨_, hidentifiers, h⟩ := bind_ok h
    obtain ⟨_, -, h⟩ := bind_ok h
    obtain ⟨_, htarget, h⟩ := bind_ok h
    obtain ⟨_, -, himages⟩ := bind_ok h
    rw [checkStatements, hcompleteness, ok_bind, hidentifiers, ok_bind]
    refine .bind (refuses_each fun artifact _ => ?_) fun _ => ?_
    · refine .ite_of (fun hwithdrawn => .error ?_) fun _ => .ok ()
      show (_, _, _) ∈ trust'.withdrawnBuilds
      simpa [TrustSet.isWithdrawn] using hwithdrawn
    · rw [htarget, ok_bind]
      refine .bind ?_ fun _ => ?_
      · show Refuses _ (checkEpoch request trust')
        unfold checkEpoch
        split
        · exact .ok ()
        · exact .ite_of (fun _ => .ok ()) fun hlt => .error ⟨rfl, UInt64.not_lt.mp hlt⟩
      · intro e he
        cases himages.symm.trans he
  refine .bind (.bind_of hauthenticated fun authenticated hok => ?_) fun _ => .ok _
  have hsame : authenticated.manifest = manifest :=
    Except.ok.inj ((authenticateManifest_ok hok).2.2.1.symm.trans hparse)
  rw [hsame]
  exact .bind hstatements fun _ => .ok _

end

/-- What one trust set accepts, any other accepts with the same result or refuses for what it holds itself. -/
theorem verifyPackage_refuses_for_trust {trust trust' : TrustSet} {lib : Externals} {src : Source}
    {request : VerifyRequest} {verified : VerifiedPackage} (h : verifyPackage lib src trust request = .ok verified) :
    verifyPackage lib src trust' request = .ok verified ∨
      ∃ e, verifyPackage lib src trust' request = .error e ∧ e.OfTrust trust' := by
  obtain ⟨container, authenticated, hcontainer, hauthenticated, hstatements, hpayload⟩ := verifyPackage_ok h
  have hparse := (authenticateManifest_ok hauthenticated).2.2.1
  have hread : verifyPackage lib src trust' request = judge lib trust' request container := by
    rw [verifyPackage_eq_judge, hcontainer]
    rfl
  rw [hread]
  cases hjudge : judge lib trust' request container with
  | error e => exact .inr ⟨e, rfl, refuses_judge hparse hstatements e hjudge⟩
  | ok verified' =>
    refine .inl (congrArg Except.ok ?_)
    obtain ⟨manifest, hmanifest, hok⟩ := Checks.bind_ok hjudge
    obtain ⟨authenticated', hauthenticated', hmanifest⟩ := Checks.bind_ok hmanifest
    obtain ⟨_, -, hmanifest⟩ := Checks.bind_ok hmanifest
    cases hmanifest
    cases hok
    have hsame : authenticated'.manifest = authenticated.manifest :=
      Except.ok.inj ((authenticateManifest_ok hauthenticated').2.2.1.symm.trans hparse)
    obtain ⟨payload⟩ := verified
    obtain rfl : payload = container.intoPayload authenticated.manifest := hpayload
    rw [hsame]

theorem verifyPackage_refuses_for_trust_withdrawn :
    ∃ e, verifyPackage trustExternals (.ofBytes trustPackage.bytes)
        (sampleTrustSet {("trust", "8", "0123456789abcdef0123456789abcdef01234567")}) trustRequest = .error e ∧
      e.OfTrust (sampleTrustSet {("trust", "8", "0123456789abcdef0123456789abcdef01234567")}) := by
  obtain ⟨verified, hverified, hmanifest⟩ := @verifyPackage_trustPackage ∅ (by simp)
  refine (verifyPackage_refuses_for_trust hverified).resolve_left fun hkept => ?_
  obtain ⟨_, authenticated, -, -, hstatements, hpayload⟩ := verifyPackage_ok hkept
  have hsame : authenticated.manifest = trustManifest := by
    rw [← hmanifest, hpayload]
    rfl
  have hnot := (checkStatements_ok hstatements).not_withdrawn
  rw [hsame] at hnot
  exact hnot _ List.mem_cons_self (Finset.mem_singleton_self _)

/-- A package that is accepted under a trust set is accepted, with the same result, under every set that is no
stricter: by the verification, by the bounded one, and by the extraction behind it. -/
theorem verifyPackage_mono {trust trust' : TrustSet} (hle : trust' ≤ trust) (lib : Externals) (src : Source)
    (request : VerifyRequest) :
    (∀ verified, verifyPackage lib src trust' request = .ok verified →
      verifyPackage lib src trust request = .ok verified) ∧
    (∀ bounds verified, verifyPackageBounded lib src trust' request bounds = .ok verified →
      verifyPackageBounded lib src trust request bounds = .ok verified) ∧
    ∀ decode staging, verifyAndExtract lib decode src trust' request = .ok staging →
      verifyAndExtract lib decode src trust request = .ok staging := by
  refine ⟨fun verified => verifyPackage_of_le hle, fun bounds verified h => ?_, fun decode staging h => ?_⟩
  · rw [verifyPackageBounded_eq_judge] at h ⊢
    obtain ⟨container, hcontainer, h⟩ := Checks.bind_ok h
    obtain ⟨accepted, haccepted, hverified⟩ := Checks.map_ok (Checks.mapError_ok.mp h)
    rw [hcontainer]
    show ((judge lib trust request container).map _).mapError _ = _
    rw [judge_mono hle haccepted, ← hverified]
    rfl
  · obtain ⟨verified, hverified, h⟩ := Checks.bind_ok h
    rw [verifyAndExtract, verifyPackage_of_le hle (Checks.mapError_ok.mp hverified)]
    exact h

/-- Withdrawing another build keeps a package of trust material that the looser set accepts. -/
theorem verifyPackage_mono_withdrawal :
    ∃ verified, verifyPackage trustExternals (.ofBytes trustPackage.bytes) (sampleTrustSet {("trust", "trust", "8")})
        trustRequest = .ok verified ∧
      verifyPackage trustExternals (.ofBytes trustPackage.bytes) (sampleTrustSet ∅) trustRequest = .ok verified := by
  have hle : sampleTrustSet {("trust", "trust", "8")} ≤ sampleTrustSet ∅ :=
    ⟨fun _ hmem _ => hmem, Finset.empty_subset _, UInt32.le_refl _, UInt64.le_refl _⟩
  obtain ⟨verified, hverified, -⟩ := @verifyPackage_trustPackage {("trust", "trust", "8")} (by decide)
  exact ⟨verified, hverified, (verifyPackage_mono hle _ _ _).1 verified hverified⟩

end DeployCore
