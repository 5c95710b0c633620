import DeployCore.Verify

/-! # Bounded verification

`verifyPackageBounded` holds the footer's manifest and archive lengths to ceilings before either block is read, and
tells retained-storage failures apart. It refines `verifyPackage`: a refusal for a ceiling is one the footer
deserves, and every other verdict is the unbounded one. -/

namespace DeployCore

structure BoundedVerified where
  manifest : PayloadManifest
  archiveOffset : UInt64
  archiveLen : UInt64
  deriving DecidableEq

structure BoundedAuthenticated where
  authenticated : Authenticated
  archiveOffset : UInt64
  archiveLen : UInt64

/-- Why a bounded verification refused a package. -/
inductive BoundedVerifyError
  | verify (error : VerifyError)
  | limitExceeded (resource : LimitResource) (limit : UInt64)
  | io (error : IoError)
  deriving DecidableEq

/-- The container reader's refusal as a verdict. -/
def BoundedVerifyError.ofContainer : BoundedContainerError → BoundedVerifyError
  | .payload error => .verify (.payload error)
  | .limitExceeded resource limit => .limitExceeded resource limit
  | .retainedIo error => .io error

/-- The bounded container read and the authentication, and no statement check. -/
def authenticateBounded (lib : Externals) (src : Source) (trust : TrustSet) (bounds : ContainerBounds) :
    Except BoundedVerifyError BoundedAuthenticated := do
  let container ← (readPackageContainerBounded src ENVELOPE_BOUNDS bounds).mapError .ofContainer
  let authenticated ← (authenticateManifest lib container trust).mapError .verify
  .ok { authenticated, archiveOffset := container.archiveOffset, archiveLen := container.archiveLen }

def verifyPackageBounded (lib : Externals) (src : Source) (trust : TrustSet) (request : VerifyRequest)
    (bounds : ContainerBounds) : Except BoundedVerifyError BoundedVerified := do
  let ⟨authenticated, archiveOffset, archiveLen⟩ ← authenticateBounded lib src trust bounds
  (checkStatements authenticated.manifest request (some trust)).mapError .verify
  .ok { manifest := authenticated.manifest, archiveOffset, archiveLen }

/-- The part of a verified package that a bounded verification returns. -/
def BoundedVerified.ofPackage (verified : VerifiedPackage) : BoundedVerified where
  manifest := verified.payload.manifest
  archiveOffset := verified.payload.archiveOffset
  archiveLen := verified.payload.archiveLen

/-- The footer locates and validates, and the block of `resource` is longer than its ceiling. -/
def Exceeds (src : Source) (bounds : ContainerBounds) (resource : LimitResource) (limit : UInt64) : Prop :=
  ∃ fileLen footer footerStart, src.len = .ok fileLen ∧ locateFooter src fileLen = .ok (.found footer footerStart) ∧
    validateFooter footer footerStart = .ok () ∧
    match resource with
    | .rawManifest => limit = bounds.maxManifestLen ∧ limit < footer.manifestLen
    | .compressedArchive =>
      limit = bounds.maxArchiveLen ∧ limit < footer.archiveLen ∧ footer.manifestLen ≤ bounds.maxManifestLen
    | _ => False

/-- A bounded verdict that is the verdict `unbounded`: the same package, the same error, or the original of the
retained-storage failure the other one carries. -/
def SameVerdict (unbounded : Except VerifyError VerifiedPackage) : Except BoundedVerifyError BoundedVerified → Prop
  | .ok verdict => ∃ verified, unbounded = .ok verified ∧ verdict = .ofPackage verified
  | .error (.verify e) => unbounded = .error e
  | .error (.io original) => unbounded = .error (.payload (.io (.retained original)))
  | .error (.limitExceeded _ _) => False

section
variable {lib : Externals} {src : Source} {trust : TrustSet} {request : VerifyRequest} {bounds : ContainerBounds}

/-- A container, however it was read, through the authentication and the statements. -/
def judge (lib : Externals) (trust : TrustSet) (request : VerifyRequest) (container : UnparsedContainer) :
    Except VerifyError VerifiedPackage := do
  let manifest ← authenticate lib container trust request
  .ok ⟨container.intoPayload manifest⟩

theorem verifyPackage_eq_judge : verifyPackage lib src trust request =
    ((readPackageContainer src ENVELOPE_BOUNDS).mapError .payload).bind (judge lib trust request) := rfl

theorem verifyPackageBounded_eq_judge : verifyPackageBounded lib src trust request bounds =
    ((readPackageContainerBounded src ENVELOPE_BOUNDS bounds).mapError .ofContainer).bind fun container =>
      ((judge lib trust request container).map .ofPackage).mapError .verify := by
  unfold verifyPackageBounded authenticateBounded judge authenticate
  cases readPackageContainerBounded src ENVELOPE_BOUNDS bounds with
  | error e => rfl
  | ok container =>
    simp only [bind, Except.bind, Except.mapError]
    cases authenticateManifest lib container trust with
    | error e => rfl
    | ok authenticated => 
      dsimp only
      cases checkStatements authenticated.manifest request (some trust) <;> rfl

theorem check_eq_limitExceeded_iff {footer : Footer} {resource : LimitResource} {limit : UInt64} :
    bounds.check footer = .error (.limitExceeded resource limit) ↔
      match resource with
      | .rawManifest => limit = bounds.maxManifestLen ∧ limit < footer.manifestLen
      | .compressedArchive =>
        limit = bounds.maxArchiveLen ∧ limit < footer.archiveLen ∧ footer.manifestLen ≤ bounds.maxManifestLen
      | _ => False := by
  unfold ContainerBounds.check
  cases resource <;> grind

theorem exceeds_iff {resource : LimitResource} {limit : UInt64} : Exceeds src bounds resource limit ↔
    ∃ footer, locatedFooter src = .ok (some footer) ∧
      bounds.check footer = .error (.limitExceeded resource limit) := by
  simp only [Exceeds, locatedFooter_eq_some, check_eq_limitExceeded_iff]
  constructor
  · rintro ⟨fileLen, footer, footerStart, hlen, hlocation, hvalid, hexceeds⟩
    exact ⟨footer, ⟨fileLen, footerStart, hlen, hlocation, hvalid⟩, hexceeds⟩
  · rintro ⟨footer, ⟨fileLen, footerStart, hlen, hlocation, hvalid⟩, hexceeds⟩
    exact ⟨fileLen, footer, footerStart, hlen, hlocation, hvalid, hexceeds⟩

/-- The bounded read refuses a footer that exceeds a ceiling, and otherwise reads what the other read does. -/
theorem readPackageContainerBounded_cases (src : Source) (envelope : EnvelopeBounds) (bounds : ContainerBounds) :
    (∃ resource limit, Exceeds src bounds resource limit ∧
      readPackageContainerBounded src envelope bounds = .error (.limitExceeded resource limit)) ∨
    (∀ resource limit, ¬Exceeds src bounds resource limit) ∧
      readPackageContainerBounded src envelope bounds = (readPackageContainer src envelope).mapError .ofPayload := by
  simp only [readPackageContainerBounded_eq, exceeds_iff]
  split
  · next footer hfooter =>
    cases hcheck : bounds.check footer with
    | ok =>
      refine .inr ⟨?_, rfl⟩
      rintro resource limit ⟨footer', hfooter', hexceeds⟩
      cases hfooter.symm.trans hfooter'
      cases hcheck.symm.trans hexceeds
    | error e =>
      unfold ContainerBounds.check at hcheck
      refine .inl ?_
      split at hcheck
      · cases hcheck
        exact ⟨_, _, ⟨footer, hfooter, by simp [ContainerBounds.check, *]⟩, rfl⟩
      · split at hcheck
        · cases hcheck
          exact ⟨_, _, ⟨footer, hfooter, by simp [ContainerBounds.check, *]⟩, rfl⟩
        · cases hcheck
  · next hnot =>
    refine .inr ⟨?_, rfl⟩
    rintro resource limit ⟨footer, hfooter, -⟩
    exact hnot footer hfooter

/-- A verdict of the container layer, as the two verifications report it. -/
theorem ofContainer_ofPayload (e : PayloadError) :
    (∃ original, e = .io (.retained original) ∧
      BoundedVerifyError.ofContainer (.ofPayload e) = .io original) ∨
    BoundedVerifyError.ofContainer (.ofPayload e) = .verify (.payload e) := by
  cases e with
  | io error =>
    cases error with
    | retained original => exact .inl ⟨original, rfl, rfl⟩
    | os kind => exact .inr rfl
  | _ => exact .inr rfl

/-- Short of a ceiling, the bounded verdict is the unbounded one. -/
theorem sameVerdict_of_not_exceeds (h : readPackageContainerBounded src ENVELOPE_BOUNDS bounds =
      (readPackageContainer src ENVELOPE_BOUNDS).mapError .ofPayload) :
    SameVerdict (verifyPackage lib src trust request) (verifyPackageBounded lib src trust request bounds) := by
  rw [verifyPackage_eq_judge, verifyPackageBounded_eq_judge, h]
  cases readPackageContainer src ENVELOPE_BOUNDS with
  | error e =>
    show SameVerdict (.error (.payload e)) (.error (.ofContainer (.ofPayload e)))
    rcases ofContainer_ofPayload e with ⟨original, rfl, heq⟩ | heq
    · rw [heq]
      rfl
    · rw [heq]
      rfl
  | ok container =>
    show SameVerdict (judge lib trust request container)
      (((judge lib trust request container).map .ofPackage).mapError .verify)
    cases judge lib trust request container with
    | error e => rfl
    | ok verified => exact ⟨verified, rfl, rfl⟩

end

/-- A bounded verification refuses a package for a ceiling just when its validated footer exceeds that ceiling, and
any other verdict of it is the unbounded verification's. -/
theorem verifyPackageBounded_refines (lib : Externals) (src : Source) (trust : TrustSet) (request : VerifyRequest)
    (bounds : ContainerBounds) :
    (∃ resource limit, verifyPackageBounded lib src trust request bounds = .error (.limitExceeded resource limit) ∧
      Exceeds src bounds resource limit) ∨
    (∀ resource limit, ¬Exceeds src bounds resource limit) ∧
      SameVerdict (verifyPackage lib src trust request) (verifyPackageBounded lib src trust request bounds) := by
  rcases readPackageContainerBounded_cases src ENVELOPE_BOUNDS bounds with
    ⟨resource, limit, hexceeds, hread⟩ | ⟨hnot, hread⟩
  · refine .inl ⟨resource, limit, ?_, hexceeds⟩
    rw [verifyPackageBounded_eq_judge, hread]
    rfl
  · exact .inr ⟨hnot, sameVerdict_of_not_exceeds hread⟩

end DeployCore
