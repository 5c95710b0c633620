import DeployCore.Manifest

/-! # Verdicts on a package

The verifier's error taxonomy and the two maps into it, from the container layer's errors and from the
manifest's. -/

namespace DeployCore

/-- Which identity field of an artifact was refused. -/
inductive BuildIdentifier
  | component
  | version
  | commit
  deriving DecidableEq

/-- The first facet in which two declarations of one reference differ. -/
inductive ReferenceConflict
  | configDigest
  | platform
  | owner
  | lifecycle
  deriving DecidableEq

inductive ImageVerifyError
  | platformMismatch (archivePath : String) (targetArch : TargetArch) (declared : ImageArchitecture)
  | nonCanonicalReservedReference (archivePath reference : String) (expected : Option String)
  | reservedReferenceLifecycle (archivePath reference : String)
  | conflictingReference (archivePath reference firstArchivePath firstReference : String) (conflict : ReferenceConflict)
  | missingNamespace (archivePath : String)
  | namespaceMismatch (archivePath expected declared : String)
  | ownerComponentMismatch (archivePath expected declared : String)
  deriving DecidableEq

/-- `VerifyError`, as far as a verification raises it; the variants `manifestParse` and `invalidManifest` are the
two of `Payload`'s that wrap a manifest's error. -/
inductive VerifyError
  | badSignature (algorithm : SignatureAlgorithm)
  | unknownKeyId (algorithm : SignatureAlgorithm) (keyId : String)
  | revokedKey (algorithm : SignatureAlgorithm) (keyId : String)
  | unsupportedManifestFormat (found min max : UInt32)
  | unlistedMember (name : String)
  | duplicatePath (path : String)
  | unsafePath (path : String)
  | missingRequiredMember (member : Option String)
  | unsafeBuildIdentifier (field : BuildIdentifier) (value : String)
  | targetMismatch (component version commit : String)
  | withdrawnBuild (packageId version commit : String)
  | staleTrustSet (delivered active : UInt64)
  | payload (error : PayloadError)
  | manifestParse
  | invalidManifest (error : ManifestError)
  | image (error : ImageVerifyError)
  deriving DecidableEq

def mapManifestError : ManifestError → VerifyError
  | .duplicateArchivePath path => .duplicatePath path
  | .unsafeArchivePath path => .unsafePath path
  | .unsupportedManifestFormat found min max => .unsupportedManifestFormat found min max
  | .decode => .manifestParse
  | other => .invalidManifest other

end DeployCore
