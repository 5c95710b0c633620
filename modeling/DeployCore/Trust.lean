import DeployCore.Manifest

/-! # Trust sets and requests

What a verification is made against. A `TrustSet` holds anchors under distinct key ids, each with a key of its
algorithm's length; a `VerifyRequest` carries an epoch only for the reserved target and a namespace only for
another one. Both can only be built so. -/

namespace DeployCore

def ED25519_PUBLIC_KEY_LEN : Nat := 32
def ML_DSA_87_PUBLIC_KEY_LEN : Nat := 2592

def TRUST_TARGET : String := "trust"

def SignatureAlgorithm.publicKeyLen : SignatureAlgorithm → Nat
  | .ed25519 => ED25519_PUBLIC_KEY_LEN
  | .mlDsa87 => ML_DSA_87_PUBLIC_KEY_LEN

/-- The `key_id` of a public key. -/
def keyId (lib : Externals) (publicKey : Bytes) : String :=
  toHex (lib.sha256 publicKey)

/-- Why a trust set or a request cannot be built. -/
inductive InputError
  | duplicateAnchor (keyId : String)
  | reservedTarget
  | invalidNamespace (namespaceName : String)
  deriving DecidableEq

/-- One trusted release-signing key. -/
structure TrustAnchor where
  algorithm : SignatureAlgorithm
  publicKey : Bytes
  revoked : Bool
  keyId : String
  length_publicKey : publicKey.length = algorithm.publicKeyLen
  deriving DecidableEq

def TrustAnchor.of (lib : Externals) (algorithm : SignatureAlgorithm) (publicKey : Bytes) (revoked : Bool)
    (h : publicKey.length = algorithm.publicKeyLen) : TrustAnchor :=
  ⟨algorithm, publicKey, revoked, DeployCore.keyId lib publicKey, h⟩

/-- Whether a signature of the anchor's algorithm verifies under its key. -/
def TrustAnchor.verifies (lib : Externals) (anchor : TrustAnchor) (message signature : Bytes) : Bool :=
  lib.verifies anchor.algorithm anchor.publicKey message signature

/-- The trust inputs of a verification. -/
structure TrustSet where
  anchors : List TrustAnchor
  withdrawnBuilds : Finset (String × String × String)
  minManifestFormatVersion : UInt32
  epoch : UInt64
  nodup : (anchors.map TrustAnchor.keyId).Nodup

/-- The first anchor whose key id an earlier one has is refused. -/
def TrustSet.new (anchors : List TrustAnchor) (withdrawnBuilds : List (String × String × String))
    (minManifestFormatVersion : UInt32) (epoch : UInt64) : Except InputError TrustSet :=
  match h : Checks.distinct TrustAnchor.keyId (fun anchor => InputError.duplicateAnchor anchor.keyId) anchors with
  | .error e => .error e
  | .ok () => .ok ⟨anchors, withdrawnBuilds.toFinset, minManifestFormatVersion, epoch, Checks.distinct_ok_iff.mp h⟩

def TrustSet.isWithdrawn (trust : TrustSet) (component version commit : String) : Bool :=
  decide ((component, version, commit) ∈ trust.withdrawnBuilds)

/-- The build a caller asks for. -/
structure VerifyRequest where
  target : String
  version : String
  commit : String
  epoch : Option UInt64
  namespaceName : Option String
  epoch_target : epoch.isSome → target = TRUST_TARGET
  namespace_target : ∀ name, namespaceName = some name → target ≠ TRUST_TARGET ∧ isValidSegment name = true

namespace VerifyRequest

/-- A request without a namespace says nothing about one. -/
theorem nameless (target : String) (name : String) (h : none = some name) :
    target ≠ TRUST_TARGET ∧ isValidSegment name = true := by
  cases h

def forPackage (target version commit : String) : Except InputError VerifyRequest :=
  if target = TRUST_TARGET then .error .reservedTarget
  else .ok ⟨target, version, commit, none, none, nofun, nofun⟩

def forNamespacedPackage (target version commit namespaceName : String) : Except InputError VerifyRequest :=
  if htarget : target = TRUST_TARGET then .error .reservedTarget
  else if hname : isValidSegment namespaceName then
    .ok ⟨target, version, commit, none, some namespaceName, nofun, fun _ h => Option.some.inj h ▸ ⟨htarget, hname⟩⟩
  else .error (.invalidNamespace namespaceName)

def forTrust (version commit : String) (epoch : UInt64) : Except InputError VerifyRequest :=
  .ok ⟨TRUST_TARGET, version, commit, some epoch, none, fun _ => rfl, nofun⟩

/-- The request a trust generation is admitted under, which compares no epoch. -/
def forTrustSelfAdmission (version commit : String) : Except InputError VerifyRequest :=
  .ok ⟨TRUST_TARGET, version, commit, none, none, nofun, nofun⟩

end VerifyRequest

/-- Anchors under distinct key ids make a trust set. -/
theorem TrustSet.new_of_nodup {anchors : List TrustAnchor} (withdrawnBuilds : List (String × String × String))
    (minManifestFormatVersion : UInt32) (epoch : UInt64) (h : (anchors.map TrustAnchor.keyId).Nodup) :
    TrustSet.new anchors withdrawnBuilds minManifestFormatVersion epoch =
      .ok ⟨anchors, withdrawnBuilds.toFinset, minManifestFormatVersion, epoch, h⟩ := by
  have hdistinct : Checks.distinct TrustAnchor.keyId (fun a => InputError.duplicateAnchor a.keyId) anchors = .ok () :=
    Checks.distinct_ok_iff.mpr h
  unfold TrustSet.new
  split
  · next e he => cases he.symm.trans hdistinct
  · rfl

/-- SHA-256 of runs of 32 and of 2,592 zero bytes. -/
def zeroSha256 (bytes : Bytes) : Bytes :=
  if bytes.length = ED25519_PUBLIC_KEY_LEN then
    [0x66, 0x68, 0x7a, 0xad, 0xf8, 0x62, 0xbd, 0x77, 0x6c, 0x8f, 0xc1, 0x8b, 0x8e, 0x9f, 0x8e, 0x20, 0x08, 0x97, 0x14,
      0x85, 0x6e, 0xe2, 0x33, 0xb3, 0x90, 0x2a, 0x59, 0x1d, 0x0d, 0x5f, 0x29, 0x25]
  else
    [0xb2, 0x06, 0x9f, 0x33, 0xfd, 0x95, 0x6c, 0x79, 0x67, 0x9b, 0x2e, 0x5a, 0x25, 0xc6, 0x0c, 0xd0, 0xea, 0xb6, 0x3b,
      0x02, 0x3d, 0x12, 0x11, 0x1f, 0xf0, 0x24, 0x2a, 0xe5, 0x08, 0x96, 0xe9, 0xe1]

/-- The anchor of an all-zero key. -/
def zeroAnchor (lib : Externals) (algorithm : SignatureAlgorithm) : TrustAnchor :=
  .of lib algorithm (List.replicate algorithm.publicKeyLen 0) false List.length_replicate

/-- The key id of an all-zero key. -/
def zeroKeyId (algorithm : SignatureAlgorithm) : String :=
  toHex (zeroSha256 (List.replicate algorithm.publicKeyLen 0))

theorem zeroKeyId_ne : zeroKeyId .ed25519 ≠ zeroKeyId .mlDsa87 := by
  intro heq
  have hlist := congrArg String.toList heq
  simp only [zeroKeyId, SignatureAlgorithm.publicKeyLen, toHex, zeroSha256, List.length_replicate,
    String.toList_ofList] at hlist
  exact absurd hlist (by decide)

theorem keyId_zeroAnchor {lib : Externals} (h : lib.sha256 = zeroSha256) (algorithm : SignatureAlgorithm) :
    (zeroAnchor lib algorithm).keyId = zeroKeyId algorithm := by
  rw [zeroKeyId, ← h]
  rfl

theorem nodup_zeroAnchors {lib : Externals} (h : lib.sha256 = zeroSha256) :
    ([zeroAnchor lib .ed25519, zeroAnchor lib .mlDsa87].map TrustAnchor.keyId).Nodup := by
  simp [keyId_zeroAnchor h, zeroKeyId_ne]

end DeployCore
