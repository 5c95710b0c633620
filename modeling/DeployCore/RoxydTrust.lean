import DeployCore.GenerationKept
import DeployCore.KeyAcceptance
import DeployCore.PemBlocks

/-! # roxyd's trust material (`src/roxyd_trust.rs`)

`validateMaterial` judges a certificate, its key, a CA bundle and the anchor over the strict PEM reader and the key
profile; it accepts exactly what is `Sound` (`validateMaterial_exact`). X.509, path building and the provider's own
readers of keys are third-party code. -/

namespace DeployCore
namespace RoxydTrust
open BigEndian Crash Der KeyProfile
open Pem hiding find

/-- `TrustError`. -/
inductive TrustError
  | io (path : Bytes) (source : TreeFault)
  | pem (path reason : String)
  | parse (what reason : String)
  | validity (notBefore notAfter : String)
  | clientAuthMissing
  | keyMismatch
  | unsupportedKey
  | chainInvalid (reason : String)
  | emptyCaBundle
  | badAnchor (reason : String)
  | reload (reason : String)
  /-- A panic or a loop without end, which no call comes to. -/
  | stuck
  deriving DecidableEq

/-- `From<GenerationError>`. -/
def TrustError.ofGeneration : GenerationError → TrustError
  | .io path kind => .io path (.os kind)
  | .reload _ reason => .reload reason
  | .emptyMaterial => .io MATERIAL_SET_TARGET (.invalidInput "the material set is empty")
  | .duplicateName name => .io name (.alreadyExists "two material files carry the same name")
  | .invalidName name => .io name (.invalidInput "a material file name is not a single path component")

instance : FromGenerationError TrustError := ⟨.ofGeneration⟩

def TrustError.ofStop : PemStop → TrustError
  | .pem path reason => .pem path reason
  | .panic => .stuck

def LABEL_CERTIFICATE : Bytes := asBytes "CERTIFICATE"
def LABEL_PRIVATE_KEY : Bytes := asBytes "PRIVATE KEY"

/-! ### The third-party code -/

inductive ParsedExtension
  | extendedKeyUsage (clientAuth any : Bool)
  | basicConstraints (ca : Bool)
  | other
  deriving DecidableEq

/-- What is looked at of a certificate; a time is a timestamp. -/
structure X509Certificate where
  notBefore : Int
  notAfter : Int
  extensions : List ParsedExtension
  subject : Bytes
  issuer : Bytes
  subjectPublicKey : Bytes
  deriving DecidableEq

structure TrustAnchor where
  subject : Bytes
  subjectPublicKeyInfo : Bytes
  nameConstraints : Option Bytes
  deriving DecidableEq

inductive ChainAlgorithm
  | ecdsaP256Sha256
  | ecdsaP256Sha384
  | ecdsaP384Sha256
  | ecdsaP384Sha384
  | rsaPkcs1_2048_8192Sha256
  | rsaPkcs1_2048_8192Sha384
  | rsaPkcs1_2048_8192Sha512
  deriving DecidableEq

inductive KeyUsage
  | clientAuth
  | serverAuth
  deriving DecidableEq

def SUPPORTED_SIG_ALGS : List ChainAlgorithm :=
  [.ecdsaP256Sha256, .ecdsaP256Sha384, .ecdsaP384Sha256, .ecdsaP384Sha384, .rsaPkcs1_2048_8192Sha256,
    .rsaPkcs1_2048_8192Sha384, .rsaPkcs1_2048_8192Sha512]

/-- The base64 engine, `x509_parser`, `webpki` and the provider. Each error is how it reads. -/
structure Pki where
  decode : Bytes → Except String Bytes
  fromDer : Bytes → Except String X509Certificate
  fromTimestamp : Int → Except String Int
  isValidAt : X509Certificate → Int → Bool
  timeText : Int → String
  /-- `EcdsaKeyPair::from_pkcs8` and the public key of the pair. -/
  ecPublicKey : CurveName → Bytes → Option Bytes
  /-- `RsaKeyPair::from_pkcs8` and the public key of the pair. -/
  rsaPublicKey : Bytes → Option Bytes
  anchorFromTrustedCert : Bytes → Except String TrustAnchor
  /-- `EndEntityCert::try_from`. -/
  endEntityCert : Bytes → Except String Unit
  verifyForUsage : List ChainAlgorithm → List TrustAnchor → (leaf : Bytes) → (intermediates : List Bytes) → (now : UInt64) →
    KeyUsage → Except String Unit

/-! ### The validator -/

section Validator
variable (pki : Pki)

/-- `parse_pem_strict`, which returns within as many rounds as there are bytes. -/
def readPem (input : Bytes) (role : String) : Except TrustError (List PemBlock) :=
  match parsePemStrict pki.decode role (input.length + 1) input with
  | some blocks => blocks.mapError .ofStop
  | none => .error .stuck

/-- The certificates of a text. -/
def certificates (input : Bytes) (role : String) : Except TrustError (List Bytes) := do
  let blocks ← readPem pki input role
  (requireAll blocks LABEL_CERTIFICATE role).mapError .ofStop

def notOneKey : TrustError := .pem "private key" "expected exactly one `PRIVATE KEY` block"

/-- The one PKCS#8 block of a text. -/
def privateKey (input : Bytes) : Except TrustError Bytes := do
  match ← readPem pki input "private key" with
  | [block] => if block.label = LABEL_PRIVATE_KEY then .ok block.der else .error notOneKey
  | _ => .error notOneKey

def ParsedExtension.isExtendedKeyUsage : ParsedExtension → Bool
  | .extendedKeyUsage _ _ => true
  | _ => false

/-- The first extended key usage decides. -/
def requireClientAuth (leaf : X509Certificate) : Except TrustError Unit :=
  match leaf.extensions.find? ParsedExtension.isExtendedKeyUsage with
  | some (.extendedKeyUsage clientAuth any) => if clientAuth || any then .ok () else .error .clientAuthMissing
  | _ => .ok ()

def ecKeyDerives (name : CurveName) (keyDer embedded : Bytes) : Bool := pki.ecPublicKey name keyDer == some embedded

def keyMatchesCert (keyDer : Bytes) (cert : X509Certificate) : Except TrustError Bool :=
  match classify keyDer with
  | .error _ => .error .stuck
  | .ok (some (.ecP256 publicKey)) =>
    if ecKeyDerives pki .p256 keyDer publicKey then .ok (publicKey == cert.subjectPublicKey) else .error .unsupportedKey
  | .ok (some (.ecP384 publicKey)) =>
    if ecKeyDerives pki .p384 keyDer publicKey then .ok (publicKey == cert.subjectPublicKey) else .error .unsupportedKey
  | .ok (some (.rsa key)) =>
    match pki.rsaPublicKey keyDer with
    | some publicKey => .ok (publicKey == cert.subjectPublicKey)
    | none => .ok (key.publicKeyIs cert.subjectPublicKey)
  | .ok none => .error .unsupportedKey

def verifyChain (leaf : Bytes) (intermediates : List Bytes) (anchor : Bytes) (nowUnix : UInt64) : Except TrustError Unit := do
  let anchor ← (pki.anchorFromTrustedCert anchor).mapError fun e => .chainInvalid ("anchor unusable: " ++ e)
  (pki.endEntityCert leaf).mapError fun e => .chainInvalid ("leaf unusable: " ++ e)
  (pki.verifyForUsage SUPPORTED_SIG_ALGS [anchor] leaf intermediates nowUnix .clientAuth).mapError .chainInvalid

/-- `i64::try_from` with the largest value in place of one that does not fit. -/
def timestamp (nowUnix : UInt64) : Int := min nowUnix.toNat (2 ^ 63 - 1)

/-- The leaf is a certificate for this time and for a TLS client. -/
def requireLeaf (leafDer : Bytes) (nowUnix : UInt64) : Except TrustError X509Certificate := do
  let leaf ← (pki.fromDer leafDer).mapError (.parse "roxyd certificate")
  let now ← (pki.fromTimestamp (timestamp nowUnix)).mapError (.parse "current time")
  if pki.isValidAt leaf now then do
    requireClientAuth leaf
    .ok leaf
  else .error (.validity (pki.timeText leaf.notBefore) (pki.timeText leaf.notAfter))

def requireKey (keyDer : Bytes) (leaf : X509Certificate) : Except TrustError Unit := do
  if ← keyMatchesCert pki keyDer leaf then .ok () else .error .keyMismatch

def validateMaterial (certPem keyPem caBundlePem anchorPem : Bytes) (nowUnix : UInt64) : Except TrustError Unit := do
  match ← certificates pki certPem "certificate" with
  | [] => .error (.pem "certificate" "no certificate block")
  | leafDer :: chain => do
    let keyDer ← privateKey pki keyPem
    match ← certificates pki caBundlePem "CA bundle" with
    | [] => .error .emptyCaBundle
    | caDers => do
      match ← certificates pki anchorPem "anchor" with
      | [] => .error (.badAnchor "anchor contains no certificate")
      | anchorDer :: _ => do
        let leaf ← requireLeaf pki leafDer nowUnix
        requireKey pki keyDer leaf
        verifyChain pki leafDer (chain ++ caDers) anchorDer nowUnix

end Validator

/-! ### What is meant -/

/-- The parts of the material that are judged. Of the anchors the first is used. -/
structure Parsed where
  leaf : Bytes
  chain : List Bytes
  info : PrivateKeyInfo
  ca : List Bytes
  anchor : Bytes
  others : List Bytes
  certificate : X509Certificate

def certificateBlocks (ders : List Bytes) : List PemBlock := ders.map fun der => ⟨LABEL_CERTIFICATE, der⟩

/-- The first extended key usage, where there is one, has client authentication or any use. -/
def X509Certificate.PermitsClientAuth (cert : X509Certificate) : Prop :=
  ∀ clientAuth any, cert.extensions.find? ParsedExtension.isExtendedKeyUsage = some (.extendedKeyUsage clientAuth any) →
    clientAuth = true ∨ any = true

/-- The public key of the certificate is the key's: for an EC key the point that it carries and that the provider derives,
for an RSA key the one that the provider reads, or where it reads none the encoding of its modulus and exponent. -/
def Corresponds (pki : Pki) (info : PrivateKeyInfo) (cert : X509Certificate) : Prop :=
  match info.key with
  | .ec key => pki.ecPublicKey key.name info.encode = some key.point ∧ cert.subjectPublicKey = key.point
  | .rsa key => cert.subjectPublicKey = (pki.rsaPublicKey info.encode).getD
      (element TAG_SEQUENCE (integer key.modulus ++ integer key.publicExponent))

/-- Each condition of the validator, of the parts. -/
structure Sound (pki : Pki) (certPem keyPem caBundlePem anchorPem : Bytes) (nowUnix : UInt64) (p : Parsed) : Prop where
  cert : PemText certPem (certificateBlocks (p.leaf :: p.chain))
  key : PemText keyPem [⟨LABEL_PRIVATE_KEY, p.info.encode⟩]
  ca : PemText caBundlePem (certificateBlocks p.ca)
  ca_ne_nil : p.ca ≠ []
  anchor : PemText anchorPem (certificateBlocks (p.anchor :: p.others))
  parsed : pki.fromDer p.leaf = .ok p.certificate
  timely : ∃ now, pki.fromTimestamp (timestamp nowUnix) = .ok now ∧ pki.isValidAt p.certificate now = true
  clientAuth : p.certificate.PermitsClientAuth
  profile : p.info.InProfile
  corresponds : Corresponds pki p.info p.certificate
  chains : ∃ anchor, pki.anchorFromTrustedCert p.anchor = .ok anchor ∧ pki.endEntityCert p.leaf = .ok () ∧
    pki.verifyForUsage SUPPORTED_SIG_ALGS [anchor] p.leaf (p.chain ++ p.ca) nowUnix .clientAuth = .ok ()

section Exact
variable {pki : Pki} {input keyDer leafDer : Bytes} {role : String} {ders : List Bytes} {cert leaf : X509Certificate}
  {nowUnix : UInt64}

theorem readPem_iff {blocks : List PemBlock} (hdecode : Canonical pki.decode) :
    readPem pki input role = .ok blocks ↔ blocks ≠ [] ∧ PemText input blocks := by
  have hiff := @parseBlocks_iff pki.decode role input (input.length + 1) blocks [] hdecode (Nat.lt_succ_self _)
  obtain ⟨outcome, hparse, -⟩ := @parseBlocks_returns pki.decode role input (input.length + 1) [] (Nat.lt_succ_self _)
  rw [hparse, Option.some.injEq] at hiff
  rw [readPem, parsePemStrict, hparse]
  dsimp only
  rw [Checks.mapError_ok, hiff]
  constructor
  · rintro ⟨more, htext, rfl, hne⟩
    exact ⟨hne, htext⟩
  · rintro ⟨hne, htext⟩
    exact ⟨blocks, htext, rfl, hne⟩

theorem certificates_iff (hdecode : Canonical pki.decode) :
    certificates pki input role = .ok ders ↔ ders ≠ [] ∧ PemText input (certificateBlocks ders) := by
  constructor
  · intro h
    obtain ⟨blocks, hblocks, h⟩ := Checks.bind_ok h
    obtain ⟨hlabels, rfl⟩ := requireAll_iff.mp (Checks.mapError_ok.mp h)
    obtain ⟨hne, htext⟩ := (readPem_iff hdecode).mp hblocks
    have hsame : certificateBlocks (blocks.map PemBlock.der) = blocks := by
      rw [certificateBlocks, List.map_map]
      refine (List.map_congr_left (g := id) fun block hblock => ?_).trans (List.map_id _)
      rw [Function.comp_apply, ← hlabels block hblock]
      rfl
    exact ⟨by simpa using hne, hsame.symm ▸ htext⟩
  · rintro ⟨hne, htext⟩
    have hblocks : readPem pki input role = .ok (certificateBlocks ders) :=
      (readPem_iff hdecode).mpr ⟨by simpa [certificateBlocks] using hne, htext⟩
    rw [certificates, hblocks, Checks.ok_bind]
    refine Checks.mapError_ok.mpr (requireAll_iff.mpr ⟨?_, ?_⟩)
    · simp [certificateBlocks]
    · simp [certificateBlocks, Function.comp_def]

theorem privateKey_iff (hdecode : Canonical pki.decode) :
    privateKey pki input = .ok keyDer ↔ PemText input [⟨LABEL_PRIVATE_KEY, keyDer⟩] := by
  constructor
  · intro h
    obtain ⟨blocks, hblocks, h⟩ := Checks.bind_ok h
    obtain ⟨-, htext⟩ := (readPem_iff hdecode).mp hblocks
    split at h
    · next block =>
      split at h
      · next hlabel =>
        cases h
        exact hlabel ▸ htext
      · cases h
    · cases h
  · intro htext
    rw [privateKey, (readPem_iff hdecode).mpr ⟨List.cons_ne_nil _ _, htext⟩, Checks.ok_bind]
    exact if_pos rfl

theorem requireClientAuth_iff : requireClientAuth leaf = .ok () ↔ leaf.PermitsClientAuth := by
  unfold requireClientAuth X509Certificate.PermitsClientAuth
  split
  · next clientAuth any heq =>
    rw [heq]
    constructor
    · intro h _ _ hsame
      cases hsame
      split at h
      · next hpermits => exact (Bool.or_eq_true _ _).mp hpermits
      · cases h
    · intro h
      exact if_pos ((Bool.or_eq_true _ _).mpr (h _ _ rfl))
  · next hno => exact ⟨fun _ clientAuth any heq => absurd heq (hno clientAuth any), fun _ => rfl⟩

theorem ecKeyDerives_iff {name : CurveName} {embedded : Bytes} :
    ecKeyDerives pki name keyDer embedded = true ↔ pki.ecPublicKey name keyDer = some embedded := beq_iff_eq

/-- The modulus and the exponent of a key inside the profile fit a length of two octets. -/
theorem fits_publicKey {k : RsaIntegers} (h : k.InProfile) : Der.Fits (integer k.modulus ++ integer k.publicExponent) := by
  have hfits : Der.Fits (integer 0 ++ (integer k.modulus ++ (integer k.publicExponent ++
      [k.privateExponent, k.p, k.q, k.dp, k.dq, k.crtCoefficient].flatMap integer))) := h.fits
  rw [← List.append_assoc (integer k.modulus)] at hfits
  exact fits_append_left (fits_append_right hfits)

theorem keyMatchesCert_encode {info : PrivateKeyInfo} (h : info.InProfile) :
    keyMatchesCert pki info.encode cert = .ok true ↔ Corresponds pki info cert := by
  obtain ⟨read, hread, hiff⟩ := classify_iff info.encode
  obtain rfl := (hiff info.key.profiled).mpr ⟨info, h, rfl, rfl⟩
  obtain ⟨key | key, attributes⟩ := info
  · obtain ⟨name, scalar, named, coordinates⟩ := key
    cases name with
    | p256 | p384 =>
      simp only [keyMatchesCert, hread, PrivateKey.profiled, CurveName.profiled, Corresponds]
      split
      · next hderives =>
        rw [Except.ok.injEq, beq_iff_eq, and_iff_right (ecKeyDerives_iff.mp hderives)]
        exact eq_comm
      · next hderives => exact iff_of_false (fun h => by cases h) fun h => hderives (ecKeyDerives_iff.mpr h.1)
  · simp only [keyMatchesCert, hread, PrivateKey.profiled, Corresponds]
    split
    · next publicKey heq =>
      rw [heq, Except.ok.injEq, beq_iff_eq]
      exact eq_comm
    · next heq =>
      rw [heq, Except.ok.injEq, publicKeyIs_iff]
      exact and_iff_right (fits_publicKey h.key)

theorem keyMatchesCert_iff : keyMatchesCert pki keyDer cert = .ok true ↔
    ∃ info : PrivateKeyInfo, keyDer = info.encode ∧ info.InProfile ∧ Corresponds pki info cert := by
  constructor
  · intro h
    obtain ⟨read, hread, hiff⟩ := classify_iff keyDer
    cases read with
    | none =>
      rw [keyMatchesCert, hread] at h
      cases h
    | some key =>
      obtain ⟨info, hprofile, rfl, -⟩ := (hiff key).mp rfl
      exact ⟨info, rfl, hprofile, (keyMatchesCert_encode hprofile).mp h⟩
  · rintro ⟨info, rfl, hprofile, hcorresponds⟩
    exact (keyMatchesCert_encode hprofile).mpr hcorresponds

theorem requireKey_iff : requireKey pki keyDer cert = .ok () ↔ keyMatchesCert pki keyDer cert = .ok true := by
  unfold requireKey
  cases keyMatchesCert pki keyDer cert with
  | error e => simp [bind, Except.bind]
  | ok same => cases same <;> simp [bind, Except.bind]

theorem requireLeaf_iff : requireLeaf pki leafDer nowUnix = .ok leaf ↔ pki.fromDer leafDer = .ok leaf ∧
    (∃ now, pki.fromTimestamp (timestamp nowUnix) = .ok now ∧ pki.isValidAt leaf now = true) ∧ leaf.PermitsClientAuth := by
  constructor
  · intro h
    obtain ⟨leaf', hleaf, h⟩ := Checks.bind_ok h
    obtain ⟨now, hnow, h⟩ := Checks.bind_ok h
    split at h
    · next hvalid =>
      obtain ⟨_, hclient, h⟩ := Checks.bind_ok h
      cases h
      exact ⟨Checks.mapError_ok.mp hleaf, ⟨now, Checks.mapError_ok.mp hnow, hvalid⟩, requireClientAuth_iff.mp hclient⟩
    · cases h
  · rintro ⟨hleaf, ⟨now, hnow, hvalid⟩, hclient⟩
    rw [requireLeaf, Checks.mapError_ok.mpr hleaf, Checks.ok_bind, Checks.mapError_ok.mpr hnow, Checks.ok_bind, if_pos hvalid,
      requireClientAuth_iff.mpr hclient]
    rfl

theorem verifyChain_iff {intermediates : List Bytes} {anchorDer : Bytes} :
    verifyChain pki leafDer intermediates anchorDer nowUnix = .ok () ↔
      ∃ anchor, pki.anchorFromTrustedCert anchorDer = .ok anchor ∧ pki.endEntityCert leafDer = .ok () ∧
        pki.verifyForUsage SUPPORTED_SIG_ALGS [anchor] leafDer intermediates nowUnix .clientAuth = .ok () := by
  constructor
  · intro h
    obtain ⟨anchor, hanchor, h⟩ := Checks.bind_ok h
    obtain ⟨_, hleaf, h⟩ := Checks.bind_ok h
    exact ⟨anchor, Checks.mapError_ok.mp hanchor, Checks.mapError_ok.mp hleaf, Checks.mapError_ok.mp h⟩
  · rintro ⟨anchor, hanchor, hleaf, hverified⟩
    rw [verifyChain, Checks.mapError_ok.mpr hanchor, Checks.ok_bind, Checks.mapError_ok.mpr hleaf, Checks.ok_bind,
      Checks.mapError_ok.mpr hverified]

variable {certPem keyPem caBundlePem anchorPem : Bytes}

theorem validateMaterial_iff (hdecode : Canonical pki.decode) :
    validateMaterial pki certPem keyPem caBundlePem anchorPem nowUnix = .ok () ↔
      ∃ p, Sound pki certPem keyPem caBundlePem anchorPem nowUnix p := by
  constructor
  · intro h
    obtain ⟨certDers, hcert, h⟩ := Checks.bind_ok h
    cases certDers with
    | nil => cases h
    | cons leafDer chain =>
      obtain ⟨keyDer, hkey, h⟩ := Checks.bind_ok h
      obtain ⟨caDers, hca, h⟩ := Checks.bind_ok h
      cases caDers with
      | nil => cases h
      | cons ca cas =>
        obtain ⟨anchorDers, hanchor, h⟩ := Checks.bind_ok h
        cases anchorDers with
        | nil => cases h
        | cons anchor others =>
          obtain ⟨leaf, hleaf, h⟩ := Checks.bind_ok h
          obtain ⟨_, hmatches, hchain⟩ := Checks.bind_ok h
          obtain ⟨hparsed, htimely, hclient⟩ := requireLeaf_iff.mp hleaf
          obtain ⟨info, rfl, hprofile, hcorresponds⟩ := keyMatchesCert_iff.mp (requireKey_iff.mp hmatches)
          exact ⟨⟨leafDer, chain, info, ca :: cas, anchor, others, leaf⟩, {
            cert := ((certificates_iff hdecode).mp hcert).2
            key := (privateKey_iff hdecode).mp hkey
            ca := ((certificates_iff hdecode).mp hca).2
            ca_ne_nil := List.cons_ne_nil _ _
            anchor := ((certificates_iff hdecode).mp hanchor).2
            parsed := hparsed
            timely := htimely
            clientAuth := hclient
            profile := hprofile
            corresponds := hcorresponds
            chains := verifyChain_iff.mp hchain }⟩
  · rintro ⟨⟨leafDer, chain, info, ca, anchor, others, leaf⟩, h⟩
    obtain ⟨first, cas, rfl⟩ := List.exists_cons_of_ne_nil h.ca_ne_nil
    have hleaf : requireLeaf pki leafDer nowUnix = .ok leaf := requireLeaf_iff.mpr ⟨h.parsed, h.timely, h.clientAuth⟩
    have hkey : requireKey pki info.encode leaf = .ok () :=
      requireKey_iff.mpr (keyMatchesCert_iff.mpr ⟨info, rfl, h.profile, h.corresponds⟩)
    have hchain : verifyChain pki leafDer (chain ++ first :: cas) anchor nowUnix = .ok () := verifyChain_iff.mpr h.chains
    rw [validateMaterial, (certificates_iff hdecode).mpr ⟨List.cons_ne_nil _ _, h.cert⟩, Checks.ok_bind]
    dsimp only
    rw [(privateKey_iff hdecode).mpr h.key, Checks.ok_bind, (certificates_iff hdecode).mpr ⟨h.ca_ne_nil, h.ca⟩, Checks.ok_bind]
    dsimp only
    rw [(certificates_iff hdecode).mpr ⟨List.cons_ne_nil _ _, h.anchor⟩, Checks.ok_bind]
    dsimp only
    rw [hleaf, Checks.ok_bind, hkey, Checks.ok_bind, hchain]

/-! ### Calls return -/

theorem refuses_ofStop {α : Type} {x : Except PemStop α} (h : x ≠ .error .panic) :
    Checks.Refuses (· ≠ TrustError.stuck) (x.mapError .ofStop) := by
  rcases x with (⟨path, reason⟩ | _) | a
  · exact .error fun heq => by cases heq
  · exact absurd rfl h
  · exact .ok a

theorem refuses_mapError {α : Type} {x : Except String α} {f : String → TrustError} (h : ∀ reason, f reason ≠ .stuck) :
    Checks.Refuses (· ≠ TrustError.stuck) (x.mapError f) := by
  cases x with
  | error reason => exact .error (h reason)
  | ok a => exact .ok a

theorem refuses_readPem : Checks.Refuses (· ≠ TrustError.stuck) (readPem pki input role) := by
  obtain ⟨outcome, hparse, hne⟩ := @parseBlocks_returns pki.decode role input (input.length + 1) [] (Nat.lt_succ_self _)
  rw [readPem, parsePemStrict, hparse]
  exact refuses_ofStop hne

theorem refuses_certificates : Checks.Refuses (· ≠ TrustError.stuck) (certificates pki input role) := by
  refine refuses_readPem.bind fun blocks => refuses_ofStop ?_
  unfold requireAll
  split
  · exact fun h => by cases h
  · exact fun h => by cases h

theorem refuses_privateKey : Checks.Refuses (· ≠ TrustError.stuck) (privateKey pki input) := by
  refine refuses_readPem.bind fun blocks => ?_
  split
  · exact .ite (.ok _) (.error fun h => by cases h)
  · exact .error fun h => by cases h

theorem refuses_requireClientAuth : Checks.Refuses (· ≠ TrustError.stuck) (requireClientAuth leaf) := by
  unfold requireClientAuth
  split
  · exact .ite (.ok _) (.error fun h => by cases h)
  · exact .ok _

theorem refuses_requireLeaf : Checks.Refuses (· ≠ TrustError.stuck) (requireLeaf pki leafDer nowUnix) := by
  refine (refuses_mapError fun _ h => by cases h).bind fun leaf => (refuses_mapError fun _ h => by cases h).bind fun now => ?_
  exact .ite (refuses_requireClientAuth.bind fun _ => .ok _) (.error fun h => by cases h)

theorem refuses_requireKey : Checks.Refuses (· ≠ TrustError.stuck) (requireKey pki keyDer cert) := by
  obtain ⟨read, hread, -⟩ := classify_iff keyDer
  refine Checks.Refuses.bind ?_ fun same => .ite (.ok _) (.error fun h => by cases h)
  rw [keyMatchesCert, hread]
  split
  · next heq => cases heq
  · exact .ite (.ok _) (.error fun h => by cases h)
  · exact .ite (.ok _) (.error fun h => by cases h)
  · split
    · exact .ok _
    · exact .ok _
  · exact .error fun h => by cases h

theorem refuses_verifyChain {intermediates : List Bytes} {anchorDer : Bytes} :
    Checks.Refuses (· ≠ TrustError.stuck) (verifyChain pki leafDer intermediates anchorDer nowUnix) :=
  (refuses_mapError fun _ h => by cases h).bind fun _ => (refuses_mapError fun _ h => by cases h).bind fun _ =>
    refuses_mapError fun _ h => by cases h

theorem refuses_validateMaterial :
    Checks.Refuses (· ≠ TrustError.stuck) (validateMaterial pki certPem keyPem caBundlePem anchorPem nowUnix) := by
  refine refuses_certificates.bind fun certDers => ?_
  split
  · exact .error fun h => by cases h
  refine refuses_privateKey.bind fun keyDer => refuses_certificates.bind fun caDers => ?_
  split
  · exact .error fun h => by cases h
  refine refuses_certificates.bind fun anchorDers => ?_
  split
  · exact .error fun h => by cases h
  · exact refuses_requireLeaf.bind fun leaf => refuses_requireKey.bind fun _ => refuses_verifyChain

/-- The validator returns for every input, without a panic, and accepts exactly the sound material. -/
theorem validateMaterial_exact (pki : Pki) (hdecode : Canonical pki.decode) (certPem keyPem caBundlePem anchorPem : Bytes)
    (nowUnix : UInt64) :
    validateMaterial pki certPem keyPem caBundlePem anchorPem nowUnix ≠ .error .stuck ∧
      (validateMaterial pki certPem keyPem caBundlePem anchorPem nowUnix = .ok () ↔
        ∃ p, Sound pki certPem keyPem caBundlePem anchorPem nowUnix p) :=
  ⟨fun h => refuses_validateMaterial _ h rfl, validateMaterial_iff hdecode⟩

end Exact

/-! ### A triple that is accepted -/

/-- Third-party code that reads any certificate as one with the all-zero P-256 point, and lets every chain pass. -/
def samplePki : Pki where
  decode := strictDecode
  fromDer _ := .ok ⟨0, 10, [.other, .extendedKeyUsage true false], [], [], UNCOMPRESSED_POINT :: List.replicate 64 0⟩
  fromTimestamp := .ok
  isValidAt cert now := cert.notBefore ≤ now && now ≤ cert.notAfter
  timeText := toString
  ecPublicKey _ _ := some (UNCOMPRESSED_POINT :: List.replicate 64 0)
  rsaPublicKey _ := none
  anchorFromTrustedCert der := .ok ⟨[], der, none⟩
  endEntityCert _ := .ok ()
  verifyForUsage _ _ _ _ _ _ := .ok ()

def sampleInfo : PrivateKeyInfo := ⟨.ec ⟨.p256, List.replicate 32 0, true, List.replicate 64 0⟩, none⟩

/-- A text of one certificate. -/
def samplePem : Bytes := standardText (certificateBlocks [[0x30]])

def sampleKeyPem : Bytes := standardText [⟨LABEL_PRIVATE_KEY, sampleInfo.encode⟩]

theorem inProfile_sampleInfo : sampleInfo.InProfile := by
  have hkey : PrivateKey.InProfile sampleInfo.key := ⟨List.length_replicate, List.length_replicate⟩
  exact ⟨hkey, PrivateKey.fits_contents hkey⟩

theorem validLabel_certificate : ValidLabel LABEL_CERTIFICATE :=
  ⟨List.cons_ne_nil _ _, List.all_eq_true.mp rfl⟩

theorem pemText_samplePem : PemText samplePem (certificateBlocks [[0x30]]) :=
  pemText_standard fun block hblock => by
    rw [List.mem_singleton.mp hblock]
    exact validLabel_certificate

theorem sound_sample : Sound samplePki samplePem sampleKeyPem samplePem samplePem 5
    ⟨[0x30], [], sampleInfo, [[0x30]], [0x30], [],
      ⟨0, 10, [.other, .extendedKeyUsage true false], [], [], UNCOMPRESSED_POINT :: List.replicate 64 0⟩⟩ where
  cert := pemText_samplePem
  key := pemText_standard fun block hblock => by
    rw [List.mem_singleton.mp hblock]
    exact ⟨List.cons_ne_nil _ _, List.all_eq_true.mp rfl⟩
  ca := pemText_samplePem
  ca_ne_nil := List.cons_ne_nil _ _
  anchor := pemText_samplePem
  parsed := rfl
  timely := ⟨5, rfl, rfl⟩
  clientAuth := by
    rintro _ _ ⟨⟩
    exact .inl rfl
  profile := inProfile_sampleInfo
  corresponds := ⟨rfl, rfl⟩
  chains := ⟨⟨[], [0x30], none⟩, rfl, rfl, rfl⟩

theorem validateMaterial_exact_sample : validateMaterial samplePki samplePem sampleKeyPem samplePem samplePem 5 = .ok () :=
  (validateMaterial_exact samplePki strictDecode_canonical _ _ _ _ 5).2.mpr ⟨_, sound_sample⟩

end RoxydTrust
end DeployCore
