import DeployCore.PayloadError

/-! # The container footer

A container ends in a footer: `MAGIC`, a version byte and a run of little-endian `u64` fields whose number
depends on the version. A reader does not know the version beforehand, so `locateFooter` probes each known
footer size from the end of the file, smallest first, and stops at the first candidate whose version byte
belongs to its size. This module is the footer's wire form and the probe. -/

namespace DeployCore
open LittleEndian

/-- Magic bytes at the start of the footer: `BTLRPYLD`. -/
def MAGIC : Bytes :=
  [0x42, 0x54, 0x4C, 0x52, 0x50, 0x59, 0x4C, 0x44]

def MAGIC_LEN : Nat := 8

/-- The container version this build reads and writes. -/
def FORMAT_VERSION : UInt8 := 3

def FOOTER_SIZE_V1 : Nat := MAGIC_LEN + 1 + 4 * 8
def FOOTER_SIZE_V2 : Nat := MAGIC_LEN + 1 + 8 * 8
def FOOTER_SIZE_V3 : Nat := MAGIC_LEN + 1 + 12 * 8
def FOOTER_SIZE : Nat := FOOTER_SIZE_V3

/-- One entry of the probe: a footer size and the version a footer of that size records. -/
structure FooterSize where
  bytes : Nat
  version : UInt8
  deriving DecidableEq

/-- The footer sizes this build knows, in ascending order. -/
def KNOWN_FOOTER_SIZES : List FooterSize :=
  [⟨FOOTER_SIZE_V1, 1⟩, ⟨FOOTER_SIZE_V2, 2⟩, ⟨FOOTER_SIZE_V3, FORMAT_VERSION⟩]

def SUPPORTED_CONTAINER_VERSIONS : List UInt8 := [FORMAT_VERSION]

/-- The parsed footer: absolute file offsets and lengths. -/
structure Footer where
  version : UInt8
  manifestOffset : UInt64
  manifestLen : UInt64
  archiveOffset : UInt64
  archiveLen : UInt64
  signatureOffset : UInt64
  signatureLen : UInt64
  keyIdOffset : UInt64
  keyIdLen : UInt64
  mlDsa87SignatureOffset : UInt64
  mlDsa87SignatureLen : UInt64
  mlDsa87KeyIdOffset : UInt64
  mlDsa87KeyIdLen : UInt64
  deriving DecidableEq

/-- Number of `u64` fields a version-3 footer records. -/
abbrev FOOTER_FIELDS : Nat := 12

namespace Footer

/-- Builds a footer of `version` from its fields in wire order. -/
def fromFields (version : UInt8) (fields : Vector UInt64 FOOTER_FIELDS) : Footer where
  version := version
  manifestOffset := fields[0]
  manifestLen := fields[1]
  archiveOffset := fields[2]
  archiveLen := fields[3]
  signatureOffset := fields[4]
  signatureLen := fields[5]
  keyIdOffset := fields[6]
  keyIdLen := fields[7]
  mlDsa87SignatureOffset := fields[8]
  mlDsa87SignatureLen := fields[9]
  mlDsa87KeyIdOffset := fields[10]
  mlDsa87KeyIdLen := fields[11]

/-- The fields in wire order. -/
def fields (f : Footer) : Vector UInt64 FOOTER_FIELDS :=
  #v[f.manifestOffset, f.manifestLen, f.archiveOffset, f.archiveLen,
    f.signatureOffset, f.signatureLen, f.keyIdOffset, f.keyIdLen,
    f.mlDsa87SignatureOffset, f.mlDsa87SignatureLen, f.mlDsa87KeyIdOffset, f.mlDsa87KeyIdLen]

/-- How many of the fields a footer of this version records. -/
def recorded (f : Footer) : Nat :=
  if f.version = 1 then 4 else if f.version = 2 then 8 else FOOTER_FIELDS

/-- The wire form of the footer at its own version. -/
def encode (f : Footer) : Bytes :=
  MAGIC ++ f.version :: (f.fields.toList.take f.recorded).flatMap le64

end Footer

/-- Cursor over a candidate's field region. -/
structure FieldReader where
  bytes : Bytes
  next : Nat

namespace FieldReader

def new (bytes : Bytes) : FieldReader :=
  ⟨bytes, MAGIC_LEN + 1⟩

/-- The next field, or `none` once the region is exhausted. -/
def nextU64 (r : FieldReader) : Option (UInt64 × FieldReader) :=
  if r.next + 8 ≤ r.bytes.length then
    some (ofLE64 (slice r.bytes r.next 8), { r with next := r.next + 8 })
  else none

/-- The next `n` fields, in order. -/
def nextFields (r : FieldReader) : (n : Nat) → Option (Vector UInt64 n × FieldReader)
  | 0 => some (#v[], r)
  | n + 1 => do
    let (fields, r) ← r.nextFields n
    let (field, r) ← r.nextU64
    some (fields.push field, r)

end FieldReader

/-- What one probed candidate turned out to be. -/
inductive Candidate
  | noMagic
  | selected (footer : Footer)
  | retired (version : UInt8)
  | mismatched
  | unknown (version : UInt8)
  deriving DecidableEq

/-- Classifies the candidate footer `bytes` read at the offset `size` names. -/
def classifyCandidate (bytes : Bytes) (size : FooterSize) : Candidate :=
  if bytes.take MAGIC_LEN ≠ MAGIC then .noMagic else
  match bytes[MAGIC_LEN]? with
  | none => .noMagic
  | some version =>
    if version ≠ size.version then
      if KNOWN_FOOTER_SIZES.any (·.version == version) then .mismatched else .unknown version
    else if version ∉ SUPPORTED_CONTAINER_VERSIONS then .retired version
    else
      match (FieldReader.new bytes).nextFields FOOTER_FIELDS with
      | none => .noMagic
      | some (fields, _) => .selected (Footer.fromFields version fields)

/-- Where the probe left off. -/
inductive Located
  | found (footer : Footer) (footerStart : Nat)
  | noTrailer
  deriving DecidableEq

/-- The walk over the footer sizes, with the first unknown version seen so far. -/
def locateFooterAmong (src : Source) (fileLen : Nat) :
    List FooterSize → Option UInt8 → Except PayloadError Located
  | [], none => .ok .noTrailer
  | [], some found => .error (.unsupportedContainerFormat found SUPPORTED_CONTAINER_VERSIONS)
  | size :: sizes, firstUnknown =>
    if fileLen < size.bytes then locateFooterAmong src fileLen sizes firstUnknown
    else do
      let candidateStart := fileLen - size.bytes
      let bytes ← (src.readAt candidateStart size.bytes).mapError .io
      match classifyCandidate bytes size with
      | .selected footer => .ok (.found footer candidateStart)
      | .retired found => .error (.unsupportedContainerFormat found SUPPORTED_CONTAINER_VERSIONS)
      | .unknown version => locateFooterAmong src fileLen sizes (firstUnknown.or (some version))
      | .noMagic | .mismatched => locateFooterAmong src fileLen sizes firstUnknown

/-- Locates the footer of a file of `fileLen` bytes. -/
def locateFooter (src : Source) (fileLen : Nat) : Except PayloadError Located :=
  locateFooterAmong src fileLen KNOWN_FOOTER_SIZES none

end DeployCore
