import DeployCore.ContentLimits
import DeployCore.JsonParse
import DeployCore.Statements

/-! # The preparation record

The record that correlates a prepared package with the request it was prepared for: one emission of it, which a
buffer, a stream and a counter each take, and the strict reader of it. -/

namespace DeployCore
open Json

def RECORD_SCHEMA : UInt32 := 1
def DIGEST_PREFIX : String := "sha256:"
def DIGEST_HEX_LEN : Nat := 64

inductive BindingField
  | schema
  | manifestSha256
  | manifestLength
  | archiveSha256
  | archiveLength
  | target
  | version
  | commit
  | targetArch
  | namespaceName
  | trustEpoch
  deriving DecidableEq

/-- The fields of a record with their keys, in table order. -/
def FIELDS : List (BindingField × String) :=
  [(.schema, "schema"), (.manifestSha256, "manifest_sha256"), (.manifestLength, "manifest_length"),
    (.archiveSha256, "archive_sha256"), (.archiveLength, "archive_length"), (.target, "target"), (.version, "version"),
    (.commit, "commit"), (.targetArch, "target_arch"), (.namespaceName, "namespace"), (.trustEpoch, "trust_epoch")]

def BindingField.key (field : BindingField) : String :=
  ((FIELDS.find? fun candidate => candidate.1 = field).map Prod.snd).getD ""

inductive RecordFault
  | malformed
  | duplicateKey
  | notObject
  | missingField (field : BindingField)
  | fieldType (field : BindingField)
  | unsupportedSchema
  | unknownField
  | invalidDigest (field : BindingField)
  | invalidTargetArch
  | invalidIdentifier (field : BindingField)
  deriving DecidableEq

/-- How a record is refused. -/
inductive RecordError
  | limitExceeded (resource : LimitResource) (limit : Nat)
  | recordInvalid (fault : RecordFault)
  deriving DecidableEq

/-- `[u8; 32]`. -/
structure Digest where
  bytes : Bytes
  length_eq : bytes.length = 32
  deriving DecidableEq

structure PreparationBinding where
  schema : UInt32
  manifestSha256 : Digest
  manifestLength : UInt64
  archiveSha256 : Digest
  archiveLength : UInt64
  target : String
  version : String
  commit : String
  targetArch : TargetArch
  namespaceName : Option String
  trustEpoch : Option UInt64
  deriving DecidableEq

/-- What a prepared package supplies. -/
structure BindingParts where
  manifestSha256 : Digest
  manifestLength : UInt64
  archiveSha256 : Digest
  archiveLength : UInt64
  request : VerifyRequest
  targetArch : TargetArch

namespace PreparationBinding

def validateIdentifiers (b : PreparationBinding) : Except RecordFault Unit :=
  if !isSafeBuildIdentifier b.target then .error (.invalidIdentifier .target)
  else if !isSafeBuildIdentifier b.version then .error (.invalidIdentifier .version)
  else if !isValidCommit b.commit then .error (.invalidIdentifier .commit)
  else if b.namespaceName.any fun name => !isValidSegment name then .error (.invalidIdentifier .namespaceName)
  else .ok ()

def fromParts (parts : BindingParts) : Except RecordFault PreparationBinding := do
  let b : PreparationBinding :=
    { schema := RECORD_SCHEMA
      manifestSha256 := parts.manifestSha256
      manifestLength := parts.manifestLength
      archiveSha256 := parts.archiveSha256
      archiveLength := parts.archiveLength
      target := parts.request.target
      version := parts.request.version
      commit := parts.request.commit
      targetArch := parts.targetArch
      namespaceName := parts.request.namespaceName
      trustEpoch := parts.request.epoch }
  b.validateIdentifiers
  .ok b

end PreparationBinding

/-! ## Writing -/

/-- `fmt::Write`: takes a text, or fails without saying why. -/
abbrev FmtWrite (σ : Type) := σ → String → Except Unit Unit × σ

/-- The writer of a `String`, which cannot fail. -/
def FmtWrite.string : FmtWrite String := fun out s => (.ok (), out ++ s)

/-- A count of bytes that ends where it would leave a `u64`. -/
def FmtWrite.count : FmtWrite (Option Nat) := fun count s =>
  (.ok (), count.bind fun n => if n + byteLen s ≤ U64_MAX then some (n + byteLen s) else none)

/-- A writer of bytes, with the error it failed with. -/
def FmtWrite.adapter : FmtWrite (Out × Option IoError) := fun (inner, error) s =>
  match inner.writeAll (asBytes s) with
  | (.ok (), inner) => (.ok (), inner, error)
  | (.error e, inner) => (.error (), inner, some e)

/-- Writes texts one after another, up to the first failure. -/
def emitAll {σ : Type} (write : FmtWrite σ) : List String → σ → Except Unit Unit × σ
  | [], out => (.ok (), out)
  | s :: rest, out =>
    match write out s with
    | (.ok (), out) => emitAll write rest out
    | (.error (), out) => (.error (), out)

/-- An integer in decimal. -/
def displayNat (n : Nat) : String := .ofList (Nat.toDigits 10 n)

def emitDigest (digest : Digest) : List String :=
  "\"sha256:" :: digest.bytes.map (fun byte => toHex [byte]) ++ ["\""]

def emitNamespace : Option String → List String
  | some name => ["\"", name, "\""]
  | none => ["null"]

def emitTrustEpoch : Option UInt64 → List String
  | some epoch => [displayNat epoch.toNat]
  | none => ["null"]

def archName : TargetArch → String
  | .x86_64 => "x86_64"
  | .aarch64 => "aarch64"

namespace PreparationBinding

/-- The texts `emit` writes, in order. -/
def texts (b : PreparationBinding) : List String :=
  ["\x7b\"schema\":", displayNat b.schema.toNat] ++
    [",\"manifest_sha256\":"] ++ emitDigest b.manifestSha256 ++
    [",\"manifest_length\":", displayNat b.manifestLength.toNat] ++
    [",\"archive_sha256\":"] ++ emitDigest b.archiveSha256 ++
    [",\"archive_length\":", displayNat b.archiveLength.toNat] ++
    [",\"target\":\"", b.target, "\""] ++
    [",\"version\":\"", b.version, "\""] ++
    [",\"commit\":\"", b.commit, "\""] ++
    [",\"target_arch\":\"", archName b.targetArch, "\""] ++
    [",\"namespace\":"] ++
    emitNamespace b.namespaceName ++
    [",\"trust_epoch\":"] ++
    emitTrustEpoch b.trustEpoch ++
    ["\x7d\n"]

def emit {σ : Type} (write : FmtWrite σ) (b : PreparationBinding) (out : σ) : Except Unit Unit × σ :=
  emitAll write b.texts out

def toRecordBytes (b : PreparationBinding) : Bytes :=
  asBytes (b.emit .string "").2

/-- Streams the record; an emission that failed with no error of the sink is one of its own. -/
def writeRecord (b : PreparationBinding) (out : Out) : Except IoError Unit × Out :=
  match b.emit .adapter (out, none) with
  | (.ok (), inner, _) => (.ok (), inner)
  | (.error (), inner, error) => (.error (error.getD (.os (.other 0))), inner)

/-- The length of the record; one beyond `u64` is its greatest value, which no limit admits. -/
def recordLen (b : PreparationBinding) : Nat :=
  (b.emit .count (some 0)).2.getD U64_MAX

end PreparationBinding

/-! ## Reading -/

def nibble (byte : UInt8) : Option UInt8 :=
  if 48 ≤ byte && byte ≤ 57 then some (byte - 48)
  else if 97 ≤ byte && byte ≤ 102 then some (byte - 97 + 10)
  else none

def parsePairs : Bytes → Option Bytes
  | [] => some []
  | [_] => none
  | high :: low :: rest => do
    let high ← nibble high
    let low ← nibble low
    let bytes ← parsePairs rest
    some ((high <<< 4 ||| low) :: bytes)

/-- `sha256:` and 64 lowercase hexadecimal digits. -/
def parseDigest (value : String) : Option Digest := do
  let hex ← stripPrefix DIGEST_PREFIX.toList value.toList
  let hex := asBytes (.ofList hex)
  if hex.length ≠ DIGEST_HEX_LEN then none
  else do
    let bytes ← parsePairs hex
    if h : bytes.length = 32 then some ⟨bytes, h⟩ else none

namespace Record
variable (object : Json.Members) (field : BindingField)

def present : Except RecordFault Value :=
  match object.lookup field.key with
  | some value => .ok value
  | none => .error (.missingField field)

def string : Except RecordFault String := do
  let value ← present object field
  match value.asStr with
  | some s => .ok s
  | none => .error (.fieldType field)

def integer : Except RecordFault UInt64 := do
  let value ← present object field
  match value.asU64 with
  | some n => .ok n
  | none => .error (.fieldType field)

def identifier (valid : String → Bool) : Except RecordFault String := do
  let value ← string object field
  if valid value then .ok value else .error (.invalidIdentifier field)

def digest : Except RecordFault Digest := do
  let value ← string object field
  match parseDigest value with
  | some digest => .ok digest
  | none => .error (.invalidDigest field)

def readSchema : Except RecordFault Unit := do
  let schema ← integer object .schema
  if schema ≠ RECORD_SCHEMA.toUInt64 then .error .unsupportedSchema else .ok ()

def readTargetArch : Except RecordFault TargetArch := do
  let value ← string object .targetArch
  if value = "x86_64" then .ok .x86_64
  else if value = "aarch64" then .ok .aarch64
  else .error .invalidTargetArch

def readNamespace : Except RecordFault (Option String) := do
  let value ← present object .namespaceName
  match value with
  | .null => .ok none
  | .str name => if isValidSegment name then .ok (some name) else .error (.invalidIdentifier .namespaceName)
  | _ => .error (.fieldType .namespaceName)

def readTrustEpoch : Except RecordFault (Option UInt64) := do
  let value ← present object .trustEpoch
  match value with
  | .null => .ok none
  | value =>
    match value.asU64 with
    | some epoch => .ok (some epoch)
    | none => .error (.fieldType .trustEpoch)

/-- The record of a scanned object: the schema first, then unknown keys, then each field in record order. -/
def readRecord : Except RecordFault PreparationBinding := do
  readSchema object
  if object.any fun member => !FIELDS.any fun field => field.2 == member.1 then .error .unknownField
  else do
    let manifestSha256 ← digest object .manifestSha256
    let manifestLength ← integer object .manifestLength
    let archiveSha256 ← digest object .archiveSha256
    let archiveLength ← integer object .archiveLength
    let target ← identifier object .target isSafeBuildIdentifier
    let version ← identifier object .version isSafeBuildIdentifier
    let commit ← identifier object .commit isValidCommit
    let targetArch ← readTargetArch object
    let namespaceName ← readNamespace object
    let trustEpoch ← readTrustEpoch object
    .ok { schema := RECORD_SCHEMA, manifestSha256, manifestLength, archiveSha256, archiveLength, target, version, commit,
          targetArch, namespaceName, trustEpoch }

end Record

def RecordError.ofContent : ContentFault → RecordError
  | .limitExceeded resource limit => .limitExceeded resource limit
  | .malformed .jsonDuplicateKey => .recordInvalid .duplicateKey
  | _ => .recordInvalid .malformed

def parseRecord (lib : Externals) (bytes : Bytes) (limits : ContentLimits) : Except RecordError PreparationBinding := do
  let document := limits.resourceLimit .preparationRecord
  if bytes.length > document.max then .error (.limitExceeded document.resource document.max)
  else do
    let value ← (parseJson lib bytes document (limits.resourceLimit .jsonDepth)).mapError .ofContent
    match value with
    | .obj object => (Record.readRecord object).mapError .recordInvalid
    | _ => .error (.recordInvalid .notObject)

def PreparationBinding.fromRecordBytes (lib : Externals) (bytes : Bytes) : Except RecordError PreparationBinding :=
  parseRecord lib bytes .initial

/-! ## One emission -/

theorem asBytes_append (s t : String) : asBytes (s ++ t) = asBytes s ++ asBytes t := by
  rw [asBytes_eq_encode, asBytes_eq_encode, asBytes_eq_encode, String.toList_append, Utf8.encode_append]

section Emit
variable {texts : List String}

theorem emitAll_string (out : String) : asBytes (emitAll .string texts out).2 = asBytes out ++ texts.flatMap asBytes := by
  induction texts generalizing out with
  | nil => simp [emitAll]
  | cons s texts ih =>
    have hrest := ih (out ++ s)
    rw [asBytes_append, List.append_assoc] at hrest
    exact hrest

theorem emitAll_count_none : (emitAll .count texts none).2 = none := by
  induction texts with
  | nil => rfl
  | cons s texts ih => exact ih

theorem emitAll_count {n : Nat} (hn : n ≤ U64_MAX) : (emitAll .count texts (some n)).2 =
    if n + (texts.flatMap asBytes).length ≤ U64_MAX then some (n + (texts.flatMap asBytes).length) else none := by
  induction texts generalizing n with
  | nil =>
    rw [List.flatMap_nil, List.length_nil, Nat.add_zero, if_pos hn]
    rfl
  | cons s texts ih =>
    have hlength : (asBytes s).length = byteLen s := rfl
    rw [List.flatMap_cons, List.length_append, hlength, ← Nat.add_assoc]
    show (emitAll .count texts (if n + byteLen s ≤ U64_MAX then some (n + byteLen s) else none)).2 = _
    split
    next hle => rw [ih hle]
    next hgt => rw [emitAll_count_none, if_neg fun hle => hgt (Nat.le_trans (Nat.le_add_right ..) hle)]

/-- Writing two runs of bytes is writing both at once. -/
theorem Out.writeAll_append (out : Out) (bs bs' : Bytes) : out.writeAll (bs ++ bs') =
    match out.writeAll bs with
    | (.ok (), out) => out.writeAll bs'
    | (.error e, out) => (.error e, out) := by
  rcases out with ⟨written, _ | room, fault⟩
  · simp [Out.writeAll]
  · simp only [Out.writeAll, List.length_append]
    by_cases hfirst : bs.length ≤ room
    · by_cases hboth : bs.length + bs'.length ≤ room
      · simp [hfirst, hboth, show bs'.length ≤ room - bs.length by omega, Nat.sub_sub]
      · simp [hfirst, hboth, show ¬bs'.length ≤ room - bs.length by omega, List.take_append, List.take_of_length_le hfirst]
    · have hboth : ¬bs.length + bs'.length ≤ room := by omega
      simp [hfirst, hboth, List.take_append, show room - bs.length = 0 by omega]

theorem emitAll_adapter (out : Out) (error : Option IoError) : emitAll .adapter texts (out, error) =
    match out.writeAll (texts.flatMap asBytes) with
    | (.ok (), out) => (.ok (), out, error)
    | (.error e, out) => (.error (), out, some e) := by
  induction texts generalizing out with
  | nil =>
    rcases out with ⟨written, _ | room, fault⟩ <;> simp [emitAll, Out.writeAll]
  | cons s texts ih =>
    rw [List.flatMap_cons, Out.writeAll_append, emitAll, FmtWrite.adapter]
    rcases hfirst : out.writeAll (asBytes s) with ⟨_ | _, out'⟩
    · simp
    · simp only [ih]

end Emit

namespace PreparationBinding
variable (b : PreparationBinding)

theorem toRecordBytes_eq : b.toRecordBytes = b.texts.flatMap asBytes := by
  have hempty : asBytes "" = [] := rfl
  rw [toRecordBytes, emit, emitAll_string, hempty, List.nil_append]

theorem recordLen_eq : b.recordLen = min b.toRecordBytes.length U64_MAX := by
  rw [recordLen, emit, emitAll_count (Nat.zero_le _), Nat.zero_add, toRecordBytes_eq]
  split
  next hle => rw [Option.getD_some, Nat.min_eq_left hle]
  next hgt => rw [Option.getD_none, Nat.min_eq_right (Nat.le_of_not_le hgt)]

/-- Streaming the record is writing its bytes, whatever the sink does. -/
theorem writeRecord_eq (out : Out) : b.writeRecord out = out.writeAll b.toRecordBytes := by
  rw [writeRecord, emit, emitAll_adapter, toRecordBytes_eq]
  rcases out.writeAll (b.texts.flatMap asBytes) with ⟨_ | _, out'⟩ <;> rfl

end PreparationBinding

end DeployCore
