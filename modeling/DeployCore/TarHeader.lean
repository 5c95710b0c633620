import DeployCore.ContentFault
import DeployCore.Paths

/-! # Tar headers

One 512-byte header block: its fields at their offsets, the lexical rules of each, its checksum and its magic. -/

namespace DeployCore
open LittleEndian

def BLOCK : Nat := 512

/-- A field's place in the header block. -/
structure Span where
  start : Nat
  len : Nat

def NAME : Span := ⟨0, 100⟩
def MODE : Span := ⟨100, 8⟩
def UID : Span := ⟨108, 8⟩
def GID : Span := ⟨116, 8⟩
def SIZE : Span := ⟨124, 12⟩
def MTIME : Span := ⟨136, 12⟩
def CHECKSUM : Span := ⟨148, 8⟩
def TYPEFLAG : Nat := 156
def LINKNAME : Span := ⟨157, 100⟩
def POSIX_MAGIC : Span := ⟨257, 6⟩
def POSIX_VERSION : Span := ⟨263, 2⟩
def GNU_MAGIC : Span := ⟨257, 8⟩
def DEVMAJOR : Span := ⟨329, 8⟩
def DEVMINOR : Span := ⟨337, 8⟩
def PREFIX : Span := ⟨345, 155⟩

def POSIX_MAGIC_BYTES : Bytes := [117, 115, 116, 97, 114, 0]
def POSIX_VERSION_BYTES : Bytes := [48, 48]
def GNU_MAGIC_BYTES : Bytes := [117, 115, 116, 97, 114, 32, 32, 0]

def BASE256_MARKER : UInt8 := 0x80
def BASE256_SIGN : UInt8 := 0x40
def BASE256_FIRST_MAGNITUDE : UInt8 := 0x3f

def NUL : UInt8 := 0
def SPACE : UInt8 := 32
def ZERO : UInt8 := 48

inductive Magic
  | posix
  | gnu
  deriving DecidableEq

inductive EntryKind
  | regular
  | hardlink
  | symlink
  | charDevice
  | blockDevice
  | directory
  | fifo
  deriving DecidableEq

inductive Extension
  | pax
  | longName
  | longLink
  deriving DecidableEq

inductive Typeflag
  | entry (kind : EntryKind)
  | extension (extension : Extension)
  deriving DecidableEq

/-- The fields of one header that the policies consume. -/
structure HeaderFields where
  name : Bytes
  linkname : Bytes
  size : Nat
  deriving DecidableEq

def span (block : Bytes) (field : Span) : Bytes :=
  slice block field.start field.len

/-- The digits of a number in `base` after `value`, unless it overflows. -/
def accumulate (base value : Nat) : List Nat → Option Nat
  | [] => some value
  | digit :: digits =>
    let next := value * base + digit
    if next ≤ U64_MAX then accumulate base next digits else none

def isOctalDigit (byte : UInt8) : Bool :=
  48 ≤ byte && byte ≤ 55

/-- Leading spaces, octal digits, then NUL or space bytes: the value, and how many digits there were. -/
def parseOctal (field : Bytes) : Option (Nat × Nat) :=
  let rest := field.dropWhile (· == SPACE)
  let number := rest.takeWhile isOctalDigit
  if (rest.dropWhile isOctalDigit).all fun byte => byte == NUL || byte == SPACE then
    (accumulate 8 0 (number.map fun digit => (digit - ZERO).toNat)).map (·, number.length)
  else none

/-- Octal or base-256. -/
def parseNumeric (field : Bytes) (which : TarField) : Except ContentFault Nat :=
  let value :=
    match field with
    | [] => none
    | first :: rest =>
      if first &&& BASE256_MARKER = 0 then (parseOctal field).map Prod.fst
      else if first &&& BASE256_SIGN ≠ 0 then none
      else accumulate 256 (first &&& BASE256_FIRST_MAGNITUDE).toNat (rest.map UInt8.toNat)
  match value with
  | some value => .ok value
  | none => .error (.malformed (.tarNumericField which))

/-- The bytes up to the first NUL, after which all are NUL. -/
def parseName (field : Bytes) (which : TarField) : Except ContentFault Bytes :=
  if (field.dropWhile (· != NUL)).all (· == NUL) then .ok (field.takeWhile (· != NUL))
  else .error (.malformed (.tarNameField which))

/-- The block with its checksum field read as spaces. -/
def checksummed (block : Bytes) : Bytes :=
  block.take CHECKSUM.start ++ List.replicate CHECKSUM.len SPACE ++ block.drop (CHECKSUM.start + CHECKSUM.len)

def verifyChecksum (block : Bytes) : Except ContentFault Unit :=
  match (parseOctal (span block CHECKSUM)).filter fun parsed => 0 < parsed.2 with
  | none => .error (.malformed (.tarNumericField .checksum))
  | some (recorded, _) =>
    let unsigned := ((checksummed block).map UInt8.toNat).sum
    let signed := ((checksummed block).map fun byte => byte.toInt8.toInt).sum
    if recorded = unsigned ∨ (recorded : Int) = signed then .ok () else .error (.malformed .tarChecksum)

def readMagic (block : Bytes) : Except ContentFault Magic :=
  if span block POSIX_MAGIC = POSIX_MAGIC_BYTES ∧ span block POSIX_VERSION = POSIX_VERSION_BYTES then .ok .posix
  else if span block GNU_MAGIC = GNU_MAGIC_BYTES then .ok .gnu
  else .error (.unsupported .tarFormat)

/-- The device numbers, which only a device's header has. -/
def checkDevice (block : Bytes) (flag : UInt8) : Except ContentFault Unit :=
  if flag = 51 ∨ flag = 52 then do
    let _ ← parseNumeric (span block DEVMAJOR) .devMajor
    let _ ← parseNumeric (span block DEVMINOR) .devMinor
    .ok ()
  else .ok ()

/-- A GNU header keeps other data where a POSIX one has its prefix. -/
def parsePrefix (block : Bytes) : Magic → Except ContentFault Bytes
  | .posix => parseName (span block PREFIX) .pathPrefix
  | .gnu => .ok []

/-- The fields the policies use, and the lexical form of the others, in the order of the block. -/
def parseFields (block : Bytes) (magic : Magic) (flag : UInt8) : Except ContentFault HeaderFields := do
  let name ← parseName (span block NAME) .name
  let _ ← parseNumeric (span block MODE) .mode
  let _ ← parseNumeric (span block UID) .uid
  let _ ← parseNumeric (span block GID) .gid
  let size ← parseNumeric (span block SIZE) .size
  let _ ← parseNumeric (span block MTIME) .mtime
  let linkname ← parseName (span block LINKNAME) .linkname
  checkDevice block flag
  let pathPrefix ← parsePrefix block magic
  let name := if pathPrefix.isEmpty then name else pathPrefix ++ SLASH :: name
  .ok { name, linkname, size }

/-- The padded length of `size` bytes from `dataOffset` on, when its ends are offsets. -/
def paddedLen (dataOffset size : Nat) : Except ContentFault Nat :=
  let padded := (size + (BLOCK - 1)) / BLOCK * BLOCK
  if U64_MAX < dataOffset + size ∨ U64_MAX < padded ∨ U64_MAX < dataOffset + padded then
    .error (.malformed .offsetOverflow)
  else .ok padded

/-! ### Padding -/

variable {dataOffset size padded : Nat}

theorem paddedLen_ok (h : paddedLen dataOffset size = .ok padded) :
    padded % BLOCK = 0 ∧ size ≤ padded ∧ padded < size + BLOCK ∧ dataOffset + padded ≤ U64_MAX := by
  unfold paddedLen at h
  dsimp only at h
  split at h
  · cases h
  next hbound =>
  cases h
  unfold BLOCK at *
  omega

end DeployCore
