import DeployCore.Io
import DeployCore.Lib.Utf8

/-! # Strings

The string predicates the validators are built from. A string is read as its characters where the code cuts it
up or asks which ASCII class its bytes are in (a byte outside ASCII is in none of these classes), and as its
UTF-8 bytes where a length or the bytes themselves matter. -/

namespace DeployCore

/-- The UTF-8 bytes of a string. -/
def asBytes (s : String) : Bytes :=
  s.toUTF8.data.toList

theorem asBytes_eq_encode (s : String) : asBytes s = Utf8.encode s.toList := by
  show s.toByteArray.data.toList = _
  rw [← String.utf8Encode_toList]
  exact List.toList_data_toByteArray

theorem fromUTF8?_asBytes (s : String) : String.fromUTF8? (asBytes s).toByteArray = some s := by
  rw [asBytes_eq_encode, Utf8.fromUTF8?_encode, String.ofList_toList]

theorem asBytes_inj {s t : String} (h : asBytes s = asBytes t) : s = t := by
  have hread := congrArg (fun bytes : Bytes => String.fromUTF8? bytes.toByteArray) h
  simpa only [fromUTF8?_asBytes, Option.some.injEq] using hread

/-- `str::len`: the number of UTF-8 bytes. -/
def byteLen (s : String) : Nat :=
  (asBytes s).length

def isAsciiLower (c : Char) : Bool := 'a' ≤ c && c ≤ 'z'
def isAsciiUpper (c : Char) : Bool := 'A' ≤ c && c ≤ 'Z'
def isAsciiDigit (c : Char) : Bool := '0' ≤ c && c ≤ '9'
def isAsciiAlphanumeric (c : Char) : Bool := isAsciiLower c || isAsciiUpper c || isAsciiDigit c
def isAsciiHexDigit (c : Char) : Bool := isAsciiDigit c || ('a' ≤ c && c ≤ 'f') || ('A' ≤ c && c ≤ 'F')

/-- `to_ascii_lowercase` of one character. -/
def toAsciiLower (c : Char) : Char := if isAsciiUpper c then Char.ofNat (c.toNat + 32) else c

/-- A property of characters is checked of a string character by character. -/
theorem forall_mem_of_all {P : Char → Prop} [DecidablePred P] {cs : List Char} (h : cs.all (fun c => decide (P c)) = true) :
    ∀ c ∈ cs, P c := by
  simpa using h

/-- A character of `0..9` or `a..f`. -/
def isLowerHexDigit (c : Char) : Bool := isAsciiDigit c || ('a' ≤ c && c ≤ 'f')

/-- Every character is a lowercase hexadecimal digit. -/
def isLowerHex (s : String) : Bool :=
  s.toList.all isLowerHexDigit

/-- Two lowercase hexadecimal digits for each byte. -/
def toHex (bytes : Bytes) : String :=
  .ofList (bytes.flatMap fun byte => [Nat.digitChar (byte.toNat / 16), Nat.digitChar (byte.toNat % 16)])

/-- `char::is_control`: the Unicode category `Cc`. -/
def isControl (c : Char) : Bool :=
  c.toNat < 0x20 || (0x7F ≤ c.toNat && c.toNat ≤ 0x9F)

/-- `char::is_whitespace`: the Unicode property `White_Space`. -/
def isWhitespace (c : Char) : Bool :=
  (0x09 ≤ c.toNat && c.toNat ≤ 0x0D) || c.toNat == 0x20 || c.toNat == 0x85 || c.toNat == 0xA0 ||
    c.toNat == 0x1680 || (0x2000 ≤ c.toNat && c.toNat ≤ 0x200A) || c.toNat == 0x2028 || c.toNat == 0x2029 ||
    c.toNat == 0x202F || c.toNat == 0x205F || c.toNat == 0x3000

/-- A first character of one class and every further one of another. -/
def headTail (first rest : Char → Bool) : List Char → Bool
  | [] => false
  | c :: cs => first c && cs.all rest

/-- `split_once`: the text around the first `sep`. -/
def splitOnce (sep : Char) : List Char → Option (List Char × List Char)
  | [] => none
  | c :: cs =>
    if c = sep then some ([], cs)
    else (splitOnce sep cs).map fun (before, after) => (c :: before, after)

/-- The text around the last `sep`. -/
def rsplitOnce (sep : Char) (cs : List Char) : Option (List Char × List Char) :=
  (splitOnce sep cs.reverse).map fun (after, before) => (before.reverse, after.reverse)

/-- `strip_prefix`. -/
def stripPrefix (pre : List Char) (cs : List Char) : Option (List Char) :=
  if pre.isPrefixOf cs then some (cs.drop pre.length) else none

/-- `String::from_utf8_lossy`: a sequence begun by a lead byte, with how many bytes it still needs, what they may
begin with and the value so far. -/
structure LossySequence where
  need : Nat
  low : Nat
  high : Nat
  value : Nat

/-- The character a first byte is, or the sequence it begins; anything else is replaced. -/
def lossyLead (byte : Nat) : Option (Char ⊕ LossySequence) :=
  if byte < 0x80 then some (.inl (.ofNat byte))
  else if 0xC2 ≤ byte ∧ byte ≤ 0xDF then some (.inr ⟨1, 0x80, 0xBF, byte - 0xC0⟩)
  else if byte = 0xE0 then some (.inr ⟨2, 0xA0, 0xBF, 0⟩)
  else if byte = 0xED then some (.inr ⟨2, 0x80, 0x9F, 0xD⟩)
  else if 0xE1 ≤ byte ∧ byte ≤ 0xEF then some (.inr ⟨2, 0x80, 0xBF, byte - 0xE0⟩)
  else if byte = 0xF0 then some (.inr ⟨3, 0x90, 0xBF, 0⟩)
  else if 0xF1 ≤ byte ∧ byte ≤ 0xF3 then some (.inr ⟨3, 0x80, 0xBF, byte - 0xF0⟩)
  else if byte = 0xF4 then some (.inr ⟨3, 0x80, 0x8F, 4⟩)
  else none

def replacementCharacter : Char := .ofNat 0xFFFD

def lossyFrom : Option LossySequence → Bytes → List Char
  | none, [] => []
  | some _, [] => [replacementCharacter]
  | pending, byte :: rest =>
    let lead : List Char := match lossyLead byte.toNat with
      | some (.inl c) => c :: lossyFrom none rest
      | some (.inr sequence) => lossyFrom (some sequence) rest
      | none => replacementCharacter :: lossyFrom none rest
    match pending with
    | none => lead
    | some s =>
      if s.low ≤ byte.toNat ∧ byte.toNat ≤ s.high then
        let value := s.value * 64 + (byte.toNat - 0x80)
        if s.need ≤ 1 then .ofNat value :: lossyFrom none rest
        else lossyFrom (some ⟨s.need - 1, 0x80, 0xBF, value⟩) rest
      else replacementCharacter :: lead

def fromUtf8Lossy (bytes : Bytes) : List Char := lossyFrom none bytes

end DeployCore
