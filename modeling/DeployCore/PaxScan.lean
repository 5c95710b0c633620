import DeployCore.GenerationNames
import DeployCore.PaxRecords

/-! # Scanning an extension record (`src/payload/outer/framing.rs`)

An extension record that a bounded walk does not buffer is scanned as its bytes pass, with a bounded state, and refused
for what it overrides. For a PAX record that is what the archive reader finds in the whole body. -/

namespace DeployCore

def REPORTED_NAME_MAX : Nat := 256
def TRUNCATION_MARK : Char := .ofNat 0x2026
def PAX_KEY_MAX : Nat := 8
def PAX_PATH : Bytes := asBytes "path"
def PAX_SIZE : Bytes := asBytes "size"
def PLUS : UInt8 := 43

/-- At most `REPORTED_NAME_MAX` bytes of a name, and whether more followed. -/
structure NamePrefix where
  bytes : Bytes
  truncated : Bool
  deriving DecidableEq

namespace NamePrefix

def empty : NamePrefix := ⟨[], false⟩

def push (name : NamePrefix) (byte : UInt8) : NamePrefix :=
  if name.bytes.length < REPORTED_NAME_MAX then { name with bytes := name.bytes ++ [byte] }
  else { name with truncated := true }

def isFull (name : NamePrefix) : Bool :=
  REPORTED_NAME_MAX ≤ name.bytes.length

/-- The name as a refusal reports it. -/
def display (name : NamePrefix) (continues : Bool) : String :=
  .ofList (fromUtf8Lossy name.bytes ++ if name.truncated || continues then [TRUNCATION_MARK] else [])

end NamePrefix

/-- A decimal number read a digit at a time. -/
structure PaxDecimal where
  value : Nat
  digits : Bool
  len : Nat
  invalid : Bool
  deriving DecidableEq

namespace PaxDecimal

def empty : PaxDecimal := ⟨0, false, 0, false⟩

/-- The value with one more digit, where `byte` is one and the value stays within 64 bits. -/
def next (decimal : PaxDecimal) (byte : UInt8) : Option Nat :=
  if isDigit byte then
    let value := decimal.value * 10
    let added := value + (byte - ZERO).toNat
    if value ≤ U64_MAX ∧ added ≤ U64_MAX then some added else none
  else none

def push (decimal : PaxDecimal) (byte : UInt8) : PaxDecimal :=
  let counted := { decimal with len := min (decimal.len + 1) U64_MAX }
  if decimal.len = 0 ∧ byte = PLUS then counted
  else
    match decimal.next byte with
    | some value =>
      if decimal.invalid then { counted with invalid := true } else { counted with value, digits := true }
    | none => { counted with invalid := true }

def get (decimal : PaxDecimal) : Option Nat :=
  if decimal.digits && !decimal.invalid then some decimal.value else none

end PaxDecimal

namespace PaxScan

/-- Which part of a PAX record line is being read. -/
inductive Part
  | length
  | key
  | value
  | malformed
  deriving DecidableEq

/-- Which key a PAX line's value belongs to. -/
inductive Key
  | other
  | path
  | size
  deriving DecidableEq

end PaxScan

inductive PathLookup
  | unresolved
  | candidate
  | found
  deriving DecidableEq

inductive SizeLookup
  | unresolved
  | found (size : Nat)
  | closed
  deriving DecidableEq

/-- The records of a PAX extension body, read a byte at a time. -/
structure PaxScan where
  part : PaxScan.Part
  lineLen : Nat
  length : PaxDecimal
  /-- At most `PAX_KEY_MAX` bytes. -/
  key : Bytes
  keyOverlong : Bool
  valueKey : PaxScan.Key
  sizeValue : PaxDecimal
  path : PathLookup
  pathUnfinished : Bool
  size : SizeLookup
  ended : Bool
  deriving DecidableEq

namespace PaxScan

def empty : PaxScan := ⟨.length, 0, .empty, [], false, .other, .empty, .unresolved, false, .unresolved, false⟩

/-- Whether the current line is well formed once it ends here. -/
def wellFormed (scan : PaxScan) : Bool :=
  scan.part == .value && decide (scan.lineLen + 1 ≤ U64_MAX) && scan.length.get == some (scan.lineLen + 1)

/-- The scan at the start of the next line. -/
def nextLine (scan : PaxScan) (path : PathLookup) (size : SizeLookup) : PaxScan :=
  { empty with path, size, ended := scan.ended }

def endLine (scan : PaxScan) (name : NamePrefix) : PaxScan × NamePrefix :=
  if scan.lineLen = 0 then ({ scan with ended := true }, name)
  else if scan.wellFormed then
    match scan.valueKey with
    | .path => (scan.nextLine (if scan.path = .candidate then .found else scan.path) scan.size, name)
    | .size =>
      let size := if scan.size = .unresolved then scan.sizeValue.get.elim .closed .found else scan.size
      (scan.nextLine scan.path size, name)
    | .other => (scan.nextLine scan.path scan.size, name)
  else
    let size := if scan.size = .unresolved then .closed else scan.size
    if scan.path = .candidate then (scan.nextLine .unresolved size, .empty) else (scan.nextLine scan.path size, name)

/-- The key that has been read, at its equals sign. -/
def lineKey (scan : PaxScan) : PaxScan.Key :=
  if scan.keyOverlong then .other
  else if scan.key = PAX_PATH then .path
  else if scan.key = PAX_SIZE then .size
  else .other

def byte (scan : PaxScan) (byte : UInt8) (name : NamePrefix) : PaxScan × NamePrefix :=
  if scan.ended then (scan, name)
  else if byte = NEWLINE then scan.endLine name
  else
    let scan := if scan.lineLen + 1 ≤ U64_MAX then { scan with lineLen := scan.lineLen + 1 }
      else { scan with part := .malformed }
    match scan.part with
    | .length =>
      if byte = SPACE then ({ scan with part := if scan.length.get.isSome then .key else .malformed }, name)
      else ({ scan with length := scan.length.push byte }, name)
    | .key =>
      if byte = EQUALS then
        if scan.lineKey = .path ∧ scan.path = .unresolved then
          ({ scan with part := .value, valueKey := .path, path := .candidate }, .empty)
        else ({ scan with part := .value, valueKey := scan.lineKey }, name)
      else if scan.key.length < PAX_KEY_MAX then ({ scan with key := scan.key ++ [byte] }, name)
      else ({ scan with keyOverlong := true }, name)
    | .value =>
      match scan.valueKey with
      | .path => if scan.path = .candidate then (scan, name.push byte) else (scan, name)
      | .size => ({ scan with sizeValue := scan.sizeValue.push byte }, name)
      | .other => (scan, name)
    | .malformed => (scan, name)

/-- Ends the scan at the end of the record, or where the allowance or the stream stopped it. -/
def finish (scan : PaxScan) (whole : Bool) (name : NamePrefix) : PaxScan × NamePrefix :=
  if scan.ended ∨ scan.path = .found then (scan, name)
  else if whole then
    let (scan, name) := if 0 < scan.lineLen then scan.endLine name else (scan, name)
    ({ scan with ended := true }, name)
  else
    let isPlausible := scan.part == .value && decide (scan.lineLen + 1 ≤ U64_MAX) &&
      scan.length.get.any fun declared => decide (scan.lineLen + 1 ≤ declared)
    if scan.path = .candidate ∧ isPlausible then
      ({ scan with path := .found, pathUnfinished := true, ended := true }, name)
    else ({ scan with ended := true }, name)

end PaxScan

/-! ### A record that is scanned -/

/-- The extension records the archive reader buffers whole. -/
inductive ExtensionKind
  | longName
  | longLink
  | pax
  deriving DecidableEq

structure ExtensionScan where
  kind : ExtensionKind
  headerName : String
  headerSize : Nat
  remaining : Nat
  name : NamePrefix
  pax : PaxScan
  deriving DecidableEq

namespace ExtensionScan

/-- What an extension record too large for the allowance overrides, its names as a refusal shows them. -/
inductive OversizedExtension
  | name (headerName resolvedName : String)
  | size (path : String) (headerSize resolvedSize : Nat)
  | link (path : String)
  deriving DecidableEq

/-- `ExtensionScan::new`, from what the header says: its raw name and its size, zero where it has none. -/
def ofHeader (kind : ExtensionKind) (pathBytes : Bytes) (entrySize : Option UInt64) : ExtensionScan :=
  let headerSize := (entrySize.getD 0).toNat
  ⟨kind, .ofList (fromUtf8Lossy pathBytes), headerSize, headerSize, .empty, .empty⟩

/-- Whether the scan can decide without another byte. -/
def decided (scan : ExtensionScan) : Bool :=
  scan.remaining == 0 ||
    match scan.kind with
    | .longLink => true
    | .longName => scan.name.isFull
    | .pax => scan.pax.path == .found || scan.pax.ended

/-- A byte of the body. -/
def scanByte (scan : ExtensionScan) (byte : UInt8) : ExtensionScan :=
  match scan.kind with
  | .longLink => scan
  | .longName => { scan with name := scan.name.push byte }
  | .pax => { scan with pax := (scan.pax.byte byte scan.name).1, name := (scan.pax.byte byte scan.name).2 }

/-- Scans a prefix of `input` within the record; its length, and the scan after it. -/
def feed (scan : ExtensionScan) (input : Bytes) : Nat × ExtensionScan :=
  let used := min input.length scan.remaining
  (used, { (input.take used).foldl scanByte scan with remaining := scan.remaining - used })

/-- The override the record was seen to carry, if any. -/
def conclude (scan : ExtensionScan) : Option OversizedExtension :=
  let whole := scan.remaining == 0
  match scan.kind with
  | .longLink => some (.link scan.headerName)
  | .longName =>
    let terminated := whole && !scan.name.truncated && scan.name.bytes.getLast? == some NUL
    let name := if terminated then { scan.name with bytes := scan.name.bytes.dropLast } else scan.name
    some (.name scan.headerName (name.display !whole))
  | .pax =>
    let (pax, name) := scan.pax.finish whole scan.name
    if pax.path = .found then some (.name scan.headerName (name.display pax.pathUnfinished))
    else
      match pax.size with
      | .found resolvedSize => some (.size scan.headerName scan.headerSize resolvedSize)
      | _ => none

end ExtensionScan

/-! ### What the archive reader finds in a body -/

/-- The number that a text parses as. -/
def paxNumber (text : Bytes) : Option Nat :=
  (parseU64 text).map UInt64.toNat

/-- A line taken apart: the length it declares, its key and its value. -/
def splitLine (line : Bytes) : Option (Nat × Bytes × Bytes) :=
  match line.dropWhile (· != SPACE), paxNumber (line.takeWhile (· != SPACE)) with
  | _ :: keyed, some declared =>
    match keyed.dropWhile (· != EQUALS) with
    | _ :: value => some (declared, keyed.takeWhile (· != EQUALS), value)
    | [] => none
  | _, _ => none

/-- A line taken as a record: its key and its value, where its length counts it and its newline. -/
def readLine (line : Bytes) : Option (Bytes × Bytes) :=
  (splitLine line).bind fun (declared, record) => if declared = line.length + 1 then some record else none

/-- The path that a line gives. -/
def linePath (line : Bytes) : Option Bytes :=
  (readLine line).bind fun (key, value) => if key = PAX_PATH then some value else none

/-- The lines of a body up to the first empty one. -/
def paxLines (body : Bytes) : List Bytes :=
  (body.splitOn NEWLINE).takeWhile (· ≠ [])

/-- The first record keyed `path`, whatever other lines are. -/
def firstPath (lines : List Bytes) : Option Bytes :=
  lines.findSome? linePath

/-- The first record keyed `size`, where it parses and no line before it is malformed. -/
def firstSize : List Bytes → Option Nat
  | [] => none
  | line :: lines =>
    match readLine line with
    | none => none
    | some (key, value) => if key = PAX_SIZE then paxNumber value else firstSize lines

/-- The path of a line that stops short, where its length does not contradict it yet. -/
def plausiblePath (line : Bytes) : Option Bytes :=
  (splitLine line).bind fun (declared, key, value) =>
    if line.length + 1 ≤ declared ∧ key = PAX_PATH then some value else none

/-- The path of a body that stops short, and whether its line does; the last of the body's pieces may go on. -/
def truncatedPath : List Bytes → Option (Bytes × Bool)
  | [] => none
  | [line] => (plausiblePath line).map (·, true)
  | line :: lines => if line = [] then none else ((linePath line).map (·, false)).or (truncatedPath lines)

/-! ### Numerals and names -/

theorem paxNumber_eq (text : Bytes) : paxNumber text =
    let digits := if text.head? = some PLUS then text.tail else text
    if digits = [] then none else Decimal.read (U64_MAX + 1) 0 digits := by
  have hread (digits : Bytes) : ((Decimal.read (U64_MAX + 1) 0 digits).map UInt64.ofNat).map UInt64.toNat =
      Decimal.read (U64_MAX + 1) 0 digits := by
    rcases hread : Decimal.read (U64_MAX + 1) 0 digits with _ | n
    · rfl
    · have hlt := ((Decimal.read_eq_some_iff (Nat.succ_pos _)).mp hread).2.2
      exact congrArg some (UInt64.toNat_ofNat_of_lt hlt)
  simp only [paxNumber, parseU64]
  rw [show (2 : Nat) ^ 64 = U64_MAX + 1 from rfl, apply_ite (Option.map UInt64.toNat), hread]
  rfl

theorem paxNumber_le {text : Bytes} {n : Nat} (h : paxNumber text = some n) : n ≤ U64_MAX := by
  obtain ⟨number, -, rfl⟩ := Option.map_eq_some_iff.mp h
  exact Nat.lt_succ_iff.mp number.toNat_lt

namespace NamePrefix

/-- What is kept of a name. -/
def of (value : Bytes) : NamePrefix :=
  ⟨value.take REPORTED_NAME_MAX, decide (REPORTED_NAME_MAX < value.length)⟩

theorem push_of (value : Bytes) (byte : UInt8) : (of value).push byte = of (value ++ [byte]) := by
  unfold push of
  simp only [List.length_take, List.length_append, List.length_singleton]
  by_cases hroom : value.length < REPORTED_NAME_MAX
  · rw [if_pos (by omega), List.take_of_length_le (by omega), List.take_of_length_le (by simp; omega),
      decide_eq_false (by omega), decide_eq_false (by omega)]
  · rw [if_neg (by omega), List.take_append_of_le_length (by omega), decide_eq_true (by omega : _ < value.length + 1)]

end NamePrefix

namespace PaxDecimal

/-- The number after a text. -/
def of (text : Bytes) : PaxDecimal :=
  text.foldl push empty

theorem of_snoc (text : Bytes) (byte : UInt8) : (of text).push byte = of (text ++ [byte]) := by
  rw [of, of, List.foldl_append]
  rfl

variable {decimal : PaxDecimal}

theorem push_invalid (h : decimal.invalid = true) (byte : UInt8) : (decimal.push byte).invalid = true := by
  unfold push
  split
  · exact h
  · split
    · rfl
    · rfl

theorem foldl_invalid (h : decimal.invalid = true) (text : Bytes) : (text.foldl push decimal).invalid = true := by
  induction text generalizing decimal with
  | nil => exact h
  | cons byte text ih => exact ih (push_invalid h byte)

theorem next_eq (byte : UInt8) : decimal.next byte =
    if 48 ≤ byte.toNat ∧ byte.toNat ≤ 57 then
      if 10 * decimal.value + (byte.toNat - 48) < U64_MAX + 1 then some (10 * decimal.value + (byte.toNat - 48))
      else none
    else none := by
  unfold next
  by_cases hbyte : isDigit byte = true
  · have hrange := isDigit_iff.mp hbyte
    have hsub : (byte - ZERO).toNat = byte.toNat - 48 := UInt8.toNat_sub_of_le _ _ hrange.1
    rw [if_pos hbyte, if_pos hrange, hsub, Nat.mul_comm decimal.value]
    have hiff : (10 * decimal.value ≤ U64_MAX ∧ 10 * decimal.value + (byte.toNat - 48) ≤ U64_MAX) ↔
        10 * decimal.value + (byte.toNat - 48) < U64_MAX + 1 := by omega
    exact if_congr hiff rfl rfl
  · rw [if_neg hbyte, if_neg fun hrange => hbyte (isDigit_iff.mpr hrange)]

/-- Digits are taken in as a decimal parser reads them. -/
theorem foldl_digits {digits : Bytes} (hvalid : decimal.invalid = false)
    (hsign : decimal.len = 0 → digits.head? ≠ some PLUS) :
    match Decimal.read (U64_MAX + 1) decimal.value digits with
    | some value => (digits.foldl push decimal).invalid = false ∧ (digits.foldl push decimal).value = value ∧
      (digits.foldl push decimal).digits = (decimal.digits || !digits.isEmpty)
    | none => (digits.foldl push decimal).invalid = true := by
  induction digits generalizing decimal with
  | nil => exact ⟨hvalid, rfl, (Bool.or_false _).symm⟩
  | cons byte digits ih =>
    have hplus : ¬(decimal.len = 0 ∧ byte = PLUS) := fun ⟨hlen, hbyte⟩ => hsign hlen (congrArg some hbyte)
    have hpush : decimal.push byte = match decimal.next byte with
        | some value => { decimal with len := min (decimal.len + 1) U64_MAX, value, digits := true }
        | none => { decimal with len := min (decimal.len + 1) U64_MAX, invalid := true } := by
      rw [push, if_neg hplus]
      cases decimal.next byte with
      | some value => simp only [hvalid, Bool.false_eq_true, if_false]
      | none => rfl
    have hlen : min (decimal.len + 1) U64_MAX ≠ 0 := by
      have : 0 < U64_MAX := by decide
      omega
    rw [List.foldl_cons, hpush, Decimal.read, next_eq]
    split_ifs with hrange hlt
    · have hrest :=
        @ih ⟨10 * decimal.value + (byte.toNat - 48), true, min (decimal.len + 1) U64_MAX, decimal.invalid⟩ hvalid
        (fun h => absurd h hlen)
      simpa using hrest
    · exact foldl_invalid rfl digits
    · exact foldl_invalid rfl digits

/-- The number read is the one `str::parse` gives. -/
theorem get_of (text : Bytes) : (of text).get = paxNumber text := by
  have hget {decimal : PaxDecimal} {digits : Bytes} (hvalid : decimal.invalid = false) (hempty : decimal.digits = false)
      (hvalue : decimal.value = 0) (hsign : decimal.len = 0 → digits.head? ≠ some PLUS) :
      (digits.foldl push decimal).get = if digits = [] then none else Decimal.read (U64_MAX + 1) 0 digits := by
    have hfold := foldl_digits hvalid hsign
    rw [hvalue] at hfold
    cases hread : Decimal.read (U64_MAX + 1) 0 digits with
    | none =>
      rw [hread] at hfold
      simp [get, show (digits.foldl push decimal).invalid = true from hfold]
    | some value =>
      rw [hread] at hfold
      obtain ⟨hinvalid, hvalue, hdigits⟩ := hfold
      cases digits <;> simp_all [get]
  rw [paxNumber_eq]
  rcases text with _ | ⟨byte, text⟩
  · rfl
  by_cases hbyte : byte = PLUS
  · subst hbyte
    exact @hget (empty.push PLUS) text rfl rfl rfl fun h => absurd h (by decide)
  · have hhead : (byte :: text).head? ≠ some PLUS := fun h => hbyte (Option.some.inj h)
    rw [if_neg hhead]
    exact hget rfl rfl rfl fun _ => hhead

end PaxDecimal

/-! ### What a line is read as -/

theorem takeWhile_sep {sep : UInt8} {front rest : Bytes} (h : sep ∉ front) :
    (front ++ sep :: rest).takeWhile (· != sep) = front := by
  rw [List.takeWhile_append_of_pos fun b hb => bne_iff_ne.mpr (ne_of_mem_of_not_mem hb h),
    List.takeWhile_cons_of_neg (by simp), List.append_nil]

theorem dropWhile_sep {sep : UInt8} {front rest : Bytes} (h : sep ∉ front) :
    (front ++ sep :: rest).dropWhile (· != sep) = sep :: rest := by
  rw [List.dropWhile_append_of_pos fun b hb => bne_iff_ne.mpr (ne_of_mem_of_not_mem hb h),
    List.dropWhile_cons_of_neg (by simp)]

theorem dropWhile_absent {sep : UInt8} {text : Bytes} (h : sep ∉ text) : text.dropWhile (· != sep) = [] :=
  List.dropWhile_eq_nil_iff.mpr fun _ hb => bne_iff_ne.mpr (ne_of_mem_of_not_mem hb h)

theorem splitLine_unspaced {text : Bytes} (h : SPACE ∉ text) : splitLine text = none := by
  rw [splitLine, dropWhile_absent h]

theorem splitLine_spaced {declared keyed : Bytes} (h : SPACE ∉ declared) :
    splitLine (declared ++ SPACE :: keyed) = (paxNumber declared).bind fun n =>
      match keyed.dropWhile (· != EQUALS) with
      | _ :: value => some (n, keyed.takeWhile (· != EQUALS), value)
      | [] => none := by
  rw [splitLine, takeWhile_sep h, dropWhile_sep h]
  rcases paxNumber declared with _ | n <;> rfl

theorem splitLine_malformed {declared keyed : Bytes} (h : SPACE ∉ declared) (hparse : paxNumber declared = none) :
    splitLine (declared ++ SPACE :: keyed) = none := by
  rw [splitLine_spaced h, hparse]
  rfl

theorem splitLine_unkeyed {declared key : Bytes} (h : SPACE ∉ declared) (hkey : EQUALS ∉ key) :
    splitLine (declared ++ SPACE :: key) = none := by
  rw [splitLine_spaced h, dropWhile_absent hkey]
  rcases paxNumber declared with _ | n <;> rfl

theorem splitLine_keyed {declared key value : Bytes} {n : Nat} (h : SPACE ∉ declared)
    (hparse : paxNumber declared = some n) (hkey : EQUALS ∉ key) : splitLine (declared ++ SPACE :: (key ++ EQUALS :: value)) = some (n, key, value) := by
  rw [splitLine_spaced h, hparse, takeWhile_sep hkey, dropWhile_sep hkey]
  rfl

/-! ### One line -/

namespace PaxScan

/-- Which of the two keys a key is. -/
def keyOf (key : Bytes) : Key :=
  if key = PAX_PATH then .path else if key = PAX_SIZE then .size else .other

theorem lineKey_eq {scan : PaxScan} {key : Bytes} (hkey : scan.key = key.take PAX_KEY_MAX)
    (hlong : scan.keyOverlong = decide (PAX_KEY_MAX < key.length)) : scan.lineKey = keyOf key := by
  unfold lineKey keyOf
  by_cases h : PAX_KEY_MAX < key.length
  · have hne (name : Bytes) (hname : name.length ≤ PAX_KEY_MAX) : key ≠ name := by
      rintro rfl
      omega
    rw [if_pos (hlong.trans (decide_eq_true h)), if_neg (hne _ (by decide +kernel)),
      if_neg (hne _ (by decide +kernel))]
  · have hshort : ¬scan.keyOverlong = true := by rw [hlong, decide_eq_false h]; decide
    rw [if_neg hshort, hkey, List.take_of_length_le (Nat.not_lt.mp h)]

/-- The scan within a line, from the lookups before it: what is known is computed from the line's bytes so far. -/
inductive LineAt (path : PathLookup) (size : SizeLookup) (name : NamePrefix) : Bytes → PaxScan × NamePrefix → Prop
  | length {text : Bytes} (h : SPACE ∉ text) :
    LineAt path size name text ({ empty with path, size, lineLen := text.length, length := .of text }, name)
  | malformed {declared rest : Bytes} (h : SPACE ∉ declared) (hparse : paxNumber declared = none) :
    LineAt path size name (declared ++ SPACE :: rest)
      ({ empty with path, size, part := .malformed, lineLen := (declared ++ SPACE :: rest).length,
                    length := .of declared }, name)
  | key {declared key : Bytes} {n : Nat} (h : SPACE ∉ declared) (hparse : paxNumber declared = some n)
    (hkey : EQUALS ∉ key) :
    LineAt path size name (declared ++ SPACE :: key)
      ({ empty with path, size, part := .key, lineLen := (declared ++ SPACE :: key).length, length := .of declared,
                    key := key.take PAX_KEY_MAX, keyOverlong := decide (PAX_KEY_MAX < key.length) }, name)
  | value {declared key value : Bytes} {n : Nat} (h : SPACE ∉ declared) (hparse : paxNumber declared = some n)
    (hkey : EQUALS ∉ key) :
    LineAt path size name (declared ++ SPACE :: (key ++ EQUALS :: value))
      ({ empty with
          path := if keyOf key = .path ∧ path = .unresolved then .candidate else path
          size, part := .value, lineLen := (declared ++ SPACE :: (key ++ EQUALS :: value)).length
          length := .of declared
          key := key.take PAX_KEY_MAX, keyOverlong := decide (PAX_KEY_MAX < key.length), valueKey := keyOf key
          sizeValue := if keyOf key = .size then .of value else .empty },
        if keyOf key = .path ∧ path = .unresolved then .of value else name)

section Line
variable {path : PathLookup} {size : SizeLookup} {name : NamePrefix} {line : Bytes} {st : PaxScan × NamePrefix}

theorem LineAt.lineLen (h : LineAt path size name line st) : st.1.lineLen = line.length := by
  cases h <;> rfl

theorem LineAt.ended (h : LineAt path size name line st) : st.1.ended = false := by
  cases h <;> rfl

/-- A byte that does not end the line. -/
theorem byte_within {scan : PaxScan} {b : UInt8} (hended : scan.ended = false) (hb : b ≠ NEWLINE)
    (hlen : scan.lineLen + 1 ≤ U64_MAX) : scan.byte b name =
    match scan.part with
    | .length =>
      if b = SPACE then
        ({ scan with lineLen := scan.lineLen + 1, part := if scan.length.get.isSome then .key else .malformed }, name)
      else ({ scan with lineLen := scan.lineLen + 1, length := scan.length.push b }, name)
    | .key =>
      if b = EQUALS then
        if scan.lineKey = .path ∧ scan.path = .unresolved then
          ({ scan with lineLen := scan.lineLen + 1, part := .value, valueKey := .path, path := .candidate }, .empty)
        else ({ scan with lineLen := scan.lineLen + 1, part := .value, valueKey := scan.lineKey }, name)
      else if scan.key.length < PAX_KEY_MAX then
        ({ scan with lineLen := scan.lineLen + 1, key := scan.key ++ [b] }, name)
      else ({ scan with lineLen := scan.lineLen + 1, keyOverlong := true }, name)
    | .value =>
      match scan.valueKey with
      | .path =>
        if scan.path = .candidate then ({ scan with lineLen := scan.lineLen + 1 }, name.push b)
        else ({ scan with lineLen := scan.lineLen + 1 }, name)
      | .size => ({ scan with lineLen := scan.lineLen + 1, sizeValue := scan.sizeValue.push b }, name)
      | .other => ({ scan with lineLen := scan.lineLen + 1 }, name)
    | .malformed => ({ scan with lineLen := scan.lineLen + 1 }, name) := by
  rw [PaxScan.byte, if_neg (by rw [hended]; decide), if_neg hb, if_pos hlen]
  rfl

/-- A byte of the line. -/
theorem LineAt.byte (h : LineAt path size name line st) {b : UInt8} (hb : b ≠ NEWLINE) (hpath : path ≠ .candidate)
    (hlen : line.length + 1 ≤ U64_MAX) : LineAt path size name (line ++ [b]) (st.1.byte b st.2) := by
  rw [byte_within h.ended hb (by rwa [h.lineLen])]
  rcases h with h | @⟨declared, rest, h, hparse⟩ | @⟨declared, key, n, h, hparse, hkey⟩ |
    @⟨declared, key, value, n, h, hparse, hkey⟩
  · by_cases hsep : b = SPACE
    · subst hsep
      simp only [if_true, PaxDecimal.get_of]
      rcases hparse : paxNumber line with _ | n
      · have hline : LineAt path size name (line ++ [SPACE]) _ := .malformed h hparse
        simpa [empty, hparse] using hline
      · have hline : LineAt path size name (line ++ [SPACE]) _ := .key h hparse List.not_mem_nil
        simpa [empty, hparse] using hline
    · have hline : LineAt path size name (line ++ [b]) _ := .length (by simpa [h] using Ne.symm hsep)
      simpa [empty, hsep, PaxDecimal.of_snoc] using hline
  · have hline : LineAt path size name (declared ++ SPACE :: (rest ++ [b])) _ := .malformed h hparse
    simpa [empty, Nat.add_assoc] using hline
  · by_cases hsep : b = EQUALS
    · subst hsep
      have hline : LineAt path size name (declared ++ SPACE :: (key ++ EQUALS :: [])) _ := .value h hparse hkey
      have hnumber : PaxDecimal.of [] = .empty := rfl
      have hname : NamePrefix.of [] = .empty := rfl
      simp only [if_true]
      rw [lineKey_eq rfl rfl]
      split_ifs with hfirst
      · simpa [empty, Nat.add_assoc, hfirst, hnumber, hname] using hline
      · simpa [empty, Nat.add_assoc, hfirst, hnumber] using hline
    · have hline : LineAt path size name (declared ++ SPACE :: (key ++ [b])) _ :=
        .key h hparse (by simpa [hkey] using Ne.symm hsep)
      simp only [if_neg hsep, List.length_take]
      split_ifs with hroom
      · have hshort : key.length < PAX_KEY_MAX := by omega
        have htake : (key ++ [b]).take PAX_KEY_MAX = key.take PAX_KEY_MAX ++ [b] := by
          rw [List.take_of_length_le (by simp; omega), List.take_of_length_le hshort.le]
        have hlong : ¬PAX_KEY_MAX < key.length + 1 := by omega
        have hkept : ¬PAX_KEY_MAX < key.length := by omega
        have hlong' : ¬PAX_KEY_MAX ≤ key.length := by omega
        simpa [empty, Nat.add_assoc, htake, hlong, hlong', hkept] using hline
      · have htake : (key ++ [b]).take PAX_KEY_MAX = key.take PAX_KEY_MAX :=
          List.take_append_of_le_length (by omega)
        have hlong : PAX_KEY_MAX < key.length + 1 := by omega
        simpa [empty, Nat.add_assoc, htake, hlong] using hline
  · have hline : LineAt path size name (declared ++ SPACE :: (key ++ EQUALS :: (value ++ [b]))) _ :=
      .value h hparse hkey
    rcases hkeyOf : keyOf key
    · simpa [empty, Nat.add_assoc, hkeyOf] using hline
    · by_cases hfirst : path = .unresolved
      · simpa [empty, Nat.add_assoc, hkeyOf, hfirst, NamePrefix.push_of] using hline
      · simpa [empty, Nat.add_assoc, hkeyOf, hfirst, hpath] using hline
    · simpa [empty, Nat.add_assoc, hkeyOf, PaxDecimal.of_snoc] using hline

/-- The lookup of a path, and the name kept of it. -/
def lookupOf (found : Option Bytes) : PathLookup :=
  if found.isSome then .found else .unresolved

def nameOf (found : Option Bytes) : NamePrefix :=
  found.elim .empty .of

theorem lookupOf_ne (found : Option Bytes) : lookupOf found ≠ .candidate := by
  unfold lookupOf
  split_ifs <;> simp

/-- The lookup of a size after a line. -/
def sizeAfter (size : SizeLookup) (line : Bytes) : SizeLookup :=
  if size = .unresolved then
    match readLine line with
    | none => .closed
    | some (key, value) => if key = PAX_SIZE then (paxNumber value).elim .closed .found else .unresolved
  else size

/-- The scan between two lines. -/
def start (found : Option Bytes) (size : SizeLookup) : PaxScan × NamePrefix :=
  ({ empty with path := lookupOf found, size }, nameOf found)

theorem keyOf_path {key : Bytes} : keyOf key = .path ↔ key = PAX_PATH := by
  unfold keyOf
  split_ifs with h h' <;> simp [h]

theorem keyOf_size {key : Bytes} : keyOf key = .size ↔ key = PAX_SIZE := by
  have hne : PAX_SIZE ≠ PAX_PATH := by decide +kernel
  unfold keyOf
  split_ifs with h h'
  · simp [h, hne.symm]
  · simp [h']
  · simp [h']

/-- A line read to its end leaves what it gives. -/
theorem LineAt.endLine {found : Option Bytes} (h : LineAt (lookupOf found) size (nameOf found) line st)
    (hne : line ≠ []) : st.1.endLine st.2 = start (found.or (linePath line)) (sizeAfter size line) := by
  have hlong : ¬st.1.lineLen = 0 := by
    rw [h.lineLen]
    exact fun hnil => hne (List.length_eq_zero_iff.mp hnil)
  have hidle := lookupOf_ne found
  have hrefused (hsplit : splitLine line = none) (hform : st.1.wellFormed = false) (hpath : st.1.path = lookupOf found)
      (hsize : st.1.size = size) (hname : st.2 = nameOf found) :
      st.1.endLine st.2 = start (found.or (linePath line)) (sizeAfter size line) := by
    have hread : readLine line = none := by rw [readLine, hsplit]; rfl
    rw [PaxScan.endLine, if_neg hlong, if_neg (by rw [hform]; decide), hpath, if_neg hidle, hsize, hname,
      linePath, hread, sizeAfter, hread]
    simp [start, nextLine, h.ended, empty]
  rcases h with h | @⟨declared, rest, h, hparse⟩ | @⟨declared, key, n, h, hparse, hkey⟩ |
    @⟨declared, key, value, n, h, hparse, hkey⟩
  · exact hrefused (splitLine_unspaced h) rfl rfl rfl rfl
  · exact hrefused (splitLine_malformed h hparse) rfl rfl rfl rfl
  · exact hrefused (splitLine_unkeyed h hkey) rfl rfl rfl rfl
  · have hsplit := @splitLine_keyed _ _ value _ h hparse hkey
    set line := declared ++ SPACE :: (key ++ EQUALS :: value) with hline
    clear_value line
    have hread : readLine line = if n = line.length + 1 then some (key, value) else none := by
      rw [readLine, hsplit]
      rfl
    rw [PaxScan.endLine, if_neg hlong]
    unfold wellFormed linePath sizeAfter
    rw [hread]
    by_cases hn : n = line.length + 1
    · have hlen : line.length + 1 ≤ U64_MAX := hn ▸ paxNumber_le hparse
      simp only [hn, if_true, Option.bind_some, ← keyOf_path, ← keyOf_size]
      rcases hkeyOf : keyOf key
      · simp [hlen, hn, PaxDecimal.get_of, hparse, start, nextLine, empty]
      · rcases found with _ | path
        · simp [hlen, hn, PaxDecimal.get_of, hparse, start, nextLine, empty, lookupOf, nameOf]
        · simp [hlen, hn, PaxDecimal.get_of, hparse, start, nextLine, empty, lookupOf, nameOf]
      · simp [hlen, hn, PaxDecimal.get_of, hparse, start, nextLine, empty]
    · simp only [if_neg hn, Option.bind_none]
      by_cases hfirst : keyOf key = .path
      · rcases found with _ | path
        · simp [hn, PaxDecimal.get_of, hparse, start, nextLine, empty, hfirst, lookupOf, nameOf]
        · simp [hn, PaxDecimal.get_of, hparse, start, nextLine, empty, hfirst, lookupOf, nameOf]
      · simp [hn, PaxDecimal.get_of, hparse, start, nextLine, empty, hfirst, hidle]

end Line

/-! ### Every line -/

/-- Bytes scanned in their order. -/
def read (body : Bytes) (st : PaxScan × NamePrefix) : PaxScan × NamePrefix :=
  body.foldl (fun st byte => st.1.byte byte st.2) st

theorem read_append (front rest : Bytes) (st : PaxScan × NamePrefix) :
    read (front ++ rest) st = read rest (read front st) :=
  List.foldl_append

variable {found : Option Bytes} {size : SizeLookup}

theorem read_ended {st : PaxScan × NamePrefix} (h : st.1.ended = true) (body : Bytes) : read body st = st := by
  induction body with
  | nil => rfl
  | cons b body ih =>
    have hbyte : st.1.byte b st.2 = st := by rw [PaxScan.byte, if_pos h]
    exact (congrArg (read body) hbyte).trans ih

/-- The bytes of a line, read one after the other. -/
theorem read_line {line : Bytes} (hline : NEWLINE ∉ line) (hlen : line.length ≤ U64_MAX) :
    LineAt (lookupOf found) size (nameOf found) line (read line (start found size)) := by
  induction line using List.reverseRecOn with
  | nil => exact .length List.not_mem_nil
  | append_singleton line b ih =>
    simp only [List.mem_append, List.mem_singleton, not_or] at hline
    rw [List.length_append, List.length_singleton] at hlen
    rw [read_append]
    exact (ih hline.1 (by omega)).byte (Ne.symm hline.2) (lookupOf_ne found) hlen

/-- A newline ends the line before it. -/
theorem read_newline {line : Bytes} (hline : NEWLINE ∉ line) (hlen : line.length ≤ U64_MAX) (hne : line ≠ []) :
    read (line ++ [NEWLINE]) (start found size) = start (found.or (linePath line)) (sizeAfter size line) := by
  have hat : LineAt (lookupOf found) size (nameOf found) line (read line (start found size)) := read_line hline hlen
  rw [read_append, ← hat.endLine hne]
  exact (if_neg (by rw [hat.ended]; decide)).trans (if_pos rfl)

/-- Where the scan stands after a prefix of a body: behind the line that ended the records, or within a line. -/
inductive ReadTo (found : Option Bytes) (size : SizeLookup) (pieces : List Bytes) (st : PaxScan × NamePrefix) : Prop
  | ended (lines rest : List Bytes) (hpieces : pieces = lines ++ [] :: rest) (hlines : [] ∉ lines)
    (hst : st = ({ (start (found.or (firstPath lines)) (lines.foldl sizeAfter size)).1 with ended := true },
      nameOf (found.or (firstPath lines))))
  | line (lines : List Bytes) (line : Bytes) (hpieces : pieces = lines ++ [line]) (hlines : [] ∉ lines)
    (hst : LineAt (lookupOf (found.or (firstPath lines))) (lines.foldl sizeAfter size)
      (nameOf (found.or (firstPath lines))) line st)

theorem read_body {body : Bytes} (hlen : body.length ≤ U64_MAX) :
    ReadTo found size (body.splitOn NEWLINE) (read body (start found size)) := by
  induction hn : body.length using Nat.strongRecOn generalizing body found size with
  | ind n ih =>
    subst hn
    by_cases hmem : NEWLINE ∈ body
    · obtain ⟨line, rest, rfl, hline⟩ := List.eq_append_cons_of_mem hmem
      simp only [List.length_append, List.length_cons] at hlen ih
      rw [List.splitOn_append_cons_self_of_not_mem hline]
      rcases eq_or_ne line [] with rfl | hne
      · refine .ended [] (rest.splitOn NEWLINE) rfl List.not_mem_nil ?_
        exact (read_ended rfl rest).trans (by simp [start, firstPath]; rfl)
      · have hread : read (line ++ NEWLINE :: rest) (start found size) =
            read rest (start (found.or (linePath line)) (sizeAfter size line)) := by
          rw [← read_newline hline (by omega) hne, ← read_append, List.append_assoc]
          rfl
        rw [hread]
        have hpath (lines : List Bytes) :
            found.or (firstPath (line :: lines)) = (found.or (linePath line)).or (firstPath lines) := by
          rw [Option.or_assoc, firstPath, List.findSome?_cons]
          rcases linePath line <;> rfl
        have hrest := @ih rest.length (by omega) (found.or (linePath line)) (sizeAfter size line) rest (by omega) rfl
        rcases hrest with ⟨lines, after, hpieces, hlines, hst⟩ | ⟨lines, last, hpieces, hlines, hst⟩
        · refine .ended (line :: lines) after (by rw [hpieces]; rfl) (by simp [hlines, hne.symm]) ?_
          rw [hpath]
          exact hst
        · refine .line (line :: lines) last (by rw [hpieces]; rfl) (by simp [hlines, hne.symm]) ?_
          rw [hpath]
          exact hst
    · rw [List.splitOn_eq_singleton hmem]
      refine .line [] body rfl List.not_mem_nil ?_
      rw [show found.or (firstPath []) = found from Option.or_none]
      exact read_line hmem hlen

/-! ### Where the scan ends -/

/-- The size that a lookup found. -/
def sizeValue? : SizeLookup → Option Nat
  | .found size => some size
  | _ => none

/-- What is kept of the path that a scan found. -/
def foundPath (st : PaxScan × NamePrefix) : Option NamePrefix :=
  if st.1.path = .found then some st.2 else none

theorem sizeAfter_of_ne (h : size ≠ .unresolved) (lines : List Bytes) : lines.foldl sizeAfter size = size := by
  induction lines with
  | nil => rfl
  | cons line lines ih =>
    rw [List.foldl_cons, sizeAfter, if_neg h]
    exact ih

theorem sizeValue?_lines (lines : List Bytes) : sizeValue? (lines.foldl sizeAfter .unresolved) = firstSize lines := by
  induction lines with
  | nil => rfl
  | cons line lines ih =>
    rw [List.foldl_cons, firstSize, sizeAfter, if_pos rfl]
    rcases readLine line with _ | ⟨key, value⟩
    · rw [sizeAfter_of_ne (by decide)]
      rfl
    · dsimp only
      split_ifs with hkey
      · rcases paxNumber value with _ | n
        · exact congrArg sizeValue? (sizeAfter_of_ne (by decide) lines)
        · exact congrArg sizeValue? (sizeAfter_of_ne (by simp) lines)
      · exact ih

section Line
variable {path : PathLookup} {name : NamePrefix} {line : Bytes} {st : PaxScan × NamePrefix}

theorem LineAt.size_eq (h : LineAt path size name line st) : st.1.size = size := by
  rcases h <;> rfl

theorem LineAt.pathUnfinished (h : LineAt path size name line st) : st.1.pathUnfinished = false := by
  rcases h <;> rfl

/-- A path that was found stays. -/
theorem LineAt.stays (h : LineAt .found size name line st) : st.1.path = .found ∧ st.2 = name := by
  rcases h with h | h | h | h
  · exact ⟨rfl, rfl⟩
  · exact ⟨rfl, rfl⟩
  · exact ⟨rfl, rfl⟩
  · exact ⟨if_neg (by simp), if_neg (by simp)⟩

theorem LineAt.unresolved (h : LineAt .unresolved size name line st) : st.1.path ≠ .found := by
  rcases h with h | h | h | h
  · simp
  · simp
  · simp
  · dsimp only
    split_ifs <;> simp

end Line

theorem paxLines_ended {body : Bytes} {lines rest : List Bytes} (h : body.splitOn NEWLINE = lines ++ [] :: rest)
    (hlines : [] ∉ lines) : paxLines body = lines := by
  rw [paxLines, h, List.takeWhile_append_of_pos fun l hl => decide_eq_true (ne_of_mem_of_not_mem hl hlines),
    List.takeWhile_cons_of_neg (by simp), List.append_nil]

theorem paxLines_whole {body : Bytes} {lines : List Bytes} {line : Bytes} (h : body.splitOn NEWLINE = lines ++ [line])
    (hlines : [] ∉ lines) (hline : line ≠ []) : paxLines body = lines ++ [line] := by
  rw [paxLines, h, List.takeWhile_eq_self_iff]
  intro l hl
  rcases List.mem_append.mp hl with hl | hl
  · exact decide_eq_true (ne_of_mem_of_not_mem hl hlines)
  · exact decide_eq_true (by rwa [List.mem_singleton.mp hl])

variable {body : Bytes} {whole : Bool}

theorem foundPath_start (found : Option Bytes) : foundPath (start found size) = found.map .of := by
  rcases found with _ | path <;> rfl

/-- The end of a body within its last line, where no line before it gave a path. -/
theorem LineAt.finish {line : Bytes} {st : PaxScan × NamePrefix} (h : LineAt .unresolved size .empty line st) :
    st.1.finish true st.2 = if line = [] then ({ st.1 with ended := true }, st.2)
      else ({ (start (linePath line) (sizeAfter size line)).1 with ended := true }, nameOf (linePath line)) := by
  have hopen : ¬(st.1.ended = true ∨ st.1.path = .found) := by
    rw [h.ended]
    exact fun hor => hor.elim (by decide) h.unresolved
  rw [PaxScan.finish, if_neg hopen, if_pos rfl]
  rcases eq_or_ne line [] with rfl | hline
  · rw [if_neg (by rw [h.lineLen]; exact Nat.lt_irrefl 0), if_pos rfl]
  · have hlen : 0 < st.1.lineLen := by
      rw [h.lineLen]
      exact List.length_pos_iff.mpr hline
    rw [if_pos hlen, if_neg hline, @LineAt.endLine size line st none h hline, Option.none_or]
    rfl

/-- A body delivered whole gives what the archive reader finds in its lines. -/
theorem finish_whole (hlen : body.length ≤ U64_MAX) {st : PaxScan × NamePrefix}
    (hread : read body (start none .unresolved) = st) :
    foundPath (st.1.finish true st.2) = (firstPath (paxLines body)).map .of ∧
      (st.1.finish true st.2).1.pathUnfinished = false ∧
      (firstPath (paxLines body) = none ∨ [] ∈ body.splitOn NEWLINE →
        sizeValue? (st.1.finish true st.2).1.size = firstSize (paxLines body)) := by
  have hto : ReadTo none .unresolved (body.splitOn NEWLINE) st := hread ▸ read_body hlen
  rcases hto with ⟨lines, rest, hpieces, hlines, hst⟩ | ⟨lines, line, hpieces, hlines, hst⟩
  · rw [finish, if_pos (.inl (by rw [hst])), paxLines_ended hpieces hlines, hst, Option.none_or]
    exact ⟨@foundPath_start .unresolved _, rfl, fun _ => sizeValue?_lines lines⟩
  · rw [Option.none_or] at hst
    rcases hpath : firstPath lines with _ | path
    · rw [hpath] at hst
      have hend := LineAt.finish hst
      rcases eq_or_ne line [] with rfl | hline
      · rw [if_pos rfl] at hend
        rw [hend, paxLines_ended hpieces hlines, hpath]
        exact ⟨if_neg hst.unresolved, hst.pathUnfinished, fun _ => by rw [hst.size_eq, sizeValue?_lines]⟩
      · have hwhole : firstPath (lines ++ [line]) = linePath line := by
          rw [firstPath, List.findSome?_append, ← firstPath, hpath, Option.none_or]
          simp
        rw [if_neg hline] at hend
        rw [hend, paxLines_whole hpieces hlines hline, hwhole]
        refine ⟨@foundPath_start .unresolved _, rfl, fun _ => ?_⟩
        rw [← sizeValue?_lines, List.foldl_append]
        rfl
    · rw [hpath] at hst
      obtain ⟨hfound, hname⟩ := hst.stays
      rw [finish, if_pos (.inr hfound), foundPath, if_pos hfound, hname]
      rcases eq_or_ne line [] with rfl | hline
      · rw [paxLines_ended hpieces hlines, hpath]
        exact ⟨rfl, hst.pathUnfinished, fun _ => by rw [hst.size_eq, sizeValue?_lines]⟩
      · have hwhole : firstPath (lines ++ [line]) = some path := by
          rw [firstPath, List.findSome?_append, ← firstPath, hpath, Option.some_or]
        rw [paxLines_whole hpieces hlines hline, hwhole]
        refine ⟨rfl, hst.pathUnfinished, fun hor => ?_⟩
        have habsent : ¬(some path = none ∨ [] ∈ body.splitOn NEWLINE) := by
          rw [hpieces]
          simp [hlines, hline.symm]
        exact absurd hor habsent

theorem truncatedPath_append {lines : List Bytes} (hlines : [] ∉ lines) {rest : List Bytes} (hrest : rest ≠ []) :
    truncatedPath (lines ++ rest) = ((firstPath lines).map (·, false)).or (truncatedPath rest) := by
  induction lines with
  | nil => rfl
  | cons line lines ih =>
    rw [List.mem_cons, not_or] at hlines
    obtain ⟨next, more, hnext⟩ := List.exists_cons_of_ne_nil (List.append_ne_nil_of_right_ne_nil lines hrest)
    rw [List.cons_append, hnext, truncatedPath, if_neg (Ne.symm hlines.1), ← hnext, ih hlines.2,
      show firstPath (line :: lines) = _ from List.findSome?_cons]
    · rcases linePath line <;> rfl
    · simp

theorem truncatedPath_ended (rest : List Bytes) : truncatedPath ([] :: rest) = none := by
  rcases rest with _ | ⟨line, rest⟩
  · rfl
  · rw [truncatedPath, if_pos rfl]
    simp

/-- A line that stops short gives its path where its length does not contradict it. -/
theorem LineAt.finish_plausible {line : Bytes} {st : PaxScan × NamePrefix} (h : LineAt .unresolved size .empty line st) :
    foundPath (st.1.finish false st.2) = (plausiblePath line).map .of ∧
      (st.1.finish false st.2).1.pathUnfinished = (plausiblePath line).isSome := by
  have hopen : ¬(st.1.ended = true ∨ st.1.path = .found) := by
    rw [h.ended]
    exact fun hor => hor.elim (by decide) h.unresolved
  rw [PaxScan.finish, if_neg hopen, if_neg (by decide)]
  rcases h with h | @⟨declared, rest, h, hparse⟩ | @⟨declared, key, n, h, hparse, hkey⟩ |
    @⟨declared, key, value, n, h, hparse, hkey⟩
  · rw [plausiblePath, splitLine_unspaced h]
    exact ⟨rfl, rfl⟩
  · rw [plausiblePath, splitLine_malformed h hparse]
    exact ⟨rfl, rfl⟩
  · rw [plausiblePath, splitLine_unkeyed h hkey]
    exact ⟨rfl, rfl⟩
  · have hsplit := @splitLine_keyed _ _ value _ h hparse hkey
    set line := declared ++ SPACE :: (key ++ EQUALS :: value) with hline
    clear_value line
    have hle := paxNumber_le hparse
    rw [plausiblePath, hsplit]
    simp only [Option.bind_some, ← keyOf_path]
    by_cases hpath : keyOf key = .path
    · by_cases hlen : line.length + 1 ≤ n
      · have hlen' : line.length + 1 ≤ U64_MAX := hlen.trans hle
        simp only [foundPath, hpath, and_self, ↓reduceIte, BEq.rfl, hlen', decide_true, Bool.and_self,
          PaxDecimal.get_of, hparse, Option.any_some, hlen, reduceCtorEq, Option.map_some, Option.isSome_some]
      · simp only [foundPath, hpath, and_self, ↓reduceIte, BEq.rfl, Bool.true_and, PaxDecimal.get_of, hparse,
          Option.any_some, hlen, decide_false, Bool.and_false, Bool.false_eq_true, and_false, reduceCtorEq, empty,
          and_true, Option.map_none, Option.isSome_none]
    · simp [foundPath, hpath, empty]

/-- A body that stops short gives its first path, or the one its last line may give. -/
theorem finish_truncated (hlen : body.length ≤ U64_MAX) {st : PaxScan × NamePrefix}
    (hread : read body (start none .unresolved) = st) :
    foundPath (st.1.finish false st.2) = (truncatedPath (body.splitOn NEWLINE)).map (.of ·.1) ∧
      (st.1.finish false st.2).1.pathUnfinished = ((truncatedPath (body.splitOn NEWLINE)).map (·.2)).getD false := by
  have hto : ReadTo none .unresolved (body.splitOn NEWLINE) st := hread ▸ read_body hlen
  rcases hto with ⟨lines, rest, hpieces, hlines, hst⟩ | ⟨lines, line, hpieces, hlines, hst⟩
  · rw [finish, if_pos (.inl (by rw [hst])), hpieces, truncatedPath_append hlines (List.cons_ne_nil _ _),
      truncatedPath_ended, hst, Option.none_or, Option.or_none]
    rcases firstPath lines with _ | path
    · exact ⟨rfl, rfl⟩
    · exact ⟨rfl, rfl⟩
  · rw [hpieces, truncatedPath_append hlines (List.cons_ne_nil _ _)]
    rw [Option.none_or] at hst
    rcases hpath : firstPath lines with _ | path
    · rw [hpath] at hst
      rw [truncatedPath]
      obtain ⟨hfound, hunfinished⟩ := LineAt.finish_plausible hst
      rw [hfound, hunfinished]
      rcases plausiblePath line with _ | path
      · exact ⟨rfl, rfl⟩
      · exact ⟨rfl, rfl⟩
    · rw [hpath] at hst
      obtain ⟨hfound, hname⟩ := hst.stays
      rw [finish, if_pos (.inr hfound), foundPath, if_pos hfound, hname]
      exact ⟨rfl, hst.pathUnfinished⟩

end PaxScan

/-! ### The record's scan -/

namespace ExtensionScan

/-- The scan after chunks of the record's body. -/
def fed (scan : ExtensionScan) (chunks : List Bytes) : ExtensionScan :=
  chunks.foldl (fun scan chunk => (scan.feed chunk).2) scan

/-- Bytes of an attribute record go to its scan. -/
theorem foldl_scanByte {scan : ExtensionScan} (h : scan.kind = .pax) (body : Bytes) :
    body.foldl scanByte scan = { scan with
      pax := (PaxScan.read body (scan.pax, scan.name)).1, name := (PaxScan.read body (scan.pax, scan.name)).2 } := by
  induction body generalizing scan with
  | nil => rfl
  | cons b body ih =>
    have hbyte : scan.scanByte b = { scan with
        pax := (scan.pax.byte b scan.name).1, name := (scan.pax.byte b scan.name).2 } := by
      rw [scanByte, h]
    rw [List.foldl_cons, hbyte]
    exact ih h

/-- However the body is cut, what is scanned is its bytes. -/
theorem fed_pax {scan : ExtensionScan} (h : scan.kind = .pax) (chunks : List Bytes) :
    scan.fed chunks = { scan with
      remaining := scan.remaining - chunks.flatten.length
      pax := (PaxScan.read (chunks.flatten.take scan.remaining) (scan.pax, scan.name)).1
      name := (PaxScan.read (chunks.flatten.take scan.remaining) (scan.pax, scan.name)).2 } := by
  induction chunks generalizing scan with
  | nil => simp [fed, PaxScan.read]
  | cons chunk chunks ih =>
    have hfeed : (scan.feed chunk).2 = { scan with
        remaining := scan.remaining - chunk.length
        pax := (PaxScan.read (chunk.take scan.remaining) (scan.pax, scan.name)).1
        name := (PaxScan.read (chunk.take scan.remaining) (scan.pax, scan.name)).2 } := by
      have htake : chunk.take (min chunk.length scan.remaining) = chunk.take scan.remaining := by
        rw [min_comm, ← List.take_take, List.take_length]
      rw [feed, foldl_scanByte h, htake]
      simp only [ExtensionScan.mk.injEq, true_and, and_true]
      omega
    have hcons : scan.fed (chunk :: chunks) = ((scan.feed chunk).2).fed chunks := rfl
    rw [hcons, ih (by rw [hfeed]; exact h), hfeed]
    simp only [List.flatten_cons, List.length_append, List.take_append, PaxScan.read_append, Nat.sub_sub]

/-- The archive reader, for what it finds in the body of an attribute record. -/
structure ArchiveReader where
  path : Bytes → Option Bytes
  size : Bytes → Option Nat

/-- What the reader documents: it takes a body's lines up to the first empty one; its path is that of the first record
keyed so, and a malformed line ends its search for a size. -/
structure ArchiveReader.Documented (reader : ArchiveReader) : Prop where
  path_eq (body : Bytes) : reader.path body = firstPath (paxLines body)
  size_eq (body : Bytes) : reader.size body = firstSize (paxLines body)

/-- The scan of an attribute record, however its body is cut. Of a body delivered whole it finds the reader's path, of
which it keeps a prefix, and the reader's size unless a path was found before a last line without its newline; the record
is refused for exactly what the reader would take from it. Of a body that stops short it finds the first path, or the
one that the last line may still give. -/
theorem fed_reads (reader : ArchiveReader) (hreader : reader.Documented) (pathBytes : Bytes) (entrySize : Option UInt64)
    (chunks : List Bytes) :
    let scan := (ofHeader .pax pathBytes entrySize).fed chunks
    let headerName : String := .ofList (fromUtf8Lossy pathBytes)
    let headerSize := (entrySize.getD 0).toNat
    let body := chunks.flatten.take headerSize
    scan = (ofHeader .pax pathBytes entrySize).fed [chunks.flatten] ∧
      (headerSize ≤ chunks.flatten.length →
        PaxScan.foundPath (scan.pax.finish true scan.name) = (reader.path body).map .of ∧
        (reader.path body = none ∨ [] ∈ body.splitOn NEWLINE →
          PaxScan.sizeValue? (scan.pax.finish true scan.name).1.size = reader.size body) ∧
        scan.conclude = match reader.path body with
          | some path => some (.name headerName ((NamePrefix.of path).display false))
          | none => (reader.size body).map (.size headerName headerSize)) ∧
      (chunks.flatten.length < headerSize →
        PaxScan.foundPath (scan.pax.finish false scan.name) =
          (truncatedPath (body.splitOn NEWLINE)).map (.of ·.1) ∧
        ∀ path unfinished, truncatedPath (body.splitOn NEWLINE) = some (path, unfinished) →
          scan.conclude = some (.name headerName ((NamePrefix.of path).display unfinished))) := by
  intro scan headerName headerSize body
  have hlen : body.length ≤ U64_MAX := by
    have hbound := (entrySize.getD 0).toNat_lt
    have htake : body.length ≤ headerSize := List.length_take_le ..
    unfold U64_MAX
    omega
  obtain ⟨st, hread⟩ : ∃ st, PaxScan.read body (PaxScan.start none .unresolved) = st := ⟨_, rfl⟩
  have hscan : scan = { ofHeader .pax pathBytes entrySize with
      remaining := headerSize - chunks.flatten.length, pax := st.1, name := st.2 } := by
    rw [← hread]
    exact fed_pax rfl chunks
  have hpax : scan.pax = st.1 := by rw [hscan]
  have hname : scan.name = st.2 := by rw [hscan]
  have hconclude (whole : Bool) (hwhole : (headerSize - chunks.flatten.length == 0) = whole) : scan.conclude =
      match PaxScan.foundPath (st.1.finish whole st.2) with
      | some name => some (.name headerName (name.display (st.1.finish whole st.2).1.pathUnfinished))
      | none => (PaxScan.sizeValue? (st.1.finish whole st.2).1.size).map (.size headerName headerSize) := by
    subst hwhole
    rw [conclude, hscan]
    simp only [ofHeader, PaxScan.foundPath]
    split_ifs with hfound
    · rfl
    · rcases (st.1.finish (headerSize - chunks.flatten.length == 0) st.2).1.size <;> rfl
  obtain ⟨hpath, hunfinished, hsize⟩ := PaxScan.finish_whole hlen hread
  obtain ⟨hshort, hshortUnfinished⟩ := PaxScan.finish_truncated hlen hread
  rw [hpax, hname, hreader.path_eq, hreader.size_eq]
  refine ⟨?_, fun hwhole => ⟨hpath, hsize, ?_⟩, fun htruncated => ⟨hshort, fun path unfinished hfound => ?_⟩⟩
  · rw [show scan = _ from fed_pax rfl chunks, fed_pax rfl [chunks.flatten], List.flatten_singleton]
  · rw [hconclude true (beq_iff_eq.mpr (Nat.sub_eq_zero_of_le hwhole)), hpath, hunfinished]
    rcases hfirst : firstPath (paxLines body) with _ | path
    · rw [← hsize (.inl hfirst)]
      rfl
    · rfl
  · rw [hconclude false (beq_eq_false_iff_ne.mpr (Nat.sub_ne_zero_of_lt htruncated)), hshort, hshortUnfinished, hfound]
    rfl

/-- A path line in two chunks. -/
theorem fed_reads_twoChunks :
    let scan := (ofHeader .pax (asBytes "member") (some 14)).fed [asBytes "14 pat", asBytes "h=bin/a\n"]
    PaxScan.foundPath (scan.pax.finish true scan.name) = some (.of (asBytes "bin/a")) :=
  ((fed_reads ⟨fun body => firstPath (paxLines body), fun body => firstSize (paxLines body)⟩
    ⟨fun _ => rfl, fun _ => rfl⟩ (asBytes "member") (some 14) [asBytes "14 pat", asBytes "h=bin/a\n"]).2.1
      (by decide +kernel)).1.trans (by decide +kernel)

/-- Behind a path that was found, a size on a last line without a newline is not looked for. -/
theorem finish_whole_sizeUnread :
    let body := asBytes "14 path=bin/a\n9 size=4"
    let st := PaxScan.read body (PaxScan.start none .unresolved)
    firstSize (paxLines body) = some 4 ∧ PaxScan.sizeValue? (st.1.finish true st.2).1.size = none := by
  decide +kernel

end ExtensionScan

end DeployCore
