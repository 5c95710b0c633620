import DeployCore.ContentLimits
import DeployCore.Counting
import DeployCore.Lib.Checks
import DeployCore.Lib.SortedMap
import DeployCore.TarHeader

/-! # Entry policies

What a tar walker admits: the rules of an image archive, whose names must not collide, and those of a layer, whose
entries take the extension records read before them. -/

namespace DeployCore

instance uint8LinearOrder : LinearOrder UInt8 where
  le_refl := UInt8.le_refl
  le_trans _ _ _ := UInt8.le_trans
  le_antisymm _ _ := UInt8.le_antisymm
  le_total := UInt8.le_total
  lt_iff_le_not_ge _ _ := by
    rw [UInt8.not_le]
    exact ⟨fun h => ⟨UInt8.le_of_lt h, h⟩, fun h => h.2⟩
  toDecidableLE := inferInstance

def BACKSLASH : UInt8 := 92
def NEWLINE : UInt8 := 10
def EQUALS : UInt8 := 61
def MINUS : UInt8 := 45
def DEL : UInt8 := 127

def isDigit (byte : UInt8) : Bool :=
  48 ≤ byte && byte ≤ 57

/-- What a policy admitted of a real entry. -/
structure Admitted where
  name : Bytes
  linkTarget : Option Bytes
  size : Nat
  deriving DecidableEq

/-- `strip_suffix` of one byte. -/
def stripSuffix (byte : UInt8) (name : Bytes) : Option Bytes :=
  if name.getLast? = some byte then some name.dropLast else none

/-- A name without one trailing slash, which only a directory's may have. -/
def stripSlash (name : Bytes) (directory : Bool) : Option Bytes :=
  match stripSuffix SLASH name with
  | some stripped => if directory then some stripped else none
  | none => some name

def segmentsArePlain (path : Bytes) : Bool :=
  (path.splitOn SLASH).all fun segment => segment ≠ [] && segment ≠ [DOT] && segment ≠ [DOT, DOT]

/-! ### Image archives -/

def imageCanonical (name : Bytes) (directory : Bool) : Option Bytes :=
  if name.any fun byte => 128 ≤ byte || byte < 32 || byte = DEL || byte = BACKSLASH then none
  else
    match stripSlash name directory with
    | none => none
    | some name => if name.isEmpty || !segmentsArePlain name then none else some name

structure ImageRules where
  entries : Budget
  path : ResourceLimit
  seen : SortedMap Bytes EntryKind

/-- The offsets of the slashes in a name. -/
def slashOffsets (name : Bytes) : List Nat :=
  name.zipIdx.filterMap fun (byte, offset) => if byte = SLASH then some offset else none

namespace ImageRules

def record (rules : ImageRules) (canonical : Bytes) (kind : EntryKind) : Except ContentFault ImageRules :=
  match rules.seen.get canonical with
  | some existing => .error (.malformed (if existing = kind then .duplicatePath else .pathConflict))
  | none =>
    let beneath := canonical ++ [SLASH]
    if (slashOffsets canonical).any fun offset => rules.seen.get (canonical.take offset) = some .regular then
      .error (.malformed .pathConflict)
    else if kind = .regular ∧ ((rules.seen.firstFrom beneath).any fun entry => beneath.isPrefixOf entry.1) then
      .error (.malformed .pathConflict)
    else .ok { rules with seen := rules.seen.insert canonical kind }

def admitHeader (rules : ImageRules) (kind : EntryKind) (header : HeaderFields) :
    Except ContentFault (Admitted × ImageRules) :=
  if rules.path.max < header.name.length then .error rules.path.exceeded
  else
    match imageCanonical header.name (kind = .directory) with
    | none => .error (.malformed .unsafePath)
    | some canonical =>
      if kind = .directory ∧ header.size ≠ 0 then .error (.malformed .nonRegularWithData)
      else
        (rules.record canonical kind).map fun rules =>
          ({ name := header.name, linkTarget := none, size := header.size }, rules)

variable {rules rules' : ImageRules} {canonical : Bytes} {kind : EntryKind} {header : HeaderFields}

theorem record_ok (h : rules.record canonical kind = .ok rules') :
    rules' = { rules with seen := rules.seen.insert canonical kind } := by
  unfold record at h
  split at h
  · cases h
  dsimp only at h
  split_ifs at h
  exact (Except.ok.inj h).symm

theorem admitHeader_ok {admitted : Admitted} (h : rules.admitHeader kind header = .ok (admitted, rules')) :
    ∃ canonical, imageCanonical header.name (kind = .directory) = some canonical ∧
      rules.record canonical kind = .ok rules' ∧
      admitted = { name := header.name, linkTarget := none, size := header.size } := by
  unfold admitHeader at h
  split at h
  · cases h
  split at h
  · cases h
  next canonical hcanonical =>
  split at h
  · cases h
  obtain ⟨recorded, hrecord, heq⟩ := Checks.map_ok h
  obtain ⟨rfl, rfl⟩ := Prod.mk.inj heq
  exact ⟨canonical, hcanonical, hrecord, rfl⟩

end ImageRules

/-! ### Extension records -/

/-- The values one PAX record set supplies to the next entry. -/
structure Pax where
  path : Option Bytes
  linkpath : Option Bytes
  size : Option Nat
  deriving DecidableEq

def Pax.default : Pax :=
  ⟨none, none, none⟩

/-- `[0-9]+` as a `u64`. -/
def parseDecimal (digits : Bytes) : Option Nat :=
  if digits.isEmpty || !digits.all isDigit then none
  else accumulate 10 0 (digits.map fun digit => (digit - ZERO).toNat)

/-- `-?[0-9]+(\.[0-9]+)?`. -/
def isPaxTime (value : Bytes) : Bool :=
  let unsigned := if value.head? = some MINUS then value.tail else value
  let allDigits (part : Bytes) : Bool := !part.isEmpty && part.all isDigit
  let whole := unsigned.takeWhile (· != DOT)
  match unsigned.dropWhile (· != DOT) with
  | [] => allDigits whole
  | _ :: fraction => allDigits whole && allDigits fraction

def PAX_XATTR_PREFIX : Bytes := asBytes "SCHILY.xattr."

def paxKey (key : Bytes) : Option PaxKey :=
  if key = asBytes "path" then some .path
  else if key = asBytes "linkpath" then some .linkpath
  else if key = asBytes "size" then some .size
  else if key = asBytes "uid" then some .uid
  else if key = asBytes "gid" then some .gid
  else if key = asBytes "uname" then some .uname
  else if key = asBytes "gname" then some .gname
  else if key = asBytes "mtime" then some .mtime
  else if key = asBytes "atime" then some .atime
  else if key = asBytes "ctime" then some .ctime
  else if PAX_XATTR_PREFIX.isPrefixOf key then some .xattr
  else none

/-- `key=value` between a space and a newline. -/
def splitPaxBody (body : Bytes) : Option (Bytes × Bytes) := do
  let body ← if body.head? = some SPACE then some body.tail else none
  let body ← stripSuffix NEWLINE body
  match body.dropWhile (· != EQUALS) with
  | [] => none
  | _ :: value => if body.head? = some EQUALS then none else some (body.takeWhile (· != EQUALS), value)

/-- Splits one `<length> <key>=<value>\n` record off: its key, its value and the rest. -/
def splitPaxRecord (payload : Bytes) : Option (Bytes × Bytes × Bytes) := do
  let digits := payload.takeWhile isDigit
  if digits.head? = some ZERO then none
  else
    let length ← parseDecimal digits
    if payload.length < length ∨ length < digits.length then none
    else
      let (key, value) ← splitPaxBody ((payload.take length).drop digits.length)
      some (key, value, payload.drop length)

/-- Applies one record; a long name or link that is pending is an authority a path or link path conflicts with. -/
def Pax.apply (pax : Pax) (longNamePending longLinkPending : Bool) (key : PaxKey) (value : Bytes) :
    Except ContentFault Pax :=
  match key with
  | .path =>
    if NUL ∈ value then .error (.malformed (.paxValue .path))
    else if longNamePending then .error (.malformed .conflictingAuthority)
    else .ok { pax with path := some value }
  | .linkpath =>
    if NUL ∈ value then .error (.malformed (.paxValue .linkpath))
    else if longLinkPending then .error (.malformed .conflictingAuthority)
    else .ok { pax with linkpath := some value }
  | .size =>
    match parseDecimal value with
    | some number => .ok { pax with size := some number }
    | none => .error (.malformed (.paxValue .size))
  | .uid | .gid => if (parseDecimal value).isSome then .ok pax else .error (.malformed (.paxValue key))
  | .mtime | .atime | .ctime => if isPaxTime value then .ok pax else .error (.malformed (.paxValue key))
  | .uname | .gname | .xattr => .ok pax

/-- The records of `rest`, after those whose keys are `keys`. Each one is at least a byte long. -/
def parsePaxFrom (longNamePending longLinkPending : Bool) :
    Nat → (rest : Bytes) → (keys : List Bytes) → Pax → Except ContentFault Pax
  | _, [], _, pax => .ok pax
  | 0, _ :: _, _, _ => .error (.malformed .paxRecord)
  | fuel + 1, byte :: rest, keys, pax =>
    match splitPaxRecord (byte :: rest) with
    | none => .error (.malformed .paxRecord)
    | some (key, value, tail) =>
      if key ∈ keys then .error (.malformed .paxDuplicateKey)
      else
        match paxKey key with
        | none => .error (.unsupported .paxKey)
        | some which =>
          match pax.apply longNamePending longLinkPending which value with
          | .error fault => .error fault
          | .ok pax => parsePaxFrom longNamePending longLinkPending fuel tail (key :: keys) pax

theorem parsePaxFrom_nil {longName longLink : Bool} {fuel : Nat} {keys : List Bytes} {pax : Pax} :
    parsePaxFrom longName longLink fuel [] keys pax = .ok pax := by
  cases fuel <;> rfl

theorem parsePaxFrom_cons {longName longLink : Bool} {fuel : Nat} {byte : UInt8} {rest : Bytes} {keys : List Bytes}
    {pax : Pax} : parsePaxFrom longName longLink (fuel + 1) (byte :: rest) keys pax =
      match splitPaxRecord (byte :: rest) with
      | none => .error (.malformed .paxRecord)
      | some (key, value, tail) =>
        if key ∈ keys then .error (.malformed .paxDuplicateKey)
        else
          match paxKey key with
          | none => .error (.unsupported .paxKey)
          | some which =>
            match pax.apply longName longLink which value with
            | .error fault => .error fault
            | .ok pax => parsePaxFrom longName longLink fuel tail (key :: keys) pax :=
  rfl

def parsePax (payload : Bytes) (longNamePending longLinkPending : Bool) : Except ContentFault Pax :=
  parsePaxFrom longNamePending longLinkPending payload.length payload [] .default

/-- A payload without its trailing NULs, which has none inside. -/
def gnuPayload (payload : Bytes) : Except ContentFault Bytes :=
  let value := payload.rdropWhile (· == NUL)
  if NUL ∈ value then .error (.malformed .extensionPayload) else .ok value

/-- Extension records read since the last real entry. -/
structure Pending where
  pax : Option Pax
  longName : Option Bytes
  longLink : Option Bytes
  deriving DecidableEq

namespace Pending

def empty : Pending :=
  ⟨none, none, none⟩

def any (pending : Pending) : Bool :=
  pending.pax.isSome || pending.longName.isSome || pending.longLink.isSome

def present (pending : Pending) : Extension → Bool
  | .pax => pending.pax.isSome
  | .longName => pending.longName.isSome
  | .longLink => pending.longLink.isSome

def refuseDuplicate (pending : Pending) (extension : Extension) : Except ContentFault Unit :=
  if pending.present extension then .error (.malformed .duplicateExtension) else .ok ()

/-- Parses a payload and records it, unless it conflicts with a record already pending. -/
def record (pending : Pending) (extension : Extension) (payload : Bytes) : Except ContentFault Pending :=
  match extension with
  | .pax =>
    (parsePax payload pending.longName.isSome pending.longLink.isSome).map fun pax => { pending with pax := some pax }
  | .longName => do
    let name ← gnuPayload payload
    if pending.pax.any fun pax => pax.path.isSome then .error (.malformed .conflictingAuthority)
    else .ok { pending with longName := some name }
  | .longLink => do
    let link ← gnuPayload payload
    if pending.pax.any fun pax => pax.linkpath.isSome then .error (.malformed .conflictingAuthority)
    else .ok { pending with longLink := some link }

end Pending

/-! ### Layers -/

def layerNameOk (name : Bytes) (directory : Bool) : Bool :=
  if name.any fun byte => byte < 32 || byte = DEL then false
  else
    match stripSlash name directory with
    | none => false
    | some name =>
      if name = [DOT] then directory
      else
        let name := if [DOT, SLASH].isPrefixOf name then name.drop 2 else name
        !name.isEmpty && segmentsArePlain name

structure LayerRules where
  entries : Budget
  extensionTotal : Budget
  extension : ResourceLimit
  path : ResourceLimit
  link : ResourceLimit
  pending : Pending

/-- The target of a link; nothing else may have an explicit one. -/
def linkTarget (kind : EntryKind) (explicit : Option Bytes) (linkname : Bytes) :
    Except ContentFault (Option Bytes) :=
  if kind = .hardlink ∨ kind = .symlink then .ok (some (explicit.getD linkname))
  else if explicit.isSome then .error (.malformed .linkOnNonLink)
  else .ok none

/-- What a layer admits of an entry with these records before it. -/
def LayerRules.resolve (rules : LayerRules) (pending : Pending) (kind : EntryKind) (header : HeaderFields) :
    Except ContentFault Admitted := do
  let pax := pending.pax.getD .default
  let name := (pax.path.or pending.longName).getD header.name
  let size := pax.size.getD header.size
  let target ← linkTarget kind (pax.linkpath.or pending.longLink) header.linkname
  if rules.path.max < name.length then .error rules.path.exceeded
  else if target.any fun target => rules.link.max < target.length then .error rules.link.exceeded
  else if ¬layerNameOk name (kind = .directory) then .error (.malformed .unsafePath)
  else if kind = .hardlink ∧ ¬target.any (layerNameOk · false) then .error (.malformed .unsafePath)
  else if kind ≠ .regular ∧ size ≠ 0 then .error (.malformed .nonRegularWithData)
  else .ok { name, linkTarget := target, size }

/-- The records are taken by the entry, admitted or not. -/
def LayerRules.admitHeader (rules : LayerRules) (kind : EntryKind) (header : HeaderFields) :
    Except ContentFault Admitted × LayerRules :=
  (rules.resolve rules.pending kind header, { rules with pending := .empty })

/-! ### Either policy -/

inductive Rules
  | image (rules : ImageRules)
  | layer (rules : LayerRules)

namespace Rules

def hasPending : Rules → Bool
  | image _ => false
  | layer rules => rules.pending.any

def countHeader : EStateM ContentFault Rules Unit
  | image rules =>
    match rules.entries.charge 1 with
    | .ok entries => .ok () (image { rules with entries })
    | .error fault => .error fault (image rules)
  | layer rules =>
    match rules.entries.charge 1 with
    | .ok entries => .ok () (layer { rules with entries })
    | .error fault => .error fault (layer rules)

def isImage : Rules → Bool
  | image _ => true
  | layer _ => false

def classify (rules : Rules) (flag : UInt8) : Option Typeflag :=
  if flag = 48 ∨ flag = 0 then some (.entry .regular)
  else if flag = 53 then some (.entry .directory)
  else if rules.isImage then none
  else if flag = 49 then some (.entry .hardlink)
  else if flag = 50 then some (.entry .symlink)
  else if flag = 51 then some (.entry .charDevice)
  else if flag = 52 then some (.entry .blockDevice)
  else if flag = 54 then some (.entry .fifo)
  else if flag = 120 then some (.extension .pax)
  else if flag = 76 then some (.extension .longName)
  else if flag = 75 then some (.extension .longLink)
  else none

def admitHeader (kind : EntryKind) (header : HeaderFields) : EStateM ContentFault Rules Admitted
  | image rules =>
    match rules.admitHeader kind header with
    | .ok (admitted, rules) => .ok admitted (image rules)
    | .error fault => .error fault (image rules)
  | layer rules =>
    match rules.admitHeader kind header with
    | (.ok admitted, rules) => .ok admitted (layer rules)
    | (.error fault, rules) => .error fault (layer rules)

/-- Headers that the entry budget still has room for. -/
def headersLeft : Rules → Nat
  | image rules => rules.entries.remaining
  | layer rules => rules.entries.remaining

end Rules

end DeployCore
