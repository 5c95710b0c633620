import Mathlib

/-! # JSON documents and their values

`Text` is a JSON document as its text reads: members in order, keys that may repeat, and content that a
reader can step over but not decode (a number out of range, a string that is no Unicode text). `Value` is what
a generic decode keeps of it: objects are maps, in which the last of several members with one key wins, and
everything in the document must be decodable and nested no deeper than the reader allows. `lookup_fromMembers`
is the fact about such maps that a typed reader of a `Value` needs. -/

namespace Json

/-- A number, as the parser classifies it. -/
inductive Number
  | posInt (n : UInt64)
  | negInt (n : Int)
  | float (bits : UInt64)
  deriving DecidableEq

/-- A document as its text reads. -/
inductive Text
  | null
  | bool (b : Bool)
  | num (n : Number)
  | str (s : String)
  | unreadable
  | arr (items : List Text)
  | obj (members : List (Option String × Text))

/-- A generically decoded document. -/
inductive Value
  | null
  | bool (b : Bool)
  | num (n : Number)
  | str (s : String)
  | arr (items : List Value)
  | obj (members : List (String × Value))

/-- The members of a decoded object, in key order. -/
abbrev Members := List (String × Value)

/-- Sets the member `key`, keeping the key order. -/
def insertMember (key : String) (value : Value) : Members → Members
  | [] => [(key, value)]
  | (key', value') :: members =>
    if key = key' then (key, value) :: members
    else if key < key' then (key, value) :: (key', value') :: members
    else (key', value') :: insertMember key value members

/-- The map of a run of members: the last of several with one key wins. -/
def fromMembers (members : Members) : Members :=
  members.foldl (fun map member => insertMember member.1 member.2 map) []

mutual

/-- The generic decode, with `depth` levels of nesting left. -/
def Text.toValue : Text → Nat → Option Value
  | .null, _ => some .null
  | .bool b, _ => some (.bool b)
  | .num n, _ => some (.num n)
  | .str s, _ => some (.str s)
  | .unreadable, _ => none
  | .arr items, depth =>
    if depth ≤ 1 then none else (toValues items (depth - 1)).map .arr
  | .obj members, depth =>
    if depth ≤ 1 then none else (toMembers members (depth - 1)).map fun members => .obj (fromMembers members)

def toValues : List Text → Nat → Option (List Value)
  | [], _ => some []
  | item :: items, depth => do
    let value ← item.toValue depth
    let values ← toValues items depth
    some (value :: values)

def toMembers : List (Option String × Text) → Nat → Option Members
  | [], _ => some []
  | (key, item) :: members, depth => do
    let key ← key
    let value ← item.toValue depth
    let values ← toMembers members depth
    some ((key, value) :: values)

end

/-- Nesting a parser follows before it gives up. -/
def recursionLimit : Nat := 128

/-- The member `key` of an object. -/
def Value.get (key : String) : Value → Option Value
  | .obj members => members.lookup key
  | _ => none

def Value.asU64 : Value → Option UInt64
  | .num (.posInt n) => some n
  | _ => none

def Value.asStr : Value → Option String
  | .str s => some s
  | _ => none

def Value.asBool : Value → Option Bool
  | .bool b => some b
  | _ => none

def Value.isObject : Value → Bool
  | .obj _ => true
  | _ => false

def Value.asArray : Value → Option (List Value)
  | .arr items => some items
  | _ => none

/-! ### Maps of members -/

variable {key key' : String} {value : Value} {map members : Members}

theorem lookup_insertMember :
    (insertMember key value map).lookup key' = if key' = key then some value else map.lookup key' := by
  induction map with
  | nil =>
    by_cases h : key' = key
    · simp [insertMember, h]
    · simp [insertMember, List.lookup, h, beq_eq_false_iff_ne.mpr]
  | cons member map ih =>
    obtain ⟨k, v⟩ := member
    unfold insertMember
    split
    · next heq =>
      subst heq
      by_cases h : key' = key <;> simp [List.lookup, h, beq_eq_false_iff_ne.mpr]
    · next hne =>
      split
      · by_cases h : key' = key <;> simp [List.lookup, h, beq_eq_false_iff_ne.mpr]
      · by_cases h : key' = k
        · subst h
          rw [if_neg (fun h => hne h.symm)]
          simp [List.lookup]
        · simp only [List.lookup, beq_eq_false_iff_ne.mpr h, ih]

theorem mem_keys_insertMember :
    key' ∈ (insertMember key value map).map Prod.fst ↔ key' = key ∨ key' ∈ map.map Prod.fst := by
  induction map with
  | nil => simp [insertMember]
  | cons member map ih =>
    obtain ⟨k, v⟩ := member
    unfold insertMember
    split
    · next heq => simp [heq]
    · split
      · simp
      · rw [List.map_cons, List.mem_cons, ih, List.map_cons, List.mem_cons]
        exact or_left_comm

theorem lookup_foldl_insertMember :
    (members.foldl (fun map member => insertMember member.1 member.2 map) map).lookup key =
      ((members.filter (·.1 == key)).getLast?.map Prod.snd).or (map.lookup key) := by
  induction members generalizing map with
  | nil => rfl
  | cons member members ih =>
    obtain ⟨k, v⟩ := member
    rw [List.foldl_cons, ih, lookup_insertMember]
    by_cases h : key = k
    · subst h
      cases hlast : (members.filter (·.1 == key)).getLast? with
      | none => simp [List.getLast?_cons, hlast]
      | some last => simp [List.getLast?_cons, hlast]
    · have hbeq : (k == key) = false := beq_eq_false_iff_ne.mpr (Ne.symm h)
      rw [if_neg h, List.filter_cons_of_neg (by simp [hbeq])]

/-- A map holds the last member of each key. -/
theorem lookup_fromMembers :
    (fromMembers members).lookup key = (members.filter (·.1 == key)).getLast?.map Prod.snd := by
  rw [fromMembers, lookup_foldl_insertMember]
  simp

theorem mem_keys_fromMembers : key ∈ (fromMembers members).map Prod.fst ↔ key ∈ members.map Prod.fst := by
  suffices h : ∀ map : Members, key ∈ (members.foldl (fun map member => insertMember member.1 member.2 map) map).map
      Prod.fst ↔ key ∈ members.map Prod.fst ∨ key ∈ map.map Prod.fst by
    simpa [fromMembers] using h []
  intro map
  induction members generalizing map with
  | nil => simp
  | cons member members ih =>
    rw [List.foldl_cons, ih, mem_keys_insertMember, List.map_cons, List.mem_cons]
    tauto

/-- What a document that decodes consists of. -/
theorem toValues_eq_some {items : List Text} {depth : Nat} {values : List Value} (h : toValues items depth = some values) :
    List.Forall₂ (fun item value => item.toValue depth = some value) items values := by
  induction items generalizing values with
  | nil =>
    cases h
    exact .nil
  | cons item items ih =>
    simp only [toValues, Option.bind_eq_bind, Option.bind_eq_some_iff, Option.some.injEq] at h
    obtain ⟨value, hvalue, values, hvalues, rfl⟩ := h
    exact .cons hvalue (ih hvalues)

theorem toMembers_eq_some {members : List (Option String × Text)} {depth : Nat} {values : Members}
    (h : toMembers members depth = some values) :
    List.Forall₂ (fun member value => member.1 = some value.1 ∧ member.2.toValue depth = some value.2) members
      values := by
  induction members generalizing values with
  | nil =>
    cases h
    exact .nil
  | cons member members ih =>
    simp only [toMembers, Option.bind_eq_bind, Option.bind_eq_some_iff, Option.some.injEq] at h
    obtain ⟨key, hkey, value, hvalue, values, hvalues, rfl⟩ := h
    exact .cons ⟨hkey, hvalue⟩ (ih hvalues)

end Json
