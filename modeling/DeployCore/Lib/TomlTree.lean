import Mathlib

/-! # TOML tables as trees

A table is its entries in iteration order. `events` lists the keys and the strings of a tree in the order in which a
traversal meets them, a key before what it holds; `mapStrings` changes the strings and nothing else. -/

namespace TomlTree

inductive Value
  | string (text : String)
  | integer (n : Int)
  | float (bits : UInt64)
  | boolean (b : Bool)
  | datetime (text : String)
  | array (elements : List Value)
  | table (entries : List (String × Value))

abbrev Table := List (String × Value)

/-- What a traversal meets: a key, or a string. -/
inductive Event
  | key (key : String)
  | string (text : String)
  deriving DecidableEq

mutual

def Value.events : Value → List Event
  | .string text => [.string text]
  | .table entries => entryEvents entries
  | .array elements => elementEvents elements
  | .integer _ | .float _ | .boolean _ | .datetime _ => []

def entryEvents : List (String × Value) → List Event
  | [] => []
  | (key, value) :: entries => .key key :: (value.events ++ entryEvents entries)

def elementEvents : List Value → List Event
  | [] => []
  | value :: elements => value.events ++ elementEvents elements

end

mutual

def Value.mapStrings (f : String → String) : Value → Value
  | .string text => .string (f text)
  | .table entries => .table (mapEntries f entries)
  | .array elements => .array (mapElements f elements)
  | .integer n => .integer n
  | .float bits => .float bits
  | .boolean b => .boolean b
  | .datetime text => .datetime text

def mapEntries (f : String → String) : List (String × Value) → List (String × Value)
  | [] => []
  | (key, value) :: entries => (key, value.mapStrings f) :: mapEntries f entries

def mapElements (f : String → String) : List Value → List Value
  | [] => []
  | value :: elements => value.mapStrings f :: mapElements f elements

end

end TomlTree
