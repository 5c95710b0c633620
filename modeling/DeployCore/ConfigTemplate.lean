import DeployCore.Lib.TomlTree

/-! # Configuration templates (`src/config_template.rs`)

`render` parses a template, substitutes host values for the strings that are exactly a token, and serializes the result.
TOML itself is third-party code (`Toml`). -/

namespace DeployCore
namespace ConfigTemplate
open TomlTree

inductive TemplateToken
  | certPath
  | keyPath
  | caBundlePath
  | managerAddress
  | managerServerName
  deriving DecidableEq

namespace TemplateToken

def ALL : List TemplateToken := [certPath, keyPath, caBundlePath, managerAddress, managerServerName]

def asStr : TemplateToken → String
  | certPath => "${cert_path}"
  | keyPath => "${key_path}"
  | caBundlePath => "${ca_bundle_path}"
  | managerAddress => "${manager_address}"
  | managerServerName => "${manager_server_name}"

/-- The token that a text exactly is. -/
def ofText (text : String) : Option TemplateToken := ALL.find? fun token => text == token.asStr

end TemplateToken

/-- The caller's host values. -/
structure HostValues where
  certPath : Option String
  keyPath : Option String
  caBundlePath : Option String
  managerAddress : Option String
  managerServerName : Option String

def HostValues.get (values : HostValues) : TemplateToken → Option String
  | .certPath => values.certPath
  | .keyPath => values.keyPath
  | .caBundlePath => values.caBundlePath
  | .managerAddress => values.managerAddress
  | .managerServerName => values.managerServerName

/-- The TOML parser and serializer. -/
structure Toml where
  DeError : Type
  SerError : Type
  parse : String → Except DeError Table
  toString : Table → Except SerError String

inductive ConfigTemplateError (toml : Toml)
  | invalidToml (source : toml.DeError)
  | placeholderInKey (key : String)
  | unknownPlaceholder (value : String)
  | unresolvedToken (token : TemplateToken)
  | serialize (source : toml.SerError)

/-- `contains("${")`. -/
def hasPlaceholder (text : String) : Bool := decide (['$', '{'] <:+: text.toList)

section Render
variable (toml : Toml) (values : HostValues)

/-- A string: a token's host value, or the string itself. -/
def substituteString (text : String) : Except (ConfigTemplateError toml) String :=
  match TemplateToken.ofText text with
  | some token => (values.get token).elim (.error (.unresolvedToken token)) .ok
  | none => if hasPlaceholder text then .error (.unknownPlaceholder text) else .ok text

mutual

def substituteValue : Value → Except (ConfigTemplateError toml) Value
  | .string text => (substituteString toml values text).map .string
  | .table entries => (substituteTable entries).map .table
  | .array elements => (substituteElements elements).map .array
  | .integer n => .ok (.integer n)
  | .float bits => .ok (.float bits)
  | .boolean b => .ok (.boolean b)
  | .datetime text => .ok (.datetime text)

def substituteTable : List (String × Value) → Except (ConfigTemplateError toml) Table
  | [] => .ok []
  | (key, value) :: entries =>
    if hasPlaceholder key then .error (.placeholderInKey key)
    else do
      let value ← substituteValue value
      let entries ← substituteTable entries
      .ok ((key, value) :: entries)

def substituteElements : List Value → Except (ConfigTemplateError toml) (List Value)
  | [] => .ok []
  | value :: elements => do
    let value ← substituteValue value
    let elements ← substituteElements elements
    .ok (value :: elements)

end

def render (body : String) : Except (ConfigTemplateError toml) String := do
  let table ← (toml.parse body).mapError .invalidToml
  let table ← substituteTable toml values table
  (toml.toString table).mapError .serialize

end Render

/-! ### What is meant -/

/-- The tables that are serialized to a text which parses to them. -/
def Toml.RoundTrips (toml : Toml) (table : Table) : Prop :=
  ∃ text, toml.toString table = .ok text ∧ toml.parse text = .ok table

namespace HostValues

/-- A string that is exactly a token with a host value, replaced by that value; any other string as it is. -/
def replace (values : HostValues) (text : String) : String :=
  ((TemplateToken.ofText text).bind values.get).getD text

/-- What is wrong with a key or a string. -/
def violation (toml : Toml) (values : HostValues) : Event → Option (ConfigTemplateError toml)
  | .key key => if hasPlaceholder key then some (.placeholderInKey key) else none
  | .string text =>
    match TemplateToken.ofText text with
    | some token => if (values.get token).isSome then none else some (.unresolvedToken token)
    | none => if hasPlaceholder text then some (.unknownPlaceholder text) else none

/-- Host values for the same tokens. -/
def SameTokens (values values' : HostValues) : Prop := ∀ token, (values.get token).isSome = (values'.get token).isSome

end HostValues

/-- No key contains placeholder syntax, and every string is without it or is a token with a host value. -/
structure Clean (values : HostValues) (table : Table) : Prop where
  keys : ∀ key, .key key ∈ entryEvents table → hasPlaceholder key = false
  strings : ∀ text, .string text ∈ entryEvents table → hasPlaceholder text = false ∨
    ∃ token : TemplateToken, text = token.asStr ∧ (values.get token).isSome

/-- How rendering a template that parses to `table` comes out. -/
structure Renders (toml : Toml) (body : String) (table : Table) (values : HostValues) : Prop where
  succeeds : (∃ text, render toml values body = .ok text) ↔ Clean values table
  output : ∀ text, render toml values body = .ok text → toml.parse text = .ok (mapEntries values.replace table)
  /-- An error is that of the first violation in iteration order. -/
  fails : ∀ e, render toml values body = .error e ↔ (entryEvents table).findSome? (values.violation toml) = some e
  /-- No host value has a part in it. -/
  hides : ∀ values', values.SameTokens values' → ∀ e,
    render toml values body = .error e → render toml values' body = .error e

/-! ### Tokens -/

theorem TemplateToken.ofText_iff {text : String} {token : TemplateToken} :
    TemplateToken.ofText text = some token ↔ text = token.asStr := by
  constructor
  · intro h
    have hfind : (ALL.find? fun token : TemplateToken => text == token.asStr) = some token := h
    simpa using List.find?_some hfind
  · rintro rfl
    cases token <;> decide

theorem hasPlaceholder_token (token : TemplateToken) : hasPlaceholder token.asStr = true := by
  cases token <;> decide

/-! ### Traversing -/

section Traversal
variable {toml : Toml} {values : HostValues}

/-- The first thing that is wrong, or else a result. -/
def outcome {α : Type} (wrong : Option (ConfigTemplateError toml)) (result : α) : Except (ConfigTemplateError toml) α :=
  wrong.elim (.ok result) .error

theorem outcome_map {α β : Type} {wrong : Option (ConfigTemplateError toml)} {result : α} {f : α → β} :
    (outcome wrong result).map f = outcome wrong (f result) := by
  cases wrong <;> rfl

/-- What is wrong with the first of two is met before what is wrong with the second. -/
theorem outcome_both {α β γ : Type} {wrong wrong' : Option (ConfigTemplateError toml)} {a : α} {b : β} {f : α → β → γ} :
    (do let a ← outcome wrong a
        let b ← outcome wrong' b
        .ok (f a b)) = outcome (wrong.or wrong') (f a b) := by
  rcases wrong with _ | e
  · rcases wrong' with _ | e <;> rfl
  · rfl

theorem substituteString_eq (text : String) : substituteString toml values text =
    outcome (values.violation toml (.string text)) (values.replace text) := by
  simp only [substituteString, HostValues.violation, HostValues.replace]
  rcases TemplateToken.ofText text with _ | token
  · by_cases htext : hasPlaceholder text <;> simp [outcome, htext]
  · rcases hvalue : values.get token with _ | value <;> simp [outcome, hvalue]

mutual

theorem substituteValue_eq : ∀ value : Value, substituteValue toml values value =
    outcome (value.events.findSome? (values.violation toml)) (value.mapStrings values.replace)
  | .string text => by
    rw [substituteValue, substituteString_eq, outcome_map, Value.events, Value.mapStrings]
    simp
  | .table entries => by
    rw [substituteValue, substituteTable_eq entries, outcome_map]
    rfl
  | .array elements => by
    rw [substituteValue, substituteElements_eq elements, outcome_map]
    rfl
  | .integer _ => rfl
  | .float _ => rfl
  | .boolean _ => rfl
  | .datetime _ => rfl

theorem substituteTable_eq : ∀ entries : Table, substituteTable toml values entries =
    outcome ((entryEvents entries).findSome? (values.violation toml)) (mapEntries values.replace entries)
  | [] => rfl
  | (key, value) :: entries => by
    rw [substituteTable, substituteValue_eq value, substituteTable_eq entries]
    split
    next hkey => simp [entryEvents, HostValues.violation, hkey, outcome]
    next hkey =>
      have hevents : (entryEvents ((key, value) :: entries)).findSome? (values.violation toml) =
          (value.events.findSome? (values.violation toml)).or ((entryEvents entries).findSome? (values.violation toml)) := by
        simp [entryEvents, HostValues.violation, hkey, List.findSome?_append]
      rw [hevents]
      exact outcome_both (f := fun value entries => (key, value) :: entries)

theorem substituteElements_eq : ∀ elements : List Value, substituteElements toml values elements =
    outcome ((elementEvents elements).findSome? (values.violation toml)) (mapElements values.replace elements)
  | [] => rfl
  | value :: elements => by
    rw [substituteElements, substituteValue_eq value, substituteElements_eq elements, elementEvents, List.findSome?_append]
    exact outcome_both (f := List.cons)

end

end Traversal

/-! ### Rendering -/

section Rendering
variable {toml : Toml} {values values' : HostValues} {body : String} {table : Table}

/-- What is wrong with a string depends on which tokens have a host value. -/
theorem violation_congr (h : values.SameTokens values') : values.violation toml = values'.violation toml := by
  funext event
  rcases event with key | text
  · rfl
  · simp only [HostValues.violation, h _]

theorem violation_key_iff {key : String} : values.violation toml (.key key) = none ↔ hasPlaceholder key = false := by
  simp [HostValues.violation]

theorem violation_string_iff {text : String} : values.violation toml (.string text) = none ↔
    hasPlaceholder text = false ∨ ∃ token : TemplateToken, text = token.asStr ∧ (values.get token).isSome := by
  simp only [HostValues.violation]
  rcases htoken : TemplateToken.ofText text with _ | token
  · have hnot : ∀ token : TemplateToken, text ≠ token.asStr := by
      intro token heq
      rw [TemplateToken.ofText_iff.mpr heq] at htoken
      cases htoken
    simp [hnot]
  · obtain rfl := TemplateToken.ofText_iff.mp htoken
    constructor
    · intro h
      exact .inr ⟨token, rfl, Option.ne_none_iff_isSome.mp (by simpa using h)⟩
    · rintro (hplain | ⟨token', heq, hvalue⟩)
      · exact absurd (hasPlaceholder_token token) (by simp [hplain])
      · have hsame : token = token' := by
          rw [← Option.some_inj, ← htoken]
          exact TemplateToken.ofText_iff.mpr heq
        simp [hsame, hvalue]

/-- Nothing is wrong with a table that is clean, and with no other. -/
theorem findSome?_eq_none_iff : (entryEvents table).findSome? (values.violation toml) = none ↔ Clean values table := by
  rw [List.findSome?_eq_none_iff]
  constructor
  · intro h
    exact ⟨fun key hkey => violation_key_iff.mp (h _ hkey), fun text htext => violation_string_iff.mp (h _ htext)⟩
  · rintro h (key | text) hevent
    · exact violation_key_iff.mpr (h.keys key hevent)
    · exact violation_string_iff.mpr (h.strings text hevent)

/-- Rendering stops with the first violation; without one it writes the substituted table. -/
theorem render_eq (hparse : toml.parse body = .ok table) : render toml values body =
    ((entryEvents table).findSome? (values.violation toml)).elim
      ((toml.toString (mapEntries values.replace table)).mapError .serialize) .error := by
  rw [render, hparse]
  show (substituteTable toml values table >>= fun table => (toml.toString table).mapError .serialize) = _
  rw [substituteTable_eq]
  rcases (entryEvents table).findSome? (values.violation toml) with _ | e <;> rfl

theorem render_ok (hparse : toml.parse body = .ok table) (hround : toml.RoundTrips (mapEntries values.replace table))
    (hclean : Clean values table) : ∃ text, render toml values body = .ok text ∧
      toml.parse text = .ok (mapEntries values.replace table) := by
  obtain ⟨text, hwrite, hread⟩ := hround
  refine ⟨text, ?_, hread⟩
  rw [render_eq hparse, findSome?_eq_none_iff.mpr hclean, Option.elim_none, hwrite]
  rfl

theorem render_error_iff (hparse : toml.parse body = .ok table)
    (hround : toml.RoundTrips (mapEntries values.replace table)) {e : ConfigTemplateError toml} :
    render toml values body = .error e ↔ (entryEvents table).findSome? (values.violation toml) = some e := by
  rcases hwrong : (entryEvents table).findSome? (values.violation toml) with _ | wrong
  · obtain ⟨text, hrender, -⟩ := render_ok hparse hround (findSome?_eq_none_iff.mp hwrong)
    simp [hrender]
  · rw [render_eq hparse, hwrong]
    simp

/-- Every template that parses renders as its table says. -/
theorem render_renders (toml : Toml) (body : String) (table : Table) (values : HostValues)
    (hparse : toml.parse body = .ok table) (hround : toml.RoundTrips (mapEntries values.replace table)) :
    Renders toml body table values where
  succeeds := by
    constructor
    · rintro ⟨text, hrender⟩
      rw [← @findSome?_eq_none_iff toml, Option.eq_none_iff_forall_ne_some]
      intro e hwrong
      rw [(render_error_iff hparse hround).mpr hwrong] at hrender
      cases hrender
    · intro hclean
      obtain ⟨text, hrender, -⟩ := render_ok hparse hround hclean
      exact ⟨text, hrender⟩
  output text hrender := by
    rcases hwrong : (entryEvents table).findSome? (values.violation toml) with _ | wrong
    · obtain ⟨text', hrender', hread⟩ := render_ok hparse hround (findSome?_eq_none_iff.mp hwrong)
      rw [hrender] at hrender'
      obtain rfl := Except.ok.inj hrender'
      exact hread
    · rw [(render_error_iff hparse hround).mpr hwrong] at hrender
      cases hrender
  fails e := render_error_iff hparse hround
  hides values' hsame e hrender := by
    have hwrong := (render_error_iff hparse hround).mp hrender
    rw [violation_congr hsame] at hwrong
    rw [render_eq hparse, hwrong]
    rfl

end Rendering

/-- A TOML library, as far as tables of one string without characters to escape go. -/
def oneString : Toml where
  DeError := Unit
  SerError := Unit
  parse body :=
    if body = "cert = '${cert_path}'" then .ok [("cert", .string "${cert_path}")]
    else if body = "cert = \"${key_path}\"\n" then .ok [("cert", .string "${key_path}")]
    else .error ()
  toString table := table.head?.elim (.ok "") fun entry =>
    entry.2.events.head?.elim (.error ()) fun event =>
      if event = .string "${key_path}" then .ok (entry.1 ++ " = \"${key_path}\"\n") else .error ()

/-- A host value that reads as a token is written as it is. -/
theorem render_renders_oneString : Renders oneString "cert = '${cert_path}'" [("cert", .string "${cert_path}")]
    ⟨some "${key_path}", none, none, none, none⟩ :=
  render_renders oneString _ _ _ rfl ⟨"cert = \"${key_path}\"\n", rfl, rfl⟩

end ConfigTemplate
end DeployCore
