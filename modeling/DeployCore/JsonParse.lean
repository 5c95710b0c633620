import DeployCore.JsonScan
import DeployCore.Lib.JsonWritten
import DeployCore.Manifest

/-! # The strict JSON reader

`content::json::parse`: a document is held to its limit, scanned whole and only then handed to the reader. -/

namespace DeployCore
open Json

/-- `parse` to a generic value. -/
def parseJson (lib : Externals) (bytes : Bytes) (document depth : ResourceLimit) : Except ContentFault Value := do
  if bytes.length > document.max then .error document.exceeded
  else do
    let _ ← JsonScan.scan bytes depth
    match (lib.readJson bytes).bind (·.toValue recursionLimit) with
    | some value => .ok value
    | none => .error (.malformed .jsonShape)

/-- Compact text without floats. -/
def compact (v : Value) : Bytes := v.write fun _ => []

/-- The reader reads the compact text of a value as that value. -/
def ReadsCompact (lib : Externals) (v : Value) : Prop :=
  lib.readJson (compact v) = some v.toText

section
variable {lib : Externals} {bytes : Bytes} {document depth : ResourceLimit} {value : Value}

/-- A text within the limits that no object repeats a key in is left to the reader. -/
theorem parseJson_ok (hlength : bytes.length ≤ document.max) (htext : JsonText.Text true depth.max bytes)
    (hread : (lib.readJson bytes).bind (·.toValue recursionLimit) = some value) :
    parseJson lib bytes document depth = .ok value := by
  obtain ⟨footprint, hscan⟩ := JsonScan.scan_follows htext.run
  rw [parseJson, if_neg (Nat.not_lt.mpr hlength), hscan, Checks.ok_bind, hread]

end

section Maps
variable {members : Json.Members} {key : String}

/-- Members with keys of their own are found in the map as they stand. -/
theorem lookup_fromMembers_of_nodup (h : (members.map Prod.fst).Nodup) :
    (fromMembers members).lookup key = members.lookup key := by
  rw [lookup_fromMembers]
  induction members with
  | nil => rfl
  | cons member members ih =>
    obtain ⟨k, v⟩ := member
    rw [List.map_cons, List.nodup_cons] at h
    rcases eq_or_ne k key with rfl | hne
    · have hrest : members.filter (·.1 == k) = [] := by
        rw [List.filter_eq_nil_iff]
        intro member hmember heq
        exact h.1 (List.mem_map.mpr ⟨member, hmember, beq_iff_eq.mp heq⟩)
      simp [hrest]
    · rw [List.filter_cons_of_neg (by simpa using hne), ih h.2, List.lookup_cons, beq_eq_false_iff_ne.mpr (Ne.symm hne)]

end Maps

end DeployCore
