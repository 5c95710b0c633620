import DeployCore.Strings

/-! # Paths

The `std::path` functions the generation engine takes names apart with, on the raw bytes of a Unix path. -/

namespace DeployCore

def SLASH : UInt8 := 47
def DOT : UInt8 := 46

/-- `Component`. -/
inductive Component
  | rootDir
  | curDir
  | parentDir
  | normal (name : Bytes)
  deriving DecidableEq

/-- One run of bytes between separators, where a path does not begin with it. -/
def component (part : Bytes) : Option Component :=
  if part = [] ∨ part = [DOT] then none
  else if part = [DOT, DOT] then some .parentDir
  else some (.normal part)

/-- `Path::components`: repeated and trailing separators and inner `.` are dropped. -/
def components (path : Bytes) : List Component :=
  let parts := path.splitOn SLASH
  (if path.head? = some SLASH then [.rootDir] else if parts.head? = some [DOT] then [.curDir] else []) ++
    parts.filterMap component

/-- `Path::file_name`: the last component, when it is a normal one. -/
def fileName (path : Bytes) : Option Bytes :=
  match (components path).getLast? with
  | some (.normal name) => some name
  | _ => none

/-- The bytes around the last `sep`. -/
def splitLast (sep : UInt8) : Bytes → Option (Bytes × Bytes)
  | [] => none
  | byte :: bytes =>
    match splitLast sep bytes with
    | some (before, after) => some (byte :: before, after)
    | none => if byte = sep then some ([], bytes) else none

/-- `rsplit_file_at_dot`: what is before the last dot of a file name and what is after it. A dot that begins
the name does not split it. -/
def rsplitFileAtDot (file : Bytes) : Option Bytes × Option Bytes :=
  if file = [DOT, DOT] then (some file, none)
  else
    match splitLast DOT file with
    | none => (none, some file)
    | some ([], _) => (some file, none)
    | some (before, after) => (some before, some after)

/-- `Path::file_stem`. -/
def fileStem (path : Bytes) : Option Bytes := do
  let (before, after) := rsplitFileAtDot (← fileName path)
  before.or after

/-- `Path::extension`. -/
def extension (path : Bytes) : Option Bytes := do
  let (before, after) := rsplitFileAtDot (← fileName path)
  before.bind fun _ => after

/-- `Path::join` with one relative component. -/
def joinPath (path name : Bytes) : Bytes :=
  if path = [] ∨ path.getLast? = some SLASH then path ++ name else path ++ SLASH :: name

variable {path name : Bytes}

theorem components_of_no_slash (h : SLASH ∉ path) :
    components path =
      if path = [] then [] else if path = [DOT] then [.curDir]
      else if path = [DOT, DOT] then [.parentDir] else [.normal path] := by
  have hhead : path.head? ≠ some SLASH := fun hh => h (List.mem_of_head? hh)
  have hsplit : path.splitOn SLASH = [path] := List.splitOn_eq_singleton h
  simp only [components, hsplit, if_neg hhead, List.head?_cons, Option.some.injEq, List.filterMap_cons,
    List.filterMap_nil, component]
  by_cases hnil : path = []
  · simp [hnil, DOT]
  by_cases hdot : path = [DOT]
  · simp [hdot]
  by_cases hdots : path = [DOT, DOT]
  · simp [hdots]
  simp [hnil, hdot, hdots]

/-- A name without separators is its own file name, unless it is no file name at all. -/
theorem fileName_of_no_slash (h : SLASH ∉ path) :
    fileName path = if path = [] ∨ path = [DOT] ∨ path = [DOT, DOT] then none else some path := by
  rw [fileName, components_of_no_slash h]
  by_cases hnil : path = []
  · simp [hnil]
  by_cases hdot : path = [DOT]
  · simp [hdot]
  by_cases hdots : path = [DOT, DOT]
  · simp [hdots]
  simp [hnil, hdot, hdots]

theorem eq_of_fileName (h : SLASH ∉ path) (hname : fileName path = some name) : path = name := by
  rw [fileName_of_no_slash h] at hname
  split at hname
  · cases hname
  · exact Option.some.inj hname

theorem splitLast_eq_none_iff {sep : UInt8} {bytes : Bytes} : splitLast sep bytes = none ↔ sep ∉ bytes := by
  induction bytes with
  | nil => simp [splitLast]
  | cons byte bytes ih =>
    rw [List.mem_cons, not_or, ← ih, splitLast]
    cases splitLast sep bytes with
    | none => simp [eq_comm]
    | some halves => simp

theorem splitLast_append {sep : UInt8} {before after : Bytes} (h : sep ∉ after) :
    splitLast sep (before ++ sep :: after) = some (before, after) := by
  induction before with
  | nil => simp [splitLast, splitLast_eq_none_iff.mpr h]
  | cons byte before ih => simp [splitLast, ih]

theorem eq_of_splitLast {sep : UInt8} {bytes before after : Bytes} (h : splitLast sep bytes = some (before, after)) :
    bytes = before ++ sep :: after := by
  induction bytes generalizing before with
  | nil => cases h
  | cons byte bytes ih =>
    rw [splitLast] at h
    cases hrest : splitLast sep bytes with
    | none =>
      rw [hrest] at h
      by_cases hsep : byte = sep
      · obtain ⟨rfl, rfl⟩ : [] = before ∧ bytes = after := by simpa [hsep] using h
        simp [hsep]
      · simp [hsep] at h
    | some halves =>
      obtain ⟨rest, after'⟩ := halves
      rw [hrest] at h
      obtain ⟨rfl, rfl⟩ : byte :: rest = before ∧ after' = after := by simpa using h
      rw [ih hrest, List.cons_append]

/-- A name with an extension is its stem, a dot and the extension. -/
theorem eq_of_extension {ext : Bytes} (h : SLASH ∉ path) (hext : extension path = some ext) :
    ∃ stem, fileStem path = some stem ∧ path = stem ++ DOT :: ext := by
  obtain ⟨file, hfile, hext⟩ := Option.bind_eq_some_iff.mp hext
  cases eq_of_fileName h hfile
  have hstem : fileStem path = (rsplitFileAtDot path).1.or (rsplitFileAtDot path).2 := by
    simp only [fileStem, hfile, Option.bind_eq_bind, Option.bind_some]
  unfold rsplitFileAtDot at hstem hext
  by_cases hdots : path = [DOT, DOT]
  · simp [hdots] at hext
  rw [if_neg hdots] at hstem hext
  cases hsplit : splitLast DOT path with
  | none => simp [hsplit] at hext
  | some halves =>
    obtain ⟨before, after⟩ := halves
    cases before with
    | nil => simp [hsplit] at hext
    | cons byte before =>
      simp only [hsplit, Option.bind_some, Option.some.injEq] at hext
      simp only [hsplit, Option.some_or] at hstem
      exact ⟨byte :: before, hstem, hext ▸ eq_of_splitLast hsplit⟩

end DeployCore
