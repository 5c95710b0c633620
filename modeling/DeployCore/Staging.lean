import DeployCore.TrustedDir

/-! # Where a write is staged (`src/executor.rs`)

The rule stands twice: `select_staging_dir` climbs the parents of a path, and `PUT_FILE_SCRIPT` climbs by `dirname`,
whose output a command substitution cuts its last newlines off. A directory is the list of its names from the innermost
one outwards, and `Probe` is what `stat` tells of each. -/

namespace DeployCore

namespace Staging

def NEWLINE : UInt8 := 10

/-- A normalized absolute path: the names on it, innermost first. -/
abbrev Path := List Bytes

structure DirFacts where
  uid : Nat
  mode : Nat
  dev : Nat
  deriving DecidableEq

/-- The directories that can be read, with their facts. -/
abbrev Probe := Path → Option DirFacts

def ROOT_ID : Nat := 0

/-! ## `select_staging_dir` -/

/-- `Path::parent`. -/
def parent : Path → Option Path
  | [] => none
  | _ :: dir => some dir

/-- The parents of a path, nearest first. -/
def ancestors : Path → List Path
  | [] => []
  | _ :: dir => dir :: ancestors dir

def writerOnly (facts : DirFacts) (uid : Nat) : Bool :=
  facts.uid = uid && facts.mode &&& GROUP_OR_OTHER_WRITE = 0

def mountPointFallback (destDir boundary : Path) (destFacts boundaryFacts : DirFacts) (uid : Nat) : Option Path :=
  let parentIsSafe := (boundaryFacts.uid = ROOT_ID || boundaryFacts.uid = uid) &&
    boundaryFacts.mode &&& GROUP_OR_OTHER_WRITE = 0
  if parent destDir = some boundary && parentIsSafe && writerOnly destFacts uid then some destDir else none

/-- The walk over the candidates that are left. -/
def selectFrom (probe : Probe) (destDir : Path) (destFacts : DirFacts) (uid : Nat) : List Path → Option Path
  | [] => none
  | dir :: rest =>
    match probe dir with
    | none => selectFrom probe destDir destFacts uid rest
    | some facts =>
      if facts.dev ≠ destFacts.dev then mountPointFallback destDir dir destFacts facts uid
      else if writerOnly facts uid then some dir
      else selectFrom probe destDir destFacts uid rest

def selectStagingDir (dest : Path) (uid : Nat) (probe : Probe) : Option Path := do
  let destDir ← parent dest
  let destFacts ← probe destDir
  selectFrom probe destDir destFacts uid (ancestors destDir)

/-! ## The staging walk of the script -/

/-- The bytes of a path before its last name's end, with no slash for the root. -/
def body : Path → Bytes
  | [] => []
  | name :: dir => body dir ++ SLASH :: name

def text (path : Path) : Bytes := if path = [] then [SLASH] else body path

/-- `dirname`, but for the newline it ends its output with. -/
def dirname (path : Bytes) : Bytes :=
  let trimmed := path.rdropWhile (· = SLASH)
  let front := trimmed.rdropWhile (· ≠ SLASH)
  let dir := front.rdropWhile (· = SLASH)
  if path = [] then [DOT] else if trimmed = [] then [SLASH] else if front = [] then [DOT]
  else if dir = [] then [SLASH] else dir

/-- What a command substitution makes of an output. -/
def substitution (output : Bytes) : Bytes := output.rdropWhile (· = NEWLINE)

/-- `$(dirname "$path")`. -/
def dirnameOf (path : Bytes) : Bytes := substitution (dirname path ++ [NEWLINE])

/-- One name of a path as it is looked up. -/
def enter (dir : Path) (name : Bytes) : Path :=
  if name = [] ∨ name = [DOT] then dir else if name = [DOT, DOT] then dir.tail else name :: dir

/-- The directory a path leads to, in a tree without links. -/
def resolve (path : Bytes) : Path := (path.splitOn SLASH).foldl enter []

/-- `[ -d "$path" ]`. -/
def isDir (probe : Probe) (path : Bytes) : Bool := (probe (resolve path)).isSome

/-- `$(fsid "$path")`, empty where there is none. -/
def fsid (probe : Probe) (path : Bytes) : Option Nat := (probe (resolve path)).map DirFacts.dev

/-- `-perm -bits`: every one of the bits. -/
def perm (facts : DirFacts) (bits : Nat) : Bool := facts.mode &&& bits = bits

/-- Whether `find "$path" -maxdepth 0` with the owners allowed and neither write bit prints the path. -/
def findOwned (probe : Probe) (path : Bytes) (owners : List Nat) : Bool :=
  (probe (resolve path)).any fun facts => facts.uid ∈ owners && !perm facts 0o002 && !perm facts 0o020

/-- The loop over `dir`, unless it has not ended within its fuel. -/
def stageLoop (probe : Probe) (uid destfs : Nat) : Nat → Bytes → Option (Option Bytes)
  | 0, _ => none
  | fuel + 1, dir =>
    if isDir probe dir && fsid probe dir ≠ some destfs then some none
    else if isDir probe dir && findOwned probe dir [uid] then some (some dir)
    else if dirnameOf dir = dir then some none
    else stageLoop probe uid destfs fuel (dirnameOf dir)

/-- The destination's own directory, where the loop found none. -/
def stageFallback (probe : Probe) (uid destfs : Nat) (top : Bytes) : Option Bytes :=
  let up := dirnameOf top
  if up ≠ top && isDir probe up && (fsid probe up).isSome && fsid probe up ≠ some destfs &&
    findOwned probe up [ROOT_ID, uid] && findOwned probe top [uid] then some top else none

/-- From `destfs=` to the refusal: the stage, or none where the script refuses. -/
def stageScript (probe : Probe) (uid : Nat) (dest : Bytes) : Option (Option Bytes) :=
  match fsid probe (dirnameOf dest) with
  | none => some none
  | some destfs =>
    (stageLoop probe uid destfs (dest.length + 1) (dirnameOf (dirnameOf dest))).map fun stage =>
      stage.or (stageFallback probe uid destfs (dirnameOf dest))

/-! ## What the tools tell of a path -/

/-- A name a command substitution would cut. -/
def EndsInNewline (name : Bytes) : Prop := name.getLast? = some NEWLINE

section Text
variable {p : UInt8 → Bool} {l name : Bytes} {dir : Path}

theorem rdropWhile_append (h : ∀ b ∈ name, p b) : (l ++ name).rdropWhile p = l.rdropWhile p := by
  rw [List.rdropWhile, List.reverse_append, List.dropWhile_append_of_pos (by simpa using h)]
  rfl

theorem rdropWhile_of_not (hne : name ≠ []) (h : ∀ b ∈ name, ¬p b) : (l ++ name).rdropWhile p = l ++ name := by
  rw [List.rdropWhile_eq_self_iff]
  intro hl
  rw [List.getLast_append_of_ne_nil hl hne]
  exact h _ (List.getLast_mem hne)

@[simp] theorem body_cons : body (name :: dir) = body dir ++ SLASH :: name := rfl

@[simp] theorem text_cons : text (name :: dir) = body dir ++ SLASH :: name := rfl

@[simp] theorem body_eq_nil : body dir = [] ↔ dir = [] := by
  cases dir <;> simp [body]

theorem length_le_body : dir.length ≤ (body dir).length := by
  induction dir with
  | nil => exact le_rfl
  | cons name dir ih =>
    rw [body_cons, List.length_append, List.length_cons, List.length_cons]
    omega

theorem head?_text : (text dir).head? = some SLASH := by
  induction dir with
  | nil => rfl
  | cons name dir ih =>
    cases dir with
    | nil => rfl
    | cons name' dir =>
      rw [text_cons, List.head?_append]
      rw [text_cons] at ih
      rw [body_cons, ih]
      rfl

theorem rdropWhile_body (h : ∀ n ∈ dir, IsName n) : (body dir).rdropWhile (· = SLASH) = body dir := by
  cases dir with
  | nil => rfl
  | cons name dir =>
    have hname : IsName name := h name (List.mem_cons_self ..)
    rw [body_cons, List.append_cons]
    exact rdropWhile_of_not hname.notEmpty fun b hb => by simpa using fun he : b = SLASH => hname.noSlash (he ▸ hb)

theorem dirname_text (hname : IsName name) (h : ∀ n ∈ dir, IsName n) : dirname (text (name :: dir)) = text dir := by
  have hslash : ∀ b ∈ name, b ≠ SLASH := fun b hb he => hname.noSlash (he ▸ hb)
  have htrim : (body dir ++ [SLASH] ++ name).rdropWhile (· = SLASH) = body dir ++ [SLASH] ++ name :=
    rdropWhile_of_not hname.notEmpty (by simpa using hslash)
  have hfront : (body dir ++ [SLASH] ++ name).rdropWhile (· ≠ SLASH) = body dir ++ [SLASH] := by
    rw [rdropWhile_append (by simpa using hslash)]
    exact List.rdropWhile_concat_neg _ _ _ (by simp)
  have hdir : (body dir ++ [SLASH]).rdropWhile (· = SLASH) = body dir := by
    rw [List.rdropWhile_concat_pos _ _ _ (by simp), rdropWhile_body h]
  rw [text_cons, List.append_cons]
  simp only [dirname, htrim, hfront, hdir]
  simp [text]

@[simp] theorem dirname_root : dirname [SLASH] = [SLASH] := by decide

theorem substitution_newline : substitution (l ++ [NEWLINE]) = substitution l :=
  List.rdropWhile_concat_pos _ _ _ (by simp)

theorem substitution_of_not (h : ¬EndsInNewline l) : substitution l = l := by
  rw [substitution, List.rdropWhile_eq_self_iff]
  intro hl
  rw [EndsInNewline, List.getLast?_eq_some_getLast hl] at h
  simpa using h

@[simp] theorem dirnameOf_root : dirnameOf [SLASH] = [SLASH] := by decide

theorem forall_head? {P : Bytes → Prop} (h : ∀ n ∈ dir, P n) : ∀ n ∈ dir.head?, P n :=
  fun n hn => h n (List.mem_of_mem_head? hn)

theorem not_endsInNewline_text (h : ∀ n ∈ dir, IsName n) (hnl : ∀ n ∈ dir.head?, ¬EndsInNewline n) :
    ¬EndsInNewline (text dir) := by
  cases dir with
  | nil => exact fun he => by cases he
  | cons name dir =>
    rw [text_cons, List.append_cons, EndsInNewline,
      List.getLast?_append_of_ne_nil _ (h name (List.mem_cons_self ..)).notEmpty]
    exact hnl name rfl

theorem dirnameOf_text (hname : IsName name) (h : ∀ n ∈ dir, IsName n) (hnl : ∀ n ∈ dir.head?, ¬EndsInNewline n) :
    dirnameOf (text (name :: dir)) = text dir := by
  rw [dirnameOf, substitution_newline, dirname_text hname h, substitution_of_not (not_endsInNewline_text h hnl)]

/-- A parent as the script has it is the beginning of the path. -/
theorem dirname_isPrefix (h : l.head? = some SLASH) : dirname l <+: l ∧ dirname l ≠ [] := by
  obtain ⟨rest, rfl⟩ := List.head?_eq_some_iff.mp h
  have hroot : [SLASH] <+: SLASH :: rest := ⟨rest, rfl⟩
  unfold dirname
  simp only [reduceCtorEq, if_false]
  split_ifs with htrim hfront hdir
  · exact ⟨hroot, by simp⟩
  · refine absurd (List.rdropWhile_eq_nil_iff.mp hfront SLASH ?_) (by simp)
    obtain ⟨back, hback⟩ := List.rdropWhile_prefix (· = SLASH) (SLASH :: rest)
    cases hcut : (SLASH :: rest).rdropWhile (· = SLASH) with
    | nil => exact absurd hcut htrim
    | cons byte front =>
      rw [hcut, List.cons_append] at hback
      cases hback
      exact List.mem_cons_self ..
  · exact ⟨hroot, by simp⟩
  · exact ⟨((List.rdropWhile_prefix ..).trans (List.rdropWhile_prefix ..)).trans (List.rdropWhile_prefix ..), hdir⟩

theorem dirnameOf_isPrefix (h : l.head? = some SLASH) : dirnameOf l <+: l ∧ (dirnameOf l).head? = some SLASH := by
  obtain ⟨hfront, hne⟩ := dirname_isPrefix h
  obtain ⟨rest, rfl⟩ := List.head?_eq_some_iff.mp h
  have hcut : dirnameOf (SLASH :: rest) <+: SLASH :: rest := by
    rw [dirnameOf, substitution_newline]
    exact (List.rdropWhile_prefix ..).trans hfront
  refine ⟨hcut, ?_⟩
  cases hdir : dirnameOf (SLASH :: rest) with
  | nil =>
    rw [dirnameOf, substitution_newline, substitution, List.rdropWhile_eq_nil_iff] at hdir
    obtain ⟨back, hback⟩ := hfront
    cases hhead : dirname (SLASH :: rest) with
    | nil => exact absurd hhead hne
    | cons byte front =>
      rw [hhead] at hback hdir
      cases hback
      exact absurd (hdir SLASH (List.mem_cons_self ..)) (by decide)
  | cons byte front =>
    obtain ⟨back, hback⟩ := hdir ▸ hcut
    cases hback
    rfl

theorem resolve_append (h : SLASH ∉ name) : resolve (l ++ SLASH :: name) = enter (resolve l) name := by
  rw [resolve, List.splitOn_append_cons_self, List.splitOn_eq_singleton h, List.foldl_append]
  rfl

theorem enter_name (h : IsName name) : enter dir name = name :: dir := by
  simp [enter, h.notEmpty, h.notDot, h.notDots]

theorem resolve_body (h : ∀ n ∈ dir, IsName n) : resolve (body dir) = dir := by
  induction dir with
  | nil => rfl
  | cons name dir ih =>
    obtain ⟨hname, hdir⟩ := List.forall_mem_cons.mp h
    rw [body_cons, resolve_append hname.noSlash, ih hdir, enter_name hname]

theorem resolve_text (h : ∀ n ∈ dir, IsName n) : resolve (text dir) = dir := by
  cases dir with
  | nil => rfl
  | cons name dir => exact resolve_body h

end Text

/-! ## The two walks -/

section Walk
variable {probe : Probe} {uid dev fuel : Nat} {facts destFacts boundaryFacts : DirFacts} {dir destDir boundary : Path}
  {dirs : List Path} {path : Bytes}

theorem perm_two_pow {n : Nat} : perm facts (2 ^ n) = facts.mode.testBit n := by
  rw [perm, Nat.and_two_pow]
  cases facts.mode.testBit n
  · simpa using (Nat.two_pow_pos n).ne
  · simp

/-- Neither of two bits tested one by one is neither of them tested at once. -/
theorem groupOrOtherWrite_iff :
    (!perm facts 0o002 && !perm facts 0o020) = (facts.mode &&& GROUP_OR_OTHER_WRITE = 0 : Bool) := by
  have hmask : GROUP_OR_OTHER_WRITE = 2 ^ 1 ||| 2 ^ 4 := by decide
  rw [show (0o002 : Nat) = 2 ^ 1 from rfl, show (0o020 : Nat) = 2 ^ 4 from rfl, perm_two_pow, perm_two_pow, hmask,
    Nat.and_or_distrib_left, Nat.and_two_pow, Nat.and_two_pow]
  cases facts.mode.testBit 1 <;> cases facts.mode.testBit 4 <;> decide

theorem findOwned_writer : findOwned probe path [uid] = (probe (resolve path)).any (writerOnly · uid) := by
  refine congrArg (Option.any · _) (funext fun facts => ?_)
  rw [Bool.and_assoc, groupOrOtherWrite_iff, writerOnly]
  simp

/-- What both walks make of the parents: the nearest directory only the writer can write, short of the first one on
another device. -/
def nearestBelow (probe : Probe) (uid dev : Nat) : List Path → Option Path
  | [] => none
  | dir :: rest =>
    match probe dir with
    | none => nearestBelow probe uid dev rest
    | some facts =>
      if facts.dev ≠ dev then none
      else if writerOnly facts uid then some dir
      else nearestBelow probe uid dev rest

theorem nearestBelow_unread (h : probe dir = none) :
    nearestBelow probe uid dev (dir :: dirs) = nearestBelow probe uid dev dirs := by
  rw [nearestBelow, h]

theorem nearestBelow_read (h : probe dir = some facts) :
    nearestBelow probe uid dev (dir :: dirs) =
      if facts.dev ≠ dev then none else if writerOnly facts uid then some dir
      else nearestBelow probe uid dev dirs := by
  rw [nearestBelow, h]

theorem selectFrom_unread (h : probe dir = none) :
    selectFrom probe destDir destFacts uid (dir :: dirs) = selectFrom probe destDir destFacts uid dirs := by
  rw [selectFrom, h]

theorem selectFrom_read (h : probe dir = some facts) :
    selectFrom probe destDir destFacts uid (dir :: dirs) =
      if facts.dev ≠ destFacts.dev then mountPointFallback destDir dir destFacts facts uid
      else if writerOnly facts uid then some dir else selectFrom probe destDir destFacts uid dirs := by
  rw [selectFrom, h]

/-- A boundary above the destination's parent leaves no fallback. -/
theorem mountPointFallback_above (h : parent destDir ≠ some boundary) :
    mountPointFallback destDir boundary destFacts boundaryFacts uid = none := by
  simp [mountPointFallback, h]

theorem selectFrom_above (h : ∀ dir ∈ dirs, parent destDir ≠ some dir) :
    selectFrom probe destDir destFacts uid dirs = nearestBelow probe uid destFacts.dev dirs := by
  induction dirs with
  | nil => rfl
  | cons dir dirs ih =>
    obtain ⟨hdir, hdirs⟩ := List.forall_mem_cons.mp h
    cases hprobe : probe dir with
    | none => rw [selectFrom_unread hprobe, nearestBelow_unread hprobe, ih hdirs]
    | some facts =>
      rw [selectFrom_read hprobe, nearestBelow_read hprobe, ih hdirs, mountPointFallback_above hdir]

theorem length_of_mem_ancestors (h : boundary ∈ ancestors dir) : boundary.length < dir.length := by
  induction dir with
  | nil => cases h
  | cons name dir ih =>
    rcases List.mem_cons.mp h with rfl | h
    · exact Nat.lt_succ_self _
    · exact (ih h).trans (Nat.lt_succ_self _)

/-- The walk is the search for the nearest directory, then the fallback at the parent. -/
theorem selectFrom_ancestors {name : Bytes} :
    selectFrom probe (name :: dir) destFacts uid (ancestors (name :: dir)) =
      (nearestBelow probe uid destFacts.dev (ancestors (name :: dir))).or
        ((probe dir).bind fun facts =>
          if facts.dev ≠ destFacts.dev then mountPointFallback (name :: dir) dir destFacts facts uid else none) := by
  have habove : ∀ up ∈ ancestors dir, parent (name :: dir) ≠ some up := by
    rintro up hup he
    cases he
    exact lt_irrefl _ (length_of_mem_ancestors hup)
  rw [ancestors]
  cases hprobe : probe dir with
  | none => rw [selectFrom_unread hprobe, nearestBelow_unread hprobe, selectFrom_above habove, Option.bind_none,
      Option.or_none]
  | some facts =>
    rw [selectFrom_read hprobe, nearestBelow_read hprobe, Option.bind_some]
    by_cases hdev : facts.dev = destFacts.dev
    · simp only [hdev, ne_eq, not_true_eq_false, if_false, selectFrom_above habove, Option.or_none]
    · simp only [hdev, ne_eq, not_false_eq_true, if_true, Option.none_or]

theorem ancestors_chain (h : boundary ∈ ancestors dir) (hd : ∀ n ∈ dir, IsName n) : ∀ n ∈ boundary, IsName n := by
  induction dir with
  | nil => cases h
  | cons name dir ih =>
    rcases List.mem_cons.mp h with rfl | h
    · exact (List.forall_mem_cons.mp hd).2
    · exact ih h (List.forall_mem_cons.mp hd).2

/-- One turn of the loop. -/
theorem stageLoop_succ :
    stageLoop probe uid dev (fuel + 1) path =
      if isDir probe path && fsid probe path ≠ some dev then some none
      else if isDir probe path && findOwned probe path [uid] then some (some path)
      else if dirnameOf path = path then some none
      else stageLoop probe uid dev fuel (dirnameOf path) := rfl

theorem stageLoop_unread (h : probe (resolve path) = none) :
    stageLoop probe uid dev (fuel + 1) path =
      if dirnameOf path = path then some none else stageLoop probe uid dev fuel (dirnameOf path) := by
  simp [stageLoop_succ, isDir, h]

theorem stageLoop_read (h : probe (resolve path) = some facts) :
    stageLoop probe uid dev (fuel + 1) path =
      if facts.dev ≠ dev then some none else if writerOnly facts uid then some (some path)
      else if dirnameOf path = path then some none else stageLoop probe uid dev fuel (dirnameOf path) := by
  simp [stageLoop_succ, isDir, fsid, findOwned_writer, h]

/-- Where no name would be cut, the loop over a directory is the search through it and its parents. -/
theorem stageLoop_text (hd : ∀ n ∈ dir, IsName n) (hnl : ∀ n ∈ dir, ¬EndsInNewline n) (hfuel : dir.length < fuel) :
    stageLoop probe uid dev fuel (text dir) = some ((nearestBelow probe uid dev (dir :: ancestors dir)).map text) := by
  induction dir generalizing fuel with
  | nil =>
    obtain ⟨fuel, rfl⟩ : ∃ n, fuel = n + 1 := ⟨fuel - 1, by simp at hfuel; omega⟩
    have hres : probe (resolve (text [])) = probe [] := by rw [resolve_text hd]
    have hup : dirnameOf (text []) = text [] := dirnameOf_root
    cases hprobe : probe [] with
    | none => rw [stageLoop_unread (hres.trans hprobe), if_pos hup, nearestBelow_unread hprobe]; rfl
    | some facts =>
      rw [stageLoop_read (hres.trans hprobe), if_pos hup, nearestBelow_read hprobe]
      split_ifs <;> rfl
  | cons name dir ih =>
    obtain ⟨fuel, rfl⟩ : ∃ n, fuel = n + 1 := ⟨fuel - 1, by simp at hfuel; omega⟩
    obtain ⟨hname, hdir⟩ := List.forall_mem_cons.mp hd
    obtain ⟨-, hcut⟩ := List.forall_mem_cons.mp hnl
    have hres : probe (resolve (text (name :: dir))) = probe (name :: dir) := by rw [resolve_text hd]
    have hup : dirnameOf (text (name :: dir)) = text dir := dirnameOf_text hname hdir (forall_head? hcut)
    have hne : text dir ≠ text (name :: dir) := by
      intro he
      have := resolve_text hdir
      rw [he, resolve_text hd] at this
      exact List.cons_ne_self _ _ this
    have hrest := @ih fuel hdir hcut (by simpa using hfuel)
    cases hprobe : probe (name :: dir) with
    | none => rw [stageLoop_unread (hres.trans hprobe), hup, if_neg hne, nearestBelow_unread hprobe, hrest]; rfl
    | some facts =>
      rw [stageLoop_read (hres.trans hprobe), hup, if_neg hne, nearestBelow_read hprobe, hrest]
      split_ifs <;> rfl

/-- The fallback of the script is that of the walk. -/
theorem stageFallback_text {name : Bytes} (hd : ∀ n ∈ name :: dir, IsName n) (hnl : ∀ n ∈ dir.head?, ¬EndsInNewline n)
    (hdest : probe (name :: dir) = some destFacts) :
    stageFallback probe uid destFacts.dev (text (name :: dir)) =
      ((probe dir).bind fun facts =>
        if facts.dev ≠ destFacts.dev then mountPointFallback (name :: dir) dir destFacts facts uid else none).map text := by
  obtain ⟨hname, hdir⟩ := List.forall_mem_cons.mp hd
  have hne : text dir ≠ text (name :: dir) := by
    intro he
    have := resolve_text hdir
    rw [he, resolve_text hd] at this
    exact List.cons_ne_self _ _ this
  have hup : dirnameOf (text (name :: dir)) = text dir := dirnameOf_text hname hdir hnl
  have htop : findOwned probe (text (name :: dir)) [uid] = writerOnly destFacts uid := by
    rw [findOwned_writer, resolve_text hd, hdest, Option.any_some]
  rw [stageFallback, hup, htop]
  simp only [isDir, fsid, findOwned, resolve_text hdir, decide_eq_true hne]
  cases probe dir with
  | none => simp
  | some facts =>
    simp only [Option.any_some, Bool.and_assoc, groupOrOtherWrite_iff, mountPointFallback, parent]
    by_cases hdev : facts.dev = destFacts.dev
    · simp [hdev]
    · simp [hdev, apply_ite]

/-- Below the root the script is the walk, where it cuts no name. -/
theorem stageScript_below {name inner : Bytes} (hd : ∀ n ∈ name :: inner :: dir, IsName n)
    (hnl : ∀ n ∈ inner :: dir, ¬EndsInNewline n) :
    stageScript probe uid (text (name :: inner :: dir)) =
      some ((selectStagingDir (name :: inner :: dir) uid probe).map text) := by
  obtain ⟨hname, hdir⟩ := List.forall_mem_cons.mp hd
  obtain ⟨hinner, hup⟩ := List.forall_mem_cons.mp hdir
  have hcut : ∀ n ∈ dir, ¬EndsInNewline n := (List.forall_mem_cons.mp hnl).2
  rw [stageScript, dirnameOf_text hname hdir (forall_head? hnl), fsid, resolve_text hdir, selectStagingDir]
  cases hdest : probe (inner :: dir) with
  | none => simp [parent, hdest]
  | some destFacts =>
    have hfuel : dir.length < (text (name :: inner :: dir)).length + 1 := by
      have hlen : dir.length ≤ (body dir).length := length_le_body
      simp only [text_cons, body_cons, List.length_append]
      omega
    simp only [Option.map_some, dirnameOf_text hinner hup (forall_head? hcut), stageLoop_text hup hcut hfuel,
      stageFallback_text hdir (forall_head? hcut) hdest]
    simp only [parent, Option.bind_eq_bind, Option.bind_some, hdest, selectFrom_ancestors]
    rw [ancestors]
    simp only [Option.map_or]

/-- In the root the script looks at the root itself, which the walk does not. -/
theorem stageScript_root {name : Bytes} (hname : IsName name) :
    stageScript probe uid (text [name]) = some (if (probe []).any (writerOnly · uid) then some (text []) else none) := by
  have hnil : ∀ n ∈ ([] : Path), IsName n := by simp
  have hcut : ∀ n ∈ ([] : Path), ¬EndsInNewline n := by simp
  have hroot : dirnameOf (text []) = text [] := dirnameOf_root
  rw [stageScript, dirnameOf_text hname hnil (forall_head? hcut), fsid, resolve_text hnil]
  cases hprobe : probe [] with
  | none => rfl
  | some facts =>
    have hloop : stageLoop probe uid facts.dev ((text [name]).length + 1) (text []) =
        some ((nearestBelow probe uid facts.dev [[]]).map text) := stageLoop_text hnil hcut (Nat.succ_pos _)
    have hfall : stageFallback probe uid facts.dev (text []) = none := by simp [stageFallback, hroot]
    simp only [Option.map_some, hroot, hloop, hfall, nearestBelow_read hprobe, Option.or_none, Option.any_some,
      ne_eq, not_true_eq_false, if_false]
    split_ifs <;> rfl

end Walk

/-! ## One rule, written twice -/

/-- What a staging directory must be: the writer's alone and on the destination's device, and either the nearest such
parent of the destination's directory short of every other device, or that directory itself where it is the top of its
filesystem under a directory that only root and the writer can write. -/
structure Admitted (probe : Probe) (uid : Nat) (destDir stage : Path) : Prop where
  owned : ∃ facts, probe stage = some facts ∧ facts.uid = uid ∧ facts.mode &&& GROUP_OR_OTHER_WRITE = 0
  here : (probe stage).map DirFacts.dev = (probe destDir).map DirFacts.dev
  place :
    (∃ nearer farther, ancestors destDir = nearer ++ stage :: farther ∧
      ∀ dir ∈ nearer, ∀ facts, probe dir = some facts →
        (probe destDir).map DirFacts.dev = some facts.dev ∧ writerOnly facts uid = false) ∨
    (stage = destDir ∧ ∃ up facts, parent destDir = some up ∧ probe up = some facts ∧
      (probe destDir).map DirFacts.dev ≠ some facts.dev ∧ (facts.uid = ROOT_ID ∨ facts.uid = uid) ∧
      facts.mode &&& GROUP_OR_OTHER_WRITE = 0)

/-- Both choose one directory or neither does, and what is chosen is as it must be. -/
structure SameStage (probe : Probe) (uid : Nat) (name : Bytes) (destDir : Path) : Prop where
  same : (stageScript probe uid (text (name :: destDir))).map (Option.map resolve) =
    some (selectStagingDir (name :: destDir) uid probe)
  admitted : ∀ stage, selectStagingDir (name :: destDir) uid probe = some stage → Admitted probe uid destDir stage

section Rule
variable {probe : Probe} {uid dev : Nat} {facts destFacts : DirFacts} {dir destDir stage up : Path} {dirs : List Path}
  {name : Bytes}

theorem writerOnly_iff : writerOnly facts uid = true ↔ facts.uid = uid ∧ facts.mode &&& GROUP_OR_OTHER_WRITE = 0 := by
  simp [writerOnly]

theorem nearestBelow_some (h : nearestBelow probe uid dev dirs = some stage) :
    ∃ nearer farther facts, dirs = nearer ++ stage :: farther ∧ probe stage = some facts ∧ facts.dev = dev ∧
      writerOnly facts uid = true ∧
      ∀ dir ∈ nearer, ∀ facts, probe dir = some facts → facts.dev = dev ∧ writerOnly facts uid = false := by
  induction dirs with
  | nil => cases h
  | cons dir dirs ih =>
    cases hprobe : probe dir with
    | none =>
      rw [nearestBelow_unread hprobe] at h
      obtain ⟨nearer, farther, facts, rfl, hstage, hdev, howned, hnearer⟩ := ih h
      refine ⟨dir :: nearer, farther, facts, rfl, hstage, hdev, howned, ?_⟩
      refine List.forall_mem_cons.mpr ⟨fun _ hread => ?_, hnearer⟩
      rw [hprobe] at hread
      cases hread
    | some found =>
      rw [nearestBelow_read hprobe] at h
      split_ifs at h with hdev howned
      · cases h
        exact ⟨[], dirs, found, rfl, hprobe, not_not.mp hdev, howned, by simp⟩
      · obtain ⟨nearer, farther, facts, rfl, hstage, hdev', howned', hnearer⟩ := ih h
        refine ⟨dir :: nearer, farther, facts, rfl, hstage, hdev', howned', ?_⟩
        refine List.forall_mem_cons.mpr ⟨fun _ hread => ?_, hnearer⟩
        rw [hprobe] at hread
        cases hread
        exact ⟨not_not.mp hdev, by simpa using howned⟩

/-- What the walk chooses is as it must be. -/
theorem selectStagingDir_admitted (h : selectStagingDir (name :: destDir) uid probe = some stage) :
    Admitted probe uid destDir stage := by
  simp only [selectStagingDir, parent, Option.bind_eq_bind, Option.bind_some] at h
  obtain ⟨destFacts, hdest, h⟩ := Option.bind_eq_some_iff.mp h
  cases destDir with
  | nil => cases h
  | cons inner up =>
    rw [selectFrom_ancestors, Option.or_eq_some_iff] at h
    rcases h with h | ⟨-, h⟩
    · obtain ⟨nearer, farther, facts, hchain, hstage, hdev, howned, hnearer⟩ := nearestBelow_some h
      rw [writerOnly_iff] at howned
      refine ⟨⟨facts, hstage, howned⟩, by simp [hstage, hdest, hdev], .inl ⟨nearer, farther, hchain, ?_⟩⟩
      intro dir hdir facts' hread
      obtain ⟨hdev, howned'⟩ := hnearer dir hdir facts' hread
      exact ⟨by rw [hdest, hdev]; rfl, howned'⟩
    · obtain ⟨facts, hread, h⟩ := Option.bind_eq_some_iff.mp h
      split_ifs at h with hdev
      simp only [mountPointFallback, parent, decide_true, Bool.true_and, Bool.and_eq_true, Bool.or_eq_true,
        decide_eq_true_eq, Option.ite_none_right_eq_some] at h
      obtain ⟨⟨⟨howner, hmode⟩, howned⟩, he⟩ := h
      cases he
      rw [writerOnly_iff] at howned
      refine ⟨⟨destFacts, hdest, howned⟩, rfl, .inr ⟨rfl, up, facts, rfl, hread, ?_, howner, hmode⟩⟩
      rw [hdest]
      simpa using fun he : destFacts.dev = facts.dev => hdev he.symm

end Rule

/-! ## Names the script cuts -/

section Cut
variable {probe : Probe} {uid dev fuel : Nat} {facts : DirFacts} {target dir up : Path} {path name cut : Bytes}

theorem prefix_body_cons (h : path <+: body (name :: dir)) :
    path <+: body dir ∨ ∃ front, front <+: name ∧ path = body dir ++ SLASH :: front := by
  rcases List.prefix_or_prefix_of_prefix h (List.prefix_append (body dir) (SLASH :: name)) with h | ⟨rest, rfl⟩
  · exact .inl h
  have hrest : rest <+: SLASH :: name := (List.prefix_append_right_inj _).mp h
  cases rest with
  | nil => exact .inl (by simp)
  | cons byte front =>
    obtain ⟨rfl, hfront⟩ := List.cons_prefix_cons.mp hrest
    exact .inr ⟨front, hfront, rfl⟩

theorem enter_cases : enter dir name = dir ∨ enter dir name = dir.tail ∨ enter dir name = name :: dir := by
  unfold enter
  split_ifs <;> simp

theorem length_resolve_le (hd : ∀ n ∈ dir, IsName n) (h : path <+: body dir) :
    (resolve path).length ≤ dir.length := by
  induction dir with
  | nil =>
    rw [body, List.prefix_nil] at h
    subst h
    exact le_rfl
  | cons name dir ih =>
    obtain ⟨hname, hdir⟩ := List.forall_mem_cons.mp hd
    rcases prefix_body_cons h with h | ⟨front, hfront, rfl⟩
    · exact (ih hdir h).trans (Nat.le_succ _)
    · rw [resolve_append fun hm => hname.noSlash (hfront.subset hm), resolve_body hdir]
      rcases @enter_cases dir front with he | he | he <;> simp only [he, List.length_tail, List.length_cons] <;> omega

/-- A path cut short does not lead to where it led. -/
theorem resolve_ne_of_prefix (hd : ∀ n ∈ dir, IsName n) (h : path <+: body dir) (hne : path ≠ body dir) :
    resolve path ≠ dir := by
  cases dir with
  | nil => exact absurd (List.prefix_nil.mp h) hne
  | cons name dir =>
    obtain ⟨hname, hdir⟩ := List.forall_mem_cons.mp hd
    rcases prefix_body_cons h with h | ⟨front, hfront, rfl⟩
    · intro he
      have := length_resolve_le hdir h
      rw [he, List.length_cons] at this
      omega
    · rw [resolve_append fun hm => hname.noSlash (hfront.subset hm), resolve_body hdir]
      rcases @enter_cases dir front with he | he | he <;> rw [he]
      · exact (List.cons_ne_self _ _).symm
      · intro he
        have := congrArg List.length he
        simp only [List.length_tail, List.length_cons] at this
        omega
      · rintro ⟨⟩
        exact hne rfl

/-- Where the script has not come to a directory, or has passed it by. -/
def Missed (target : Path) (path : Bytes) : Prop :=
  path.head? = some SLASH ∧
    ((∃ name deeper, (∀ n ∈ name :: deeper, IsName n) ∧ (∀ n ∈ deeper, ¬EndsInNewline n) ∧
      path = text (name :: deeper ++ target)) ∨ path <+: body target ∧ path ≠ body target)

theorem Missed.resolve_ne (hd : ∀ n ∈ target, IsName n) (h : Missed target path) : resolve path ≠ target := by
  rcases h.2 with ⟨name, deeper, hdeeper, -, rfl⟩ | ⟨hfront, hne⟩
  · have hall : ∀ n ∈ name :: deeper ++ target, IsName n := by
      simpa [or_imp, forall_and] using ⟨(List.forall_mem_cons.mp hdeeper).1, (List.forall_mem_cons.mp hdeeper).2, hd⟩
    rw [resolve_text hall]
    intro he
    have := congrArg List.length he
    simp only [List.cons_append, List.length_cons, List.length_append] at this
    omega
  · exact resolve_ne_of_prefix hd hfront hne

/-- The script never comes to a directory whose name it cuts. -/
theorem Missed.dirnameOf (hd : ∀ n ∈ cut :: up, IsName n) (hcut : EndsInNewline cut) (h : Missed (cut :: up) path) :
    Missed (cut :: up) (dirnameOf path) := by
  refine ⟨(dirnameOf_isPrefix h.1).2, ?_⟩
  rcases h.2 with ⟨name, deeper, hdeeper, hnl, rfl⟩ | ⟨hlead, hne⟩
  · obtain ⟨hname, hrest⟩ := List.forall_mem_cons.mp hdeeper
    have hall : ∀ n ∈ deeper ++ cut :: up, IsName n := by
      intro n hn
      rcases List.mem_append.mp hn with hn | hn
      · exact hrest n hn
      · exact hd n hn
    cases deeper with
    | nil =>
      right
      have hdir : Staging.dirnameOf (text (name :: cut :: up)) = substitution (body (cut :: up)) := by
        rw [Staging.dirnameOf, substitution_newline, dirname_text hname hd]
        rfl
      rw [List.singleton_append, hdir, substitution]
      refine ⟨List.rdropWhile_prefix .., fun he => ?_⟩
      have hne : body (cut :: up) ≠ [] := by simp
      have hlast : (body (cut :: up)).getLast? = some NEWLINE := by
        rw [body_cons, List.append_cons, List.getLast?_append_of_ne_nil _ (hd cut (List.mem_cons_self ..)).notEmpty]
        exact hcut
      rw [List.getLast?_eq_some_getLast hne] at hlast
      exact List.rdropWhile_eq_self_iff.mp he hne (by simpa using hlast)
    | cons inner deeper =>
      obtain ⟨hinner, hnl⟩ := List.forall_mem_cons.mp hnl
      left
      refine ⟨inner, deeper, hrest, hnl, ?_⟩
      rw [List.cons_append, dirnameOf_text hname hall]
      exact fun n hn => by cases hn; exact hinner
  · have hfront := (dirnameOf_isPrefix h.1).1
    refine .inr ⟨hfront.trans hlead, fun he => hne ?_⟩
    rw [he] at hfront
    exact hlead.eq_of_length_le hfront.length_le

/-- The loop comes to an end. -/
theorem stageLoop_ends (h : path.head? = some SLASH) (hfuel : path.length < fuel) :
    ∃ stage, stageLoop probe uid dev fuel path = some stage := by
  induction fuel generalizing path with
  | zero => cases hfuel
  | succ fuel ih =>
    obtain ⟨hfront, hhead⟩ := dirnameOf_isPrefix h
    rw [stageLoop_succ]
    split_ifs with _ _ hup
    · exact ⟨_, rfl⟩
    · exact ⟨_, rfl⟩
    · exact ⟨_, rfl⟩
    · refine ih hhead ?_
      have := hfront.length_le
      have : (dirnameOf path).length ≠ path.length := fun he => hup (hfront.eq_of_length he)
      omega

theorem stageLoop_missed (hd : ∀ n ∈ cut :: up, IsName n) (hcut : EndsInNewline cut) (h : Missed (cut :: up) path)
    {stage : Bytes} (hstage : stageLoop probe uid dev fuel path = some (some stage)) : Missed (cut :: up) stage := by
  induction fuel generalizing path with
  | zero => cases hstage
  | succ fuel ih =>
    rw [stageLoop_succ] at hstage
    split_ifs at hstage
    · cases hstage
    · cases hstage
      exact h
    · cases hstage
    · exact ih (h.dirnameOf hd hcut) hstage

/-- The script ends, and stages nothing in a directory whose name it cuts. -/
theorem stageScript_missed {deeper : Path} (hd : ∀ n ∈ name :: deeper ++ cut :: up, IsName n)
    (hnl : ∀ n ∈ deeper, ¬EndsInNewline n) (hcut : EndsInNewline cut) :
    ∃ stage, stageScript probe uid (text (name :: deeper ++ cut :: up)) = some stage ∧
      stage.map resolve ≠ some (cut :: up) := by
  have hdeeper : ∀ n ∈ name :: deeper, IsName n := fun n hn => hd n (List.mem_append_left _ hn)
  have htarget : ∀ n ∈ cut :: up, IsName n := fun n hn => hd n (List.mem_append_right _ hn)
  have hdest : Missed (cut :: up) (text (name :: deeper ++ cut :: up)) :=
    ⟨head?_text, .inl ⟨name, deeper, hdeeper, hnl, rfl⟩⟩
  have htop := hdest.dirnameOf htarget hcut
  have hstart := htop.dirnameOf htarget hcut
  rw [stageScript]
  cases fsid probe (dirnameOf (text (name :: deeper ++ cut :: up))) with
  | none => exact ⟨none, rfl, by simp⟩
  | some destfs =>
    have hlen := (dirnameOf_isPrefix htop.1).1.length_le.trans (dirnameOf_isPrefix hdest.1).1.length_le
    obtain ⟨stage, hloop⟩ : ∃ stage, stageLoop probe uid destfs
        ((text (name :: deeper ++ cut :: up)).length + 1) (dirnameOf (dirnameOf (text (name :: deeper ++ cut :: up)))) =
          some stage := stageLoop_ends hstart.1 (Nat.lt_succ_of_le hlen)
    refine ⟨_, by simp only [hloop]; rfl, ?_⟩
    intro he
    obtain ⟨chosen, hchosen, hres⟩ := Option.map_eq_some_iff.mp he
    rcases Option.or_eq_some_iff.mp hchosen with rfl | ⟨-, hfall⟩
    · exact (stageLoop_missed htarget hcut hstart hloop).resolve_ne htarget hres
    · rw [stageFallback, Option.ite_none_right_eq_some] at hfall
      cases hfall.2
      exact htop.resolve_ne htarget hres

/-- The walk finds the only directory there is to find. -/
theorem selectFrom_only {destDir : Path} {destFacts : DirFacts} {dirs : List Path} (htarget : target ∈ dirs)
    (hread : probe target = some facts) (hdev : facts.dev = destFacts.dev) (howned : writerOnly facts uid = true)
    (hrest : ∀ dir ∈ dirs, dir ≠ target → probe dir = none) :
    selectFrom probe destDir destFacts uid dirs = some target := by
  induction dirs with
  | nil => cases htarget
  | cons dir dirs ih =>
    obtain ⟨hdir, hdirs⟩ := List.forall_mem_cons.mp hrest
    by_cases he : dir = target
    · subst he
      rw [selectFrom_read hread, if_neg (not_not.mpr hdev), if_pos howned]
    · rw [selectFrom_unread (hdir he)]
      exact ih ((List.mem_cons.mp htarget).resolve_left (Ne.symm he)) hdirs

theorem mem_ancestors (deeper : Path) (name : Bytes) : dir ∈ ancestors (name :: deeper ++ dir) := by
  induction deeper generalizing name with
  | nil => exact List.mem_cons_self ..
  | cons inner deeper ih => exact List.mem_cons_of_mem _ (ih inner)

theorem exists_deepest (h : ∃ n ∈ dir, EndsInNewline n) :
    ∃ deeper cut up, dir = deeper ++ cut :: up ∧ EndsInNewline cut ∧ ∀ n ∈ deeper, ¬EndsInNewline n := by
  induction dir with
  | nil => simp at h
  | cons name dir ih =>
    by_cases hname : EndsInNewline name
    · exact ⟨[], name, dir, rfl, hname, by simp⟩
    · obtain ⟨n, hn, hends⟩ := h
      rcases List.mem_cons.mp hn with rfl | hn
      · exact absurd hends hname
      obtain ⟨deeper, cut, up, rfl, hcut, hnl⟩ := ih ⟨n, hn, hends⟩
      exact ⟨name :: deeper, cut, up, rfl, hcut, List.forall_mem_cons.mpr ⟨hname, hnl⟩⟩

/-- A tree whose top is on another device than its mount point, or in which one directory can be staged in. -/
theorem exists_selectStagingDir (deeper : Path) (name cut : Bytes) (up : Path) (uid : Nat) :
    ∃ probe, selectStagingDir (name :: deeper ++ cut :: up) uid probe = some (cut :: up) := by
  cases deeper with
  | nil =>
    have hup : up ≠ cut :: up := (List.cons_ne_self _ _).symm
    refine ⟨fun dir => if dir = cut :: up then some ⟨uid, 0, 1⟩ else if dir = up then some ⟨uid, 0, 0⟩ else none, ?_⟩
    simp [selectStagingDir, parent, ancestors, selectFrom, mountPointFallback, writerOnly, hup]
  | cons inner deeper =>
    refine ⟨fun dir => if dir = cut :: up ∨ dir = inner :: deeper ++ cut :: up then some ⟨uid, 0, 0⟩ else none, ?_⟩
    simp only [selectStagingDir, parent, List.cons_append, Option.bind_eq_bind, Option.bind_some, or_true, if_true]
    refine selectFrom_only (mem_ancestors deeper inner) (if_pos (.inl rfl)) rfl (by simp [writerOnly]) ?_
    rintro dir hdir hne
    refine if_neg (not_or.mpr ⟨hne, ?_⟩)
    rintro rfl
    exact lt_irrefl _ (length_of_mem_ancestors hdir)

end Cut

variable {destDir stage : Path} {name : Bytes} {uid : Nat} {probe : Probe}

theorem mem_of_admitted (h : Admitted probe uid destDir stage) : stage = destDir ∨ stage ∈ ancestors destDir := by
  rcases h.place with ⟨nearer, farther, hchain, -⟩ | ⟨rfl, -⟩
  · exact .inr (by rw [hchain]; simp)
  · exact .inl rfl

/-- `/o/s`, that a service owns, under `/o`, that its group may write. -/
def serviceTree : Probe := fun dir =>
  if dir = [[115], [111]] then some ⟨1000, 0o700, 1⟩ else if dir = [[111]] then some ⟨0, 0o775, 1⟩
  else if dir = [] then some ⟨0, 0o755, 1⟩ else none

/-- The root alone, root's. -/
def rootTree : Probe := fun dir => if dir = [] then some ⟨0, 0o755, 1⟩ else none

end Staging

end DeployCore
