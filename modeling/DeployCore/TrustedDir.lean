import DeployCore.Disk
import DeployCore.Lib.UnixTree

/-! # Opening a caller's directory (`src/retain/trusted_dir.rs`)

The walk opens `/` and then each component relative to the handle before it, never through a link, and judges every
ancestor with its child and at last the directory itself. Who it guards against is every user but root and the effective
one: none of them may change what the walk went by, whatever else they change in the tree. -/

namespace DeployCore

inductive DirectoryTrustReason
  | notAbsolute
  | notCanonical
  | noFinalComponent
  | symlinkComponent
  | notDirectory
  | untrustedAncestor
  | untrustedOwner
  | groupOrOtherWritable
  | notWritableByEffectiveUser
  deriving DecidableEq

inductive TrustedDirError
  | refusal (path : Bytes) (reason : DirectoryTrustReason)
  | io (path : Bytes) (source : IoError)
  deriving DecidableEq

def GROUP_OR_OTHER_WRITE : Nat := 0o022
def STICKY : Nat := 0o1000
def OWNER_WRITE_SEARCH : Nat := 0o300
def ROOT_UID : Nat := 0

structure DirFacts where
  uid : Nat
  mode : Nat
  deriving DecidableEq

/-- An open directory, and the path it was opened by. -/
structure TrustedDir (Ino : Type) where
  ino : Ino
  path : Bytes
  deriving DecidableEq

/-- The tree as system calls find it, with what makes a call fail for another reason than what stands there. -/
structure OpenTree (Ino : Type) where
  tree : UnixTree.Tree Ino Bytes
  root : Ino
  rootFault : Option IoError
  openFault : Ino → Bytes → Option IoError
  statFault : Ino → Option IoError
  lookFault : Ino → Bytes → Option IoError

def canonicalSegment (segment : Bytes) : Except DirectoryTrustReason Bytes :=
  if segment = [] ∨ segment = [DOT] ∨ segment = [DOT, DOT] then .error .notCanonical else .ok segment

def canonicalComponents (path : Bytes) : Except DirectoryTrustReason (List Bytes) :=
  match path with
  | [] => .error .notAbsolute
  | byte :: rest =>
    if byte ≠ SLASH then .error .notAbsolute
    else if rest = [] then .ok []
    else Checks.collect canonicalSegment (rest.splitOn SLASH)

def judgeAncestor (dir child : DirFacts) (euid : Nat) : Except DirectoryTrustReason Unit :=
  let ownerTrusted := dir.uid = ROOT_UID ∨ dir.uid = euid
  let writableSafely := dir.mode &&& GROUP_OR_OTHER_WRITE = 0 ∨
    (dir.mode &&& STICKY ≠ 0 ∧ dir.uid = ROOT_UID ∧ (child.uid = euid ∨ child.uid = ROOT_UID))
  if ownerTrusted ∧ writableSafely then .ok () else .error .untrustedAncestor

def judgeSelected (dir : DirFacts) (euid : Nat) : Except DirectoryTrustReason Unit :=
  if dir.uid ≠ euid ∧ dir.uid ≠ ROOT_UID then .error .untrustedOwner
  else if dir.mode &&& GROUP_OR_OTHER_WRITE ≠ 0 then .error .groupOrOtherWritable
  else if euid = ROOT_UID ∨ (dir.uid = euid ∧ dir.mode &&& OWNER_WRITE_SEARCH = OWNER_WRITE_SEARCH) then .ok ()
  else .error .notWritableByEffectiveUser

namespace OpenTree
variable {Ino : Type}

/-- `open` of the root, and `openat` of a component, as a directory and not through a link. -/
def openRoot (k : OpenTree Ino) : Except IoError Ino :=
  match k.rootFault with
  | some err => .error err
  | none => if (k.tree.dirFacts k.root).isSome then .ok k.root else .error (.os ENOTDIR)

def openat (k : OpenTree Ino) (parent : Ino) (component : Bytes) : Except IoError Ino :=
  match k.openFault parent component, k.tree.entry parent component with
  | some err, _ => .error err
  | none, none => .error (.os .notFound)
  | none, some child => if (k.tree.dirFacts child).isSome then .ok child else .error (.os ENOTDIR)

def dirFacts (k : OpenTree Ino) (dir : Ino) (path : Bytes) : Except TrustedDirError DirFacts :=
  match k.statFault dir, k.tree.facts dir with
  | some err, _ => .error (.io path err)
  | none, some facts => .ok ⟨facts.uid, facts.mode⟩
  | none, none => .error (.io path (.os .notFound))

/-- What a component that would not open is. -/
def classifyOpenFailure (k : OpenTree Ino) (parent : Ino) (component path : Bytes) (source : IoError) : TrustedDirError :=
  match k.lookFault parent component, (k.tree.entry parent component).bind k.tree with
  | none, some (.symlink _) => .refusal path .symlinkComponent
  | none, some (.other _) => .refusal path .notDirectory
  | _, _ => .io path source

/-- The walk from an open directory on. -/
def openComponents (k : OpenTree Ino) (euid : Nat) :
    (current : Ino) → (path : Bytes) → DirFacts → List Bytes → Except TrustedDirError (TrustedDir Ino)
  | current, path, facts, [] => do
    (judgeSelected facts euid).mapError (.refusal path)
    .ok ⟨current, path⟩
  | current, path, facts, component :: components => do
    let childPath := joinPath path component
    let child ← (k.openat current component).mapError (k.classifyOpenFailure current component childPath)
    let childFacts ← k.dirFacts child childPath
    (judgeAncestor facts childFacts euid).mapError (.refusal path)
    k.openComponents euid child childPath childFacts components

def openTrustedDir (k : OpenTree Ino) (path : Bytes) (euid : Nat) : Except TrustedDirError (TrustedDir Ino) := do
  let components ← (canonicalComponents path).mapError (.refusal path)
  let root ← k.openRoot.mapError (.io [SLASH])
  let facts ← k.dirFacts root [SLASH]
  k.openComponents euid root [SLASH] facts components

end OpenTree

/-! ### The components of a path -/

section Components
variable {path rest segment : Bytes} {names : List Bytes}

/-- A name a walk may go by. -/
structure IsName (name : Bytes) : Prop where
  noSlash : SLASH ∉ name
  notEmpty : name ≠ []
  notDot : name ≠ [DOT]
  notDots : name ≠ [DOT, DOT]

theorem notMem_splitOn : ∀ segment ∈ rest.splitOn SLASH, SLASH ∉ segment := by
  induction rest with
  | nil => simp
  | cons byte rest ih =>
    rw [List.splitOn_cons_eq_if_modifyHead]
    split
    · simpa using ih
    · next hbyte =>
      obtain ⟨front, back, hsplit⟩ := List.exists_cons_of_ne_nil (List.splitOn_ne_nil SLASH rest)
      rw [hsplit] at ih ⊢
      rw [List.modifyHead_cons, List.forall_mem_cons] at *
      refine ⟨?_, ih.2⟩
      rw [List.mem_cons, not_or]
      exact ⟨fun heq => hbyte (by rw [heq]; exact beq_self_eq_true _), ih.1⟩

theorem collect_canonicalSegment {segments : List Bytes} (h : Checks.collect canonicalSegment segments = .ok names) :
    names = segments ∧ ∀ name ∈ names, name ≠ [] ∧ name ≠ [DOT] ∧ name ≠ [DOT, DOT] := by
  have hall := Checks.collect_ok h
  clear h
  induction hall with
  | nil => exact ⟨rfl, fun _ hmem => absurd hmem List.not_mem_nil⟩
  | cons hsegment _ ih =>
    obtain ⟨rfl, hnames⟩ := ih
    unfold canonicalSegment at hsegment
    split at hsegment
    · cases hsegment
    · next hgood =>
      cases hsegment
      rw [not_or, not_or] at hgood
      exact ⟨rfl, List.forall_mem_cons.mpr ⟨hgood, hnames⟩⟩

/-- A path is the root's slash and its components, with one slash between any two. -/
theorem canonicalComponents_ok (h : canonicalComponents path = .ok names) :
    path = SLASH :: [SLASH].intercalate names ∧ ∀ name ∈ names, IsName name := by
  unfold canonicalComponents at h
  split at h
  · cases h
  · next byte rest =>
    split_ifs at h with hbyte hrest
    · cases h
      rw [hrest, not_not.mp hbyte]
      exact ⟨rfl, fun _ hmem => absurd hmem List.not_mem_nil⟩
    · obtain ⟨rfl, hnames⟩ := collect_canonicalSegment h
      rw [List.intercalate_splitOn, not_not.mp hbyte]
      refine ⟨rfl, fun name hmem => ?_⟩
      obtain ⟨hempty, hdot, hdots⟩ := hnames name hmem
      exact ⟨notMem_splitOn name hmem, hempty, hdot, hdots⟩

/-- The path of a component further on. -/
theorem joinPath_name {name : Bytes} (h : path ≠ []) (hlast : path.getLast? ≠ some SLASH) :
    joinPath path name = path ++ SLASH :: name := by
  rw [joinPath, if_neg]
  rintro (hnil | hslash)
  · exact h hnil
  · exact hlast hslash

theorem foldl_joinPath (h : path ≠ []) (hlast : path.getLast? ≠ some SLASH) (hnames : ∀ name ∈ names, IsName name) :
    names.foldl joinPath path = path ++ names.flatMap fun name => SLASH :: name := by
  induction names generalizing path with
  | nil => simp
  | cons name names ih =>
    obtain ⟨hname, hnames⟩ := List.forall_mem_cons.mp hnames
    have hends : (path ++ SLASH :: name).getLast? ≠ some SLASH := by
      rw [List.getLast?_append_of_ne_nil _ (List.cons_ne_nil _ _), List.getLast?_cons]
      rcases List.eq_nil_or_concat name with hnil | ⟨front, byte, rfl⟩
      · exact absurd hnil hname.notEmpty
      · rw [List.concat_eq_append, List.getLast?_concat]
        intro heq
        exact hname.noSlash (by rw [← Option.some.inj heq]; simp)
    rw [List.foldl_cons, joinPath_name h hlast, ih (by simp) hends hnames, List.flatMap_cons, List.append_assoc]

/-- The path the walk ends with is the one it was given. -/
theorem foldl_joinPath_root (h : ∀ name ∈ names, IsName name) :
    names.foldl joinPath [SLASH] = SLASH :: [SLASH].intercalate names := by
  rcases names with _ | ⟨name, names⟩
  · rfl
  · obtain ⟨hname, hnames⟩ := List.forall_mem_cons.mp h
    have hroot : joinPath [SLASH] name = SLASH :: name := rfl
    have hends : (SLASH :: name).getLast? ≠ some SLASH := by
      rcases List.eq_nil_or_concat name with hnil | ⟨front, byte, rfl⟩
      · exact absurd hnil hname.notEmpty
      · rw [List.concat_eq_append, ← List.cons_append, List.getLast?_concat]
        intro heq
        exact hname.noSlash (by rw [← Option.some.inj heq]; simp)
    rw [List.foldl_cons, hroot, foldl_joinPath (List.cons_ne_nil _ _) hends hnames, List.cons_append]
    congr 1
    clear hroot hends hname h
    induction names generalizing name with
    | nil => simp
    | cons next names ih =>
      obtain ⟨-, hnames⟩ := List.forall_mem_cons.mp hnames
      rw [List.intercalate_cons_cons, List.flatMap_cons, ← ih next hnames]
      simp

end Components

/-! ### Whom the walk guards against -/

/-- A user that is neither root nor the effective one. -/
def Stranger (euid : Nat) (c : UnixTree.Creds) : Prop := c.uid ≠ ROOT_UID ∧ c.uid ≠ euid

section Guard
variable {Ino : Type} {t : UnixTree.Tree Ino Bytes} {euid : Nat} {c : UnixTree.Creds}
  {op : UnixTree.Op Ino Bytes} {dir child selected : Ino} {name path : Bytes} {names : List Bytes}
  {f g : UnixTree.Facts} {steps : List (Ino × Bytes × Ino)}

/-- What the policy sees of an inode. -/
def DirFacts.of (f : UnixTree.Facts) : DirFacts := ⟨f.uid, f.mode⟩

/-- Every directory of the walk, judged. -/
def Guarded (t : UnixTree.Tree Ino Bytes) (euid : Nat) : Ino → List Bytes → Ino → Prop
  | dir, [], selected => dir = selected ∧ ∃ f, t.dirFacts dir = some f ∧ judgeSelected (.of f) euid = .ok ()
  | dir, name :: names, selected => ∃ f child g, t.dirFacts dir = some f ∧ t.entry dir name = some child ∧
      t.dirFacts child = some g ∧ judgeAncestor (.of f) (.of g) euid = .ok () ∧ Guarded t euid child names selected

theorem writers_off {mode : Nat} (h : mode &&& GROUP_OR_OTHER_WRITE = 0) : mode.testBit 4 = false ∧ mode.testBit 1 = false := by
  have hgroup := congrArg (Nat.testBit · 4) h
  have hothers := congrArg (Nat.testBit · 1) h
  simp only [Nat.testBit_and, GROUP_OR_OTHER_WRITE, Nat.zero_testBit] at hgroup hothers
  have hbits : Nat.testBit 0o022 4 = true ∧ Nat.testBit 0o022 1 = true := by decide
  rw [hbits.1, Bool.and_true] at hgroup
  rw [hbits.2, Bool.and_true] at hothers
  exact ⟨hgroup, hothers⟩

theorem sticky_on {mode : Nat} (h : mode &&& STICKY ≠ 0) : mode.testBit 9 = true := by
  have hpow : STICKY = 2 ^ 9 := rfl
  rw [hpow, Nat.and_two_pow] at h
  by_contra hoff
  rw [Bool.not_eq_true] at hoff
  rw [hoff] at h
  simp at h

/-- A trusted directory is root's or the effective user's. -/
theorem owner_of_judgeAncestor (h : judgeAncestor (.of f) (.of g) euid = .ok ()) : f.uid = ROOT_UID ∨ f.uid = euid := by
  unfold judgeAncestor at h
  dsimp only at h
  split_ifs at h with hjudged
  exact hjudged.1

theorem owner_of_judgeSelected (h : judgeSelected (.of f) euid = .ok ()) : f.uid = ROOT_UID ∨ f.uid = euid := by
  unfold judgeSelected at h
  split_ifs at h with howner hwriters heffective
  by_contra hnot
  rw [not_or] at hnot
  exact howner ⟨hnot.2, hnot.1⟩

theorem Stranger.ne_owner (h : Stranger euid c) (howner : f.uid = ROOT_UID ∨ f.uid = euid) : c.uid ≠ f.uid := by
  intro heq
  rcases howner with hroot | heffective
  · exact h.1 (heq.trans hroot)
  · exact h.2 (heq.trans heffective)

/-- No stranger writes to the selected directory. -/
theorem judgeSelected_guards (h : Stranger euid c) (hjudged : judgeSelected (.of f) euid = .ok ()) : ¬ f.Grants c 1 := by
  have howner := owner_of_judgeSelected hjudged
  unfold judgeSelected at hjudged
  split_ifs at hjudged with hforeign hwriters heffective
  obtain ⟨hgroup, hothers⟩ := writers_off (not_not.mp hwriters)
  exact UnixTree.not_grants_write h.1 (h.ne_owner howner) hgroup hothers

/-- No stranger takes the next component away from an ancestor: it may not write there, or the sticky bit keeps it from
what is another's. -/
theorem judgeAncestor_guards (h : Stranger euid c) (hdir : t.dirFacts dir = some f) (hentry : t.entry dir name = some child)
    (hchild : t.dirFacts child = some g) (howner : g.uid = ROOT_UID ∨ g.uid = euid)
    (hjudged : judgeAncestor (.of f) (.of g) euid = .ok ()) : ¬ UnixTree.MayRemove c t dir name := by
  have howner' := owner_of_judgeAncestor hjudged
  unfold judgeAncestor at hjudged
  dsimp only at hjudged
  split_ifs at hjudged with hall
  rcases hall.2 with hwriters | ⟨hsticky, -, -⟩
  · obtain ⟨hgroup, hothers⟩ := writers_off hwriters
    exact UnixTree.not_mayRemove_of_not_write hdir (UnixTree.not_grants_write h.1 (h.ne_owner howner') hgroup hothers)
  · exact UnixTree.not_mayRemove_of_sticky hdir (sticky_on hsticky) h.1 (h.ne_owner howner') hentry
      (UnixTree.facts_of_dirFacts hchild) (h.ne_owner howner)

/-- The first directory of a guarded walk, with its owner. -/
theorem Guarded.head (h : Guarded t euid dir names selected) :
    ∃ f, t.dirFacts dir = some f ∧ (f.uid = ROOT_UID ∨ f.uid = euid) := by
  rcases names with _ | ⟨name, names⟩
  · obtain ⟨-, f, hdir, hjudged⟩ := h
    exact ⟨f, hdir, owner_of_judgeSelected hjudged⟩
  · obtain ⟨f, child, g, hdir, -, -, hjudged, -⟩ := h
    exact ⟨f, hdir, owner_of_judgeAncestor hjudged⟩

/-- What no stranger may do to a guarded walk. -/
theorem Guarded.closed (h : Guarded t euid dir names selected) (hc : Stranger euid c) :
    ¬ UnixTree.MayWrite c t selected ∧ ∃ steps, t.walk dir names = some steps ∧ t.resolve dir names = some selected ∧
      ∀ step ∈ steps, t.entry step.1 step.2.1 = some step.2.2 ∧ ¬ UnixTree.MayRemove c t step.1 step.2.1 := by
  induction names generalizing dir with
  | nil =>
    obtain ⟨rfl, f, hdir, hjudged⟩ := h
    exact ⟨UnixTree.not_mayWrite hdir (judgeSelected_guards hc hjudged), [], rfl, rfl, fun _ hmem => by cases hmem⟩
  | cons name names ih =>
    obtain ⟨f, child, g, hdir, hentry, hchild, hjudged, hrest⟩ := h
    obtain ⟨hwrite, steps, hsteps, hselected, hall⟩ := ih hrest
    obtain ⟨g', hg', howner⟩ := hrest.head
    rw [hchild] at hg'
    cases hg'
    have hremove := judgeAncestor_guards hc hdir hentry hchild howner hjudged
    refine ⟨hwrite, (dir, name, child) :: steps, ?_, ?_, List.forall_mem_cons.mpr ⟨⟨hentry, hremove⟩, hall⟩⟩
    · simp only [UnixTree.Tree.walk, hentry, hsteps, Option.bind_eq_bind, Option.bind_some]
    · simp only [UnixTree.Tree.resolve, hentry, hselected, Option.bind_eq_bind, Option.bind_some]

variable [DecidableEq Ino]

/-- A stranger's call leaves the walk as it was: the same entries, and the same judgements. -/
theorem Guarded.apply (h : Guarded t euid dir names selected) (hc : Stranger euid c) (hop : UnixTree.Allowed c t op) :
    Guarded (t.apply op) euid dir names selected ∧ (t.apply op).walk dir names = t.walk dir names ∧
      ∀ name, (t.apply op).entry selected name = t.entry selected name := by
  induction names generalizing dir with
  | nil =>
    obtain ⟨rfl, f, hdir, hjudged⟩ := h
    have hwrite := judgeSelected_guards hc hjudged
    have hdir' := UnixTree.dirFacts_apply hop hc.1 hdir (hc.ne_owner (owner_of_judgeSelected hjudged))
    refine ⟨⟨rfl, f, hdir', hjudged⟩, rfl, fun name => ?_⟩
    exact UnixTree.entry_apply hop (by rw [hdir]; exact Option.some_ne_none f)
      (fun _ => UnixTree.not_mayWrite hdir hwrite) (UnixTree.not_mayRemove_of_not_write hdir hwrite)
  | cons name names ih =>
    obtain ⟨f, child, g, hdir, hentry, hchild, hjudged, hrest⟩ := h
    obtain ⟨hguarded, hwalk, hselected⟩ := ih hrest
    obtain ⟨g', hg', howner⟩ := hrest.head
    rw [hchild] at hg'
    cases hg'
    have hremove := judgeAncestor_guards hc hdir hentry hchild howner hjudged
    have hdir' := UnixTree.dirFacts_apply hop hc.1 hdir (hc.ne_owner (owner_of_judgeAncestor hjudged))
    have hchild' := UnixTree.dirFacts_apply hop hc.1 hchild (hc.ne_owner howner)
    have hentry' : (t.apply op).entry dir name = some child := by
      rw [UnixTree.entry_apply hop (by rw [hdir]; exact Option.some_ne_none f)
        (fun habsent => by rw [hentry] at habsent; cases habsent) hremove, hentry]
    refine ⟨⟨f, child, g, hdir', hentry', hchild', hjudged, hguarded⟩, ?_, hselected⟩
    simp only [UnixTree.Tree.walk, hentry', hentry, Option.bind_eq_bind, Option.bind_some, hwalk]

/-- Nor does any sequence of calls of strangers. -/
theorem Guarded.reached {t' : UnixTree.Tree Ino Bytes} (h : Guarded t euid dir names selected)
    (hreached : UnixTree.Reached (Stranger euid) t t') :
    Guarded t' euid dir names selected ∧ t'.walk dir names = t.walk dir names ∧
      ∀ name, t'.entry selected name = t.entry selected name := by
  induction hreached with
  | refl => exact ⟨h, rfl, fun _ => rfl⟩
  | tail _ hstep ih =>
    obtain ⟨hguarded, hwalk, hselected⟩ := ih
    obtain ⟨c, op, hc, hop, rfl⟩ := hstep
    obtain ⟨hguarded', hwalk', hselected'⟩ := hguarded.apply hc hop
    exact ⟨hguarded', hwalk'.trans hwalk, fun name => (hselected' name).trans (hselected name)⟩

end Guard

/-! ### What an accepted path stands for -/

section Accepted
variable {Ino : Type} {k : OpenTree Ino} {euid : Nat} {current : Ino} {path name : Bytes} {facts : DirFacts}
  {names : List Bytes} {dir : TrustedDir Ino} {f : UnixTree.Facts}

theorem OpenTree.openat_ok {parent child : Ino} (h : k.openat parent name = .ok child) :
    k.tree.entry parent name = some child ∧ ∃ f, k.tree.dirFacts child = some f := by
  unfold openat at h
  split at h
  · cases h
  · cases h
  · next hentry =>
    split_ifs at h with hdirectory
    cases h
    exact ⟨hentry, Option.isSome_iff_exists.mp hdirectory⟩

theorem OpenTree.dirFacts_ok (h : k.dirFacts current path = .ok facts) (hdir : k.tree.dirFacts current = some f) :
    facts = .of f := by
  unfold dirFacts at h
  rw [UnixTree.facts_of_dirFacts hdir] at h
  split at h
  · cases h
  · next heq =>
    cases h
    cases heq
    rfl
  · next heq => cases heq

/-- The walk judges what it goes by, and ends at the directory it hands back. -/
theorem OpenTree.openComponents_ok (hdir : k.tree.dirFacts current = some f)
    (h : k.openComponents euid current path (.of f) names = .ok dir) :
    Guarded k.tree euid current names dir.ino ∧ dir.path = names.foldl joinPath path := by
  induction names generalizing current path f with
  | nil =>
    obtain ⟨⟨⟩, hjudged, h⟩ := Checks.bind_ok h
    cases h
    exact ⟨⟨rfl, f, hdir, Checks.mapError_ok.mp hjudged⟩, rfl⟩
  | cons name names ih =>
    obtain ⟨child, hopen, h⟩ := Checks.bind_ok h
    obtain ⟨childFacts, hfacts, h⟩ := Checks.bind_ok h
    obtain ⟨⟨⟩, hjudged, h⟩ := Checks.bind_ok h
    obtain ⟨hentry, g, hchild⟩ := openat_ok (Checks.mapError_ok.mp hopen)
    obtain rfl := dirFacts_ok hfacts hchild
    obtain ⟨hguarded, hpath⟩ := ih hchild h
    exact ⟨⟨f, child, g, hdir, hentry, hchild, Checks.mapError_ok.mp hjudged, hguarded⟩, hpath⟩

theorem OpenTree.openTrustedDir_ok (h : k.openTrustedDir path euid = .ok dir) :
    ∃ names, canonicalComponents path = .ok names ∧ dir.path = path ∧ Guarded k.tree euid k.root names dir.ino := by
  obtain ⟨names, hnames, h⟩ := Checks.bind_ok h
  obtain ⟨root, hroot, h⟩ := Checks.bind_ok h
  obtain ⟨facts, hfacts, h⟩ := Checks.bind_ok h
  have hroot := Checks.mapError_ok.mp hroot
  unfold openRoot at hroot
  split at hroot
  · cases hroot
  · split_ifs at hroot with hdirectory
    cases hroot
    obtain ⟨f, hf⟩ := Option.isSome_iff_exists.mp hdirectory
    obtain rfl := dirFacts_ok hfacts hf
    obtain ⟨hguarded, hpath⟩ := openComponents_ok hf h
    have hnames := Checks.mapError_ok.mp hnames
    obtain ⟨hcanonical, hall⟩ := canonicalComponents_ok hnames
    exact ⟨names, hnames, by rw [hpath, foldl_joinPath_root hall, ← hcanonical], hguarded⟩

/-- A path that is accepted has been walked component by component, and in every tree that strangers can make of the one
it was accepted in, no stranger may write to the directory or take away or replace an entry of the walk; all of these
entries stand for what they did. -/
theorem openTrustedDir_guards [DecidableEq Ino] (k : OpenTree Ino) (path : Bytes) (euid : Nat) (dir : TrustedDir Ino)
    (h : k.openTrustedDir path euid = .ok dir) :
    ∃ names steps, path = SLASH :: [SLASH].intercalate names ∧ (∀ name ∈ names, IsName name) ∧ dir.path = path ∧
      k.tree.walk k.root names = some steps ∧ k.tree.resolve k.root names = some dir.ino ∧
      ∀ t, UnixTree.Reached (Stranger euid) k.tree t →
        t.walk k.root names = some steps ∧ (∀ name, t.entry dir.ino name = k.tree.entry dir.ino name) ∧
        ∀ c, Stranger euid c → ¬ UnixTree.MayWrite c t dir.ino ∧
          ∀ step ∈ steps, t.entry step.1 step.2.1 = some step.2.2 ∧ ¬ UnixTree.MayRemove c t step.1 step.2.1 := by
  obtain ⟨names, hnames, hpath, hguarded⟩ := k.openTrustedDir_ok h
  obtain ⟨hcanonical, hall⟩ := canonicalComponents_ok hnames
  -- any stranger shows what the walk goes by; there is always one
  have hstranger : Stranger euid ⟨euid + 1, []⟩ := ⟨Nat.succ_ne_zero euid, Nat.succ_ne_self euid⟩
  obtain ⟨-, steps, hsteps, hselected, -⟩ := hguarded.closed hstranger
  refine ⟨names, steps, hcanonical, hall, hpath, hsteps, hselected, fun t hreached => ?_⟩
  obtain ⟨hguarded', hwalk, hentries⟩ := hguarded.reached hreached
  refine ⟨hwalk.trans hsteps, hentries, fun c hc => ?_⟩
  obtain ⟨hwrite, steps', hsteps', -, hclosed⟩ := hguarded'.closed hc
  rw [hwalk, hsteps, Option.some.injEq] at hsteps'
  exact ⟨hwrite, hsteps' ▸ hclosed⟩

/-- A private directory under a sticky one. -/
def stickyTree : OpenTree Nat where
  tree
    | 0 => some (.directory ⟨0, 0, 0o755⟩ fun name => if name = asBytes "tmp" then some 1 else none)
    | 1 => some (.directory ⟨0, 0, 0o1777⟩ fun name => if name = asBytes "stage" then some 2 else none)
    | 2 => some (.directory ⟨1000, 1000, 0o700⟩ fun _ => none)
    | _ => none
  root := 0
  rootFault := none
  openFault _ _ := none
  statFault _ := none
  lookFault _ _ := none

theorem openTrustedDir_guards_sticky : ∃ names steps, asBytes "/tmp/stage" = SLASH :: [SLASH].intercalate names ∧
    stickyTree.tree.walk 0 names = some steps ∧ ∀ c, Stranger 1000 c → ¬ UnixTree.MayWrite c stickyTree.tree 2 := by
  have hopen : stickyTree.openTrustedDir (asBytes "/tmp/stage") 1000 = .ok ⟨2, asBytes "/tmp/stage"⟩ := by decide +kernel
  obtain ⟨names, steps, hpath, -, -, hsteps, -, hreached⟩ := openTrustedDir_guards stickyTree _ 1000 _ hopen
  exact ⟨names, steps, hpath, hsteps, fun c hc => ((hreached _ Relation.ReflTransGen.refl).2.2 c hc).1⟩

end Accepted

end DeployCore
