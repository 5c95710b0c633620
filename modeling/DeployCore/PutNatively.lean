import DeployCore.Staging
import DeployCore.Elevation
import DeployCore.Lib.CrashCompose
import DeployCore.Lib.Links

/-! # Landing a file by system calls (`src/executor.rs`)

`put_file_natively` as a program that may fail or be interrupted at every system call. A name stands for an inode, and
what is done through the open file is done to the inode. What the host tells before anything is created (`stat`, `id`)
is a parameter. -/

namespace DeployCore
open Staging Crash

def STAGING_TEMP_MODE : Nat := 0o600

/-- The bits a mode keeps when it is set. -/
def MODE_BITS : Nat := 0o7777

structure LandedFile where
  contents : Bytes
  uid : Nat
  gid : Nat
  mode : Nat
  deriving DecidableEq

/-- An inode; the number tells the links, sockets and devices apart. -/
inductive FileNode
  | file (file : LandedFile)
  | directory
  | other (tag : Nat)
  deriving DecidableEq

/-- The entries a landing may meet, by their paths. -/
structure FileTree where
  dir : Links.Dir Staging.Path FileNode
  valid : ∀ {path ino}, dir.find path = some ino → ino < dir.nodes.length

namespace FileTree
variable {t : FileTree} {path path' : Staging.Path} {ino ino' : Nat} {node : FileNode} {f : FileNode → FileNode}

/-- What stands at a path. -/
def look (t : FileTree) (path : Staging.Path) : Option FileNode := (t.dir.find path).bind fun ino => t.dir.nodes[ino]?

/-- The number of the next inode. -/
def fresh (t : FileTree) : Nat := t.dir.nodes.length

def create (t : FileTree) (path : Staging.Path) (node : FileNode) : FileTree where
  dir := t.dir.create path node
  valid := by
    intro path' ino h
    rw [Links.Dir.length_create]
    by_cases hpath : path' = path
    · subst hpath
      rw [Links.Dir.find_create_self] at h
      cases h
      exact Nat.lt_succ_self _
    · rw [Links.Dir.find_create_ne hpath] at h
      exact (t.valid h).trans (Nat.lt_succ_self _)

def modify (t : FileTree) (ino : Nat) (f : FileNode → FileNode) : FileTree where
  dir := t.dir.modify ino f
  valid := by
    intro path ino' h
    rw [Links.Dir.length_modify]
    exact t.valid h

def unlink (t : FileTree) (path : Staging.Path) : FileTree where
  dir := t.dir.unlink path
  valid := by
    intro path' ino h
    by_cases hpath : path' = path
    · subst hpath
      rw [Links.Dir.find_unlink_self] at h
      cases h
    · rw [Links.Dir.find_unlink_ne hpath] at h
      exact t.valid h

/-- The tree with an entry under another name. -/
def move (t : FileTree) (source dest : Staging.Path) (ino : Nat) (h : t.dir.find source = some ino) : FileTree where
  dir := (t.dir.unlink source).link dest ino
  valid := by
    intro path ino' hpath
    by_cases hdest : path = dest
    · subst hdest
      rw [Links.Dir.find_link_self] at hpath
      cases hpath
      exact t.valid h
    · rw [Links.Dir.find_link_ne hdest] at hpath
      exact (t.unlink source).valid hpath

end FileTree

/-- The system calls of a landing. -/
inductive LandingOp
  | createNew (path : Staging.Path) (mode : Nat)
  | writeAll (file : Nat) (contents : Bytes)
  | fchown (file uid gid : Nat)
  | setPermissions (file mode : Nat)
  | syncAll (file : Nat)
  | rename (source dest : Staging.Path)
  | removeFile (path : Staging.Path)
  | syncDir (path : Staging.Path)

/-- What a call returns: `create_new` the open file, by its inode. -/
abbrev LandingOp.Out : LandingOp → Type
  | .createNew _ _ => Nat
  | _ => Unit

abbrev LandingRes (o : LandingOp) : Type := Except IoError o.Out

/-- Whose a new file is, and what its mode is cut by. -/
structure Creator where
  uid : Nat
  gid : Nat
  umask : Nat
  deriving DecidableEq

/-- The file a creation makes. -/
def Creator.file (c : Creator) (mode : Nat) : LandedFile := ⟨[], c.uid, c.gid, mode - (mode &&& c.umask)⟩

def FileNode.onFile (f : LandedFile → LandedFile) : FileNode → FileNode
  | file landed => file (f landed)
  | node => node

def LandedFile.append (bytes : Bytes) (file : LandedFile) : LandedFile := { file with contents := file.contents ++ bytes }
def LandedFile.chown (uid gid : Nat) (file : LandedFile) : LandedFile := { file with uid, gid }
def LandedFile.chmod (mode : Nat) (file : LandedFile) : LandedFile := { file with mode := mode &&& MODE_BITS }

def isDirectoryError : IoError := .os EISDIR

/-- `rename(2)`, which replaces what is at the destination unless it is a directory, and does nothing where both names
stand for one file. -/
def FileTree.rename (t : FileTree) (source dest : Staging.Path) : Except IoError FileTree :=
  match h : t.dir.find source with
  | none => .error (.os .notFound)
  | some ino =>
    if t.dir.find dest = some ino then .ok t
    else if t.look dest = some .directory then .error isDirectoryError
    else .ok (t.move source dest ino h)

def FileTree.removeFile (t : FileTree) (path : Staging.Path) : Except IoError FileTree :=
  if t.dir.find path = none then .error (.os .notFound)
  else if t.look path = some .directory then .error isDirectoryError
  else .ok (t.unlink path)

/-- A call's result, and the tree where it is carried out. -/
def carriedOut (t : FileTree) (r : Except IoError FileTree) : Except IoError Unit × FileTree :=
  match r with
  | .ok t' => (.ok (), t')
  | .error e => (.error e, t)

/-- What a call that is carried out returns and leaves. -/
def LandingOp.run (c : Creator) : (o : LandingOp) → FileTree → LandingRes o × FileTree
  | .createNew path mode, t =>
    if t.dir.find path = none then (.ok t.fresh, t.create path (.file (c.file mode)))
    else (.error (.os EEXIST), t)
  | .writeAll file contents, t => (.ok (), t.modify file (.onFile (.append contents)))
  | .fchown file uid gid, t => (.ok (), t.modify file (.onFile (.chown uid gid)))
  | .setPermissions file mode, t => (.ok (), t.modify file (.onFile (.chmod mode)))
  | .syncAll _, t => (.ok (), t)
  | .rename source dest, t => carriedOut t (t.rename source dest)
  | .removeFile path, t => carriedOut t (t.removeFile path)
  | .syncDir _, t => (.ok (), t)

/-- What a call that is not carried out leaves: all as it was, but for the bytes a write has put down. -/
inductive LandingOp.Torn : LandingOp → FileTree → FileTree → Prop
  | unchanged {o t} : Torn o t t
  | written {file contents n t} :
      Torn (.writeAll file contents) t (t.modify file (.onFile (.append (contents.take n))))

def landingDevice (c : Creator) : Device LandingOp LandingRes FileTree where
  run o t := o.run c t
  fault _ r := ∃ e, r = .error e
  torn := LandingOp.Torn

/-! ## The host's answers -/

inductive PutFileError
  | io (path : Staging.Path) (source : IoError)
  | transfer (path : Bytes) (reason : String)
  | executor (error : ExecutorError)
  deriving DecidableEq

/-- What `stat` tells of a path. -/
structure Metadata where
  isDir : Bool
  facts : Staging.DirFacts
  deriving DecidableEq

/-- The answers a landing goes by before it creates anything. -/
structure LandingHost where
  currentUid : Option Nat
  metadata : Staging.Path → Except IoError Metadata
  run : List Bytes → Except ExecutorError CommandOutput
  pid : Nat
  counter : Nat

def ID : Bytes := asBytes "id"

namespace LandingHost

/-- `current_uid`. -/
def uid (host : LandingHost) : Except PutFileError Nat :=
  match host.currentUid with
  | some uid => .ok uid
  | none => .error (.transfer ID "could not read the current uid")

/-- The facts the walk is given, of what is a directory. -/
def probe (host : LandingHost) : Probe := fun dir =>
  match host.metadata dir with
  | .ok found => if found.isDir then some found.facts else none
  | .error _ => none

def stagingDir (host : LandingHost) (dest : Staging.Path) : Except PutFileError Staging.Path := do
  let uid ← host.uid
  if let some destDir := parent dest then
    let _ ← (host.metadata destDir).mapError (.io dest)
  match selectStagingDir dest uid host.probe with
  | some stage => .ok stage
  | none => .error (.transfer (text dest) "no staging directory only the writer can write on the destination's filesystem, above the destination's directory or at that directory as a mount point")

end LandingHost

inductive IdKind
  | user
  | group
  deriving DecidableEq

def IdKind.flag : IdKind → Bytes
  | .user => asBytes "-u"
  | .group => asBytes "-g"

/-- `str::parse::<u32>`. -/
def parseU32 : Bytes → Option Nat
  | [] => none
  | [43] => none
  | 43 :: digits => Decimal.read (2 ^ 32) 0 digits
  | digits => Decimal.read (2 ^ 32) 0 digits

def parseId (output : CommandOutput) (account : Bytes) : Except PutFileError Nat :=
  match (parseU32 (asBytes (lossyTrim output.stdout))).filter fun _ => output.code = some 0 with
  | some id => .ok id
  | none => .error (.transfer account (lossyTrim output.stderr))

/-- The account `id` is asked for. -/
def LandingHost.lookUp (host : LandingHost) (account : Bytes) (kind : IdKind) : Except PutFileError Nat := do
  let output ← (host.run [kind.flag, account]).mapError .executor
  parseId output account

def LandingHost.numericId (host : LandingHost) (principal : Principal) (kind : IdKind) : Except PutFileError Nat :=
  match principal with
  | .root => .ok ROOT_ID
  | .service account => host.lookUp account.asStr kind
  | .container account => host.lookUp account.asStr kind

/-! ## The landing -/

abbrev LandingProg := Prog LandingOp LandingRes

/-- One call, whose failure ends the sequence. -/
def call (o : LandingOp) : LandingProg IoError o.Out := do
  let r ← Prog.perform o
  Prog.lift r

/-- From the creation of the temporary to the rename. -/
def landing (temp dest : Staging.Path) (contents : Bytes) (uid gid mode : Nat) : LandingProg IoError Unit := do
  let file : Nat ← call (.createNew temp STAGING_TEMP_MODE)
  call (.writeAll file contents)
  call (.fchown file uid gid)
  call (.setPermissions file mode)
  call (.syncAll file)
  call (.rename temp dest)

def LandingHost.tempName (host : LandingHost) : Bytes :=
  asBytes ".bootler." ++ Decimal.write host.pid ++ asBytes "." ++ Decimal.write host.counter ++ asBytes ".tmp"

/-- Where the file is staged and whose it becomes. -/
structure LandingPlan where
  temp : Staging.Path
  uid : Nat
  gid : Nat
  deriving DecidableEq

def LandingHost.plan (host : LandingHost) (dest : Staging.Path) (m : FileMeta) : Except PutFileError LandingPlan := do
  let stage ← host.stagingDir dest
  let uid ← host.numericId m.owner .user
  let gid ← host.numericId m.group .group
  .ok ⟨host.tempName :: stage, uid, gid⟩

/-- After the sequence: the cleanup where it failed, and the flush of the destination's directory where it did not. -/
def LandingPlan.finish (plan : LandingPlan) (dest : Staging.Path) (landed : Except IoError Unit) :
    LandingProg PutFileError Unit :=
  match landed with
  | .error source => do
    let _ ← Prog.perform (LandingOp.removeFile plan.temp)
    .fail (.io dest source)
  | .ok () => do
    let synced ← Prog.perform (LandingOp.syncDir dest.tail)
    Prog.lift (Except.mapError (.io dest.tail) synced)

def putFileNatively (host : LandingHost) (dest : Staging.Path) (contents : Bytes) (m : FileMeta) :
    LandingProg PutFileError Unit := do
  let plan ← Prog.lift (host.plan dest m)
  let landed ← (landing plan.temp dest contents plan.uid plan.gid m.mode).attempt
  plan.finish dest landed

/-! ## What a landing may do -/

/-- The file asked for. -/
def LandingPlan.asked (plan : LandingPlan) (contents : Bytes) (m : FileMeta) : LandedFile :=
  ⟨contents, plan.uid, plan.gid, m.mode &&& MODE_BITS⟩

abbrev LandingEvent := Event LandingOp LandingRes FileTree

abbrev LandingWorld := World LandingOp LandingRes FileTree

/-- The name a call has created a file under. -/
def created : LandingEvent → Option Staging.Path
  | ⟨.createNew path _, _, some (.ok _)⟩ => some path
  | _ => none

/-- Whether a call has renamed. -/
def renamed : LandingEvent → Bool
  | ⟨.rename _ _, _, some (.ok _)⟩ => true
  | _ => false

/-- Whether an unlink has failed. -/
def unlinkFailed : LandingEvent → Bool
  | ⟨.removeFile _, _, some (.error _)⟩ => true
  | _ => false

/-- The names a run has created files under. -/
def Created (w : LandingWorld) (path : Staging.Path) : Prop := ∃ e ∈ w.events, created e = some path

def Renamed (w : LandingWorld) : Prop := ∃ e ∈ w.events, renamed e = true

/-- The cleanup has removed what there was to remove. -/
def Cleaned (w : LandingWorld) : Prop := (∀ e ∈ w.events, unlinkFailed e = false) ∨ ∀ path, ¬Created w path

/-- A run of a landing, ended, failed or interrupted at any moment, leaves the destination as it was or as asked for;
one that fails before the rename leaves it as it was and no file it created; none changes any other entry but one that it
created itself. -/
structure LandsSafely (c : Creator) (host : LandingHost) (t : FileTree) (dest : Staging.Path) (contents : Bytes)
    (m : FileMeta) : Prop where
  whole : ∀ {out w}, Runs (landingDevice c) (putFileNatively host dest contents m) ⟨t, []⟩ out w →
    w.state.look dest = t.look dest ∨
      ∃ plan, host.plan dest m = .ok plan ∧ w.state.look dest = some (.file (plan.asked contents m))
  failed : ∀ {e w}, Runs (landingDevice c) (putFileNatively host dest contents m) ⟨t, []⟩ (.error e) w → ¬Renamed w →
    Cleaned w → w.state.look dest = t.look dest ∧ ∀ path, Created w path → w.state.look path = none
  others : ∀ {out w}, Runs (landingDevice c) (putFileNatively host dest contents m) ⟨t, []⟩ out w → ∀ path,
    path ≠ dest → ¬Created w path → w.state.look path = t.look path

/-- The temporary's name is free, and is not the destination's but where the file a creation makes is the one asked for;
or a directory has it. -/
def Unclaimed (c : Creator) (t : FileTree) (dest : Staging.Path) (plan : LandingPlan) (contents : Bytes) (m : FileMeta) :
    Prop :=
  match t.look plan.temp with
  | none => plan.temp ≠ dest ∨ c.file STAGING_TEMP_MODE = plan.asked contents m
  | some node => node = .directory

section Look
variable {t : FileTree} {path path' dest : Staging.Path} {ino ino' : Nat} {node : FileNode} {f : FileNode → FileNode}

namespace FileTree

theorem look_eq_none : t.look path = none ↔ t.dir.find path = none := by
  cases hfind : t.dir.find path with
  | none => simp [look, hfind]
  | some ino => simp [look, hfind, t.valid hfind]

theorem look_of_find (h : t.dir.find path = some ino) : t.look path = t.dir.nodes[ino]? := by
  rw [look, h, Option.bind_some]

theorem find_ne_fresh : t.dir.find path ≠ some t.fresh :=
  fun h => lt_irrefl _ (t.valid h)

theorem look_create_self : (t.create path node).look path = some node := by
  rw [look_of_find Links.Dir.find_create_self]
  exact Links.Dir.nodes_create_new

theorem look_create_ne (h : path' ≠ path) : (t.create path node).look path' = t.look path' := by
  cases hfind : t.dir.find path' with
  | none => rw [look_eq_none.mpr hfind, look_eq_none, ← hfind]; exact Links.Dir.find_create_ne h
  | some ino =>
    rw [look_of_find hfind, look_of_find ((Links.Dir.find_create_ne h).trans hfind)]
    exact Links.Dir.nodes_create (t.valid hfind)

theorem look_modify_self (h : t.dir.find path = some ino) (hnode : t.look path = some node) :
    (t.modify ino f).look path = some (f node) := by
  rw [look_of_find h] at hnode
  exact (look_of_find (t := t.modify ino f) h).trans (Links.Dir.nodes_modify_self hnode)

theorem look_modify_ne (h : t.dir.find path ≠ some ino) : (t.modify ino f).look path = t.look path := by
  cases hfind : t.dir.find path with
  | none => rw [look_eq_none.mpr hfind, look_eq_none]; exact hfind
  | some ino' =>
    rw [look_of_find hfind, look_of_find (t := t.modify ino f) hfind]
    exact Links.Dir.nodes_modify_ne fun he => h (he ▸ hfind)

theorem look_unlink_self : (t.unlink path).look path = none :=
  look_eq_none.mpr Links.Dir.find_unlink_self

theorem look_unlink_ne (h : path' ≠ path) : (t.unlink path).look path' = t.look path' := by
  have hfind : (t.unlink path).dir.find path' = t.dir.find path' := Links.Dir.find_unlink_ne h
  rw [look, look, hfind]
  rfl

/-- The tree with one new file, under a name that was free. -/
structure Staged (t : FileTree) (temp : Staging.Path) (file : LandedFile) (t' : FileTree) : Prop where
  find : t'.dir.find temp = some t.fresh
  look : t'.look temp = some (.file file)
  findOther : ∀ {path}, path ≠ temp → t'.dir.find path = t.dir.find path
  lookOther : ∀ {path}, path ≠ temp → t'.look path = t.look path

section Staged
variable {temp : Staging.Path} {file : LandedFile} {t' t'' : FileTree}

theorem staged_create : t.Staged path file (t.create path (.file file)) :=
  ⟨Links.Dir.find_create_self, look_create_self, fun h => Links.Dir.find_create_ne h, look_create_ne⟩

theorem Staged.modify (h : t.Staged temp file t') (f : LandedFile → LandedFile) :
    t.Staged temp (f file) (t'.modify t.fresh (.onFile f)) := by
  refine ⟨h.find, look_modify_self h.find h.look, h.findOther, fun hpath => ?_⟩
  rw [look_modify_ne, h.lookOther hpath]
  rw [h.findOther hpath]
  exact find_ne_fresh

theorem look_move_dest (h : t.dir.find path = some ino) : (t.move path dest ino h).look dest = t.look path := by
  rw [look_of_find h]
  exact look_of_find (t := t.move path dest ino h) Links.Dir.find_link_self

theorem look_move_ne (h : t.dir.find path = some ino) (hdest : path' ≠ dest) (hpath : path' ≠ path) :
    (t.move path dest ino h).look path' = t.look path' := by
  have hfind : (t.move path dest ino h).dir.find path' = t.dir.find path' :=
    (Links.Dir.find_link_ne hdest).trans (Links.Dir.find_unlink_ne hpath)
  rw [look, look, hfind]
  rfl

theorem rename_of_find (h : t.dir.find path = some ino) (hok : t.rename path dest = .ok t') :
    (t.dir.find dest = some ino ∧ t' = t) ∨ t' = t.move path dest ino h := by
  unfold rename at hok
  split at hok
  · next hnone => rw [h] at hnone; cases hnone
  · next ino' hfind =>
    rw [h] at hfind
    cases hfind
    split_ifs at hok with hsame
    · cases hok
      exact .inl ⟨hsame, rfl⟩
    · cases hok
      exact .inr rfl

/-- A rename of the new file puts it at the destination and leaves all else. -/
theorem Staged.rename (h : t.Staged temp file t') (hok : t'.rename temp dest = .ok t'') :
    t''.look dest = some (.file file) ∧ ∀ path, path ≠ dest → path ≠ temp → t''.look path = t.look path := by
  rcases rename_of_find h.find hok with ⟨hsame, rfl⟩ | rfl
  · have hdest : dest = temp := by
      by_contra hne
      rw [h.findOther hne] at hsame
      exact find_ne_fresh hsame
    subst hdest
    exact ⟨h.look, fun path hne _ => h.lookOther hne⟩
  · refine ⟨by rw [look_move_dest, h.look], fun path hdest htemp => ?_⟩
    rw [look_move_ne h.find hdest htemp, h.lookOther htemp]

/-- Once the new file is unlinked, nothing is left of it. -/
theorem Staged.unlink (hfree : t.look temp = none) (h : t.Staged temp file t') : (t'.unlink temp).look = t.look := by
  funext path
  by_cases hpath : path = temp
  · rw [hpath, look_unlink_self, hfree]
  · rw [look_unlink_ne hpath, h.lookOther hpath]

theorem removeFile_ok (hok : t.removeFile path = .ok t') : t' = t.unlink path := by
  unfold removeFile at hok
  split_ifs at hok
  cases hok
  rfl

end Staged

end FileTree

end Look

section Calls
variable {c : Creator} {o : LandingOp} {t t' : FileTree} {w : LandingWorld} {stop : LandingWorld → Prop}

theorem run_error {e : IoError} (h : o.run c t = (.error e, t')) : t' = t := by
  cases o with
  | createNew path mode =>
    rw [LandingOp.run] at h
    split_ifs at h
    · cases h
    · exact (Prod.mk.inj h).2.symm
  | rename source dest =>
    rw [LandingOp.run] at h
    cases hr : t.rename source dest <;> rw [hr] at h <;> cases h
    rfl
  | removeFile path =>
    rw [LandingOp.run] at h
    cases hr : t.removeFile path <;> rw [hr] at h <;> cases h
    rfl
  | writeAll | fchown | setPermissions | syncAll | syncDir => cases h

/-- A call that ends is carried out or leaves what one that is not may leave. -/
theorem ends_cases {r : LandingRes o} (h : (landingDevice c).Ends o t r t') :
    (∃ a, r = .ok a ∧ o.run c t = (.ok a, t')) ∨ ∃ e, r = .error e ∧ o.Torn t t' := by
  rcases h with h | ⟨⟨e, rfl⟩, htorn⟩
  · have hrun : o.run c t = (r, t') := h.symm
    cases r with
    | ok a => exact .inl ⟨a, rfl, hrun⟩
    | error e =>
      cases run_error hrun
      exact .inr ⟨e, rfl, .unchanged⟩
  · exact .inr ⟨e, rfl, htorn⟩

/-- One call of a sequence: what holds where it is not carried out, and what the rest needs where it is. -/
theorem wp_call {β : Type} {post : Except IoError β → LandingWorld → Prop} {next : o.Out → LandingProg IoError β}
    (hstop : stop w) (hcut : ∀ t', o.Torn w.state t' → stop (w.record o none t'))
    (herr : ∀ t' e, o.Torn w.state t' →
      stop (w.record o (some (.error e)) t') ∧ post (.error e) (w.record o (some (.error e)) t'))
    (hok : ∀ a t', o.run c w.state = (.ok a, t') →
      wp (landingDevice c) post stop ((next a).attempt : LandingProg PutFileError _) (w.record o (some (.ok a)) t')) :
    wp (landingDevice c) post stop ((call o >>= next).attempt : LandingProg PutFileError _) w := by
  refine ⟨hstop, hcut, fun r t' hends => ?_⟩
  rcases ends_cases hends with ⟨a, rfl, hrun⟩ | ⟨e, rfl, htorn⟩
  · exact hok a t' hrun
  · exact herr t' e htorn

end Calls

/-! ## Every moment of a landing -/

section Moments
variable {c : Creator} {host : LandingHost} {t t' : FileTree} {dest temp path : Staging.Path} {plan : LandingPlan}
  {contents : Bytes} {m : FileMeta} {w : LandingWorld} {o : LandingOp} {r : Option (LandingRes o)} {asked file file' : LandedFile}

theorem created_record : Created (w.record o r t') path ↔ Created w path ∨ created ⟨o, w.state, r⟩ = some path := by
  simp [Created, or_and_right, exists_or]

theorem renamed_record : Renamed (w.record o r t') ↔ Renamed w ∨ renamed ⟨o, w.state, r⟩ = true := by
  simp [Renamed, or_and_right, exists_or]

/-- The calls that neither create nor rename. -/
def LandingOp.Quiet (o : LandingOp) : Prop :=
  ∀ t (r : Option (LandingRes o)), created ⟨o, t, r⟩ = none ∧ renamed ⟨o, t, r⟩ = false

theorem quiet_writeAll {n : Nat} : (LandingOp.writeAll n contents).Quiet := fun _ _ => ⟨rfl, rfl⟩
theorem quiet_fchown {n uid gid : Nat} : (LandingOp.fchown n uid gid).Quiet := fun _ _ => ⟨rfl, rfl⟩
theorem quiet_setPermissions {n mode : Nat} : (LandingOp.setPermissions n mode).Quiet := fun _ _ => ⟨rfl, rfl⟩
theorem quiet_syncAll {n : Nat} : (LandingOp.syncAll n).Quiet := fun _ _ => ⟨rfl, rfl⟩
theorem quiet_removeFile : (LandingOp.removeFile path).Quiet := fun _ _ => ⟨rfl, rfl⟩

/-- The destination is as it was or as asked for, and no other entry has changed but one created. -/
structure Whole (t : FileTree) (dest : Staging.Path) (asked : LandedFile) (w : LandingWorld) : Prop where
  target : w.state.look dest = t.look dest ∨ w.state.look dest = some (.file asked)
  others : ∀ path, path ≠ dest → ¬Created w path → w.state.look path = t.look path

/-- Nothing has been done yet. -/
structure Untouched (t : FileTree) (w : LandingWorld) : Prop where
  state : w.state.look = t.look
  noneCreated : ∀ path, ¬Created w path
  notRenamed : ¬Renamed w

/-- The temporary is there. -/
structure InStage (t : FileTree) (dest temp : Staging.Path) (asked file : LandedFile) (w : LandingWorld) : Prop where
  staged : t.Staged temp file w.state
  same : temp = dest → file = asked
  creates : ∀ path, Created w path ↔ path = temp
  notRenamed : ¬Renamed w

/-- The file is at the destination. -/
structure Landed (t : FileTree) (dest temp : Staging.Path) (asked : LandedFile) (w : LandingWorld) : Prop where
  target : w.state.look dest = some (.file asked)
  others : ∀ path, path ≠ dest → path ≠ temp → w.state.look path = t.look path
  creates : Created w temp
  renames : Renamed w

theorem Untouched.whole (h : Untouched t w) : Whole t dest asked w :=
  ⟨.inl (by rw [h.state]), fun _ _ _ => by rw [h.state]⟩

theorem Untouched.record (h : Untouched t w) (ht : t'.look = w.state.look) (hcreated : created ⟨o, w.state, r⟩ = none)
    (hrenamed : renamed ⟨o, w.state, r⟩ = false) : Untouched t (w.record o r t') := by
  refine ⟨ht.trans h.state, fun path => ?_, ?_⟩
  · rw [created_record, hcreated]
    simpa using h.noneCreated path
  · rw [renamed_record, hrenamed]
    simpa using h.notRenamed

theorem InStage.whole (h : InStage t dest temp asked file w) : Whole t dest asked w := by
  constructor
  · by_cases hdest : dest = temp
    · right
      rw [hdest, h.staged.look, h.same hdest.symm]
    · exact .inl (h.staged.lookOther hdest)
  · intro path _ hpath
    exact h.staged.lookOther fun he => hpath ((h.creates path).mpr he)

theorem InStage.record (h : InStage t dest temp asked file w) (hcreated : created ⟨o, w.state, r⟩ = none)
    (hrenamed : renamed ⟨o, w.state, r⟩ = false) (hstaged : t.Staged temp file' t')
    (hsame : temp = dest → file' = asked) : InStage t dest temp asked file' (w.record o r t') := by
  refine ⟨hstaged, hsame, fun path => ?_, ?_⟩
  · rw [created_record, hcreated]
    simpa using h.creates path
  · rw [renamed_record, hrenamed]
    simpa using h.notRenamed

theorem Landed.whole (h : Landed t dest temp asked w) : Whole t dest asked w :=
  ⟨.inr h.target, fun path hdest hpath => h.others path hdest fun he => hpath (he ▸ h.creates)⟩

/-- What the sequence leaves: the file at the destination, or the temporary still staged or never made. -/
def AfterLanding (t : FileTree) (dest temp : Staging.Path) (asked : LandedFile) (r : Except IoError Unit)
    (w : LandingWorld) : Prop :=
  (r.isOk = true ∧ Landed t dest temp asked w) ∨
    (r.isOk = false ∧ (Untouched t w ∨ ∃ file, InStage t dest temp asked file w))

abbrev LandingWp {β : Type} (c : Creator) (t : FileTree) (dest : Staging.Path) (asked : LandedFile)
    (post : Except IoError β → LandingWorld → Prop) (p : LandingProg IoError β) (w : LandingWorld) : Prop :=
  wp (landingDevice c) post (Whole t dest asked) (p.attempt : LandingProg PutFileError _) w

theorem afterLanding_of_inStage {e : IoError} (h : InStage t dest temp asked file w) :
    AfterLanding t dest temp asked (.error e) w := .inr ⟨rfl, .inr ⟨file, h⟩⟩

/-- A call on the open file, that leaves the temporary staged however it ends. -/
theorem wp_quiet {next : o.Out → LandingProg IoError Unit} (h : InStage t dest temp asked file w) (ho : o.Quiet)
    (hcut : ∀ t', o.Torn w.state t' → ∃ file, t.Staged temp file t' ∧ (temp = dest → file = asked))
    (hok : ∀ a t', o.run c w.state = (.ok a, t') → ∃ file', t.Staged temp file' t' ∧ (temp = dest → file' = asked) ∧
      ∀ w', InStage t dest temp asked file' w' → LandingWp c t dest asked (AfterLanding t dest temp asked) (next a) w') :
    LandingWp c t dest asked (AfterLanding t dest temp asked) (call o >>= next) w := by
  refine wp_call h.whole (fun t' htorn => ?_) (fun t' e htorn => ?_) fun a t' hrun => ?_
  · obtain ⟨file', hstaged, hsame⟩ := hcut t' htorn
    exact (h.record (ho _ _).1 (ho _ _).2 hstaged hsame).whole
  · obtain ⟨file', hstaged, hsame⟩ := hcut t' htorn
    have hafter := h.record (r := some (.error e)) (ho _ _).1 (ho _ _).2 hstaged hsame
    exact ⟨hafter.whole, afterLanding_of_inStage hafter⟩
  · obtain ⟨file', hstaged, hsame, hnext⟩ := hok a t' hrun
    exact hnext _ (h.record (ho _ _).1 (ho _ _).2 hstaged hsame)

theorem torn_unchanged (h : o.Torn t t') (hwrite : ∀ file contents, o ≠ .writeAll file contents) : t' = t := by
  cases h with
  | unchanged => rfl
  | written => exact absurd rfl (hwrite _ _)

theorem untouched_start : Untouched t ⟨t, []⟩ := ⟨rfl, by simp [Created], by simp [Renamed]⟩

/-- The creation: where it fails nothing has been done. -/
theorem wp_createNew {mode : Nat} {next : Nat → LandingProg IoError Unit} {post : Except IoError Unit → LandingWorld → Prop}
    (herr : ∀ e w, Untouched t w → post (.error e) w)
    (hok : ∀ ino t', (LandingOp.createNew temp mode).run c t = (.ok ino, t') →
      LandingWp c t dest asked post (next ino) (World.record ⟨t, []⟩ (.createNew temp mode) (some (.ok ino)) t')) :
    LandingWp c t dest asked post (call (.createNew temp mode) >>= next) ⟨t, []⟩ := by
  refine wp_call untouched_start.whole (fun t' htorn => ?_) (fun t' e htorn => ?_) hok
  · cases torn_unchanged htorn (by simp)
    exact (untouched_start.record rfl rfl rfl).whole
  · cases torn_unchanged htorn (by simp)
    have hafter : Untouched t (World.record ⟨t, []⟩ (.createNew temp mode) (some (.error e)) t) :=
      untouched_start.record rfl rfl rfl
    exact ⟨hafter.whole, herr e _ hafter⟩

/-- Where the temporary's name is taken, nothing is created. -/
theorem wp_landing_taken {uid gid mode : Nat} (htaken : t.look temp ≠ none) :
    LandingWp c t dest asked (fun r w => r.isOk = false ∧ Untouched t w)
      (landing temp dest contents uid gid mode) ⟨t, []⟩ := by
  refine wp_createNew (fun e w hw => ⟨rfl, hw⟩) fun ino t' hrun => ?_
  rw [LandingOp.run, if_neg fun h => htaken (FileTree.look_eq_none.mpr h)] at hrun
  cases (Prod.mk.inj hrun).1

/-- The rename of the finished file. -/
theorem wp_rename (hstage : InStage t dest temp asked asked w) :
    LandingWp c t dest asked (AfterLanding t dest temp asked) (call (.rename temp dest)) w := by
  rw [← Prog.bind_pure (call (.rename temp dest))]
  refine wp_call hstage.whole (fun t' htorn => ?_) (fun t' e htorn => ?_) fun _ t' hrun => ?_
  · cases torn_unchanged htorn (by simp)
    exact (hstage.record rfl rfl hstage.staged hstage.same).whole
  · cases torn_unchanged htorn (by simp)
    have hafter : InStage t dest temp asked asked (w.record (.rename temp dest) (some (.error e)) w.state) :=
      hstage.record rfl rfl hstage.staged hstage.same
    exact ⟨hafter.whole, afterLanding_of_inStage hafter⟩
  · have hrename : w.state.rename temp dest = .ok t' := by
      rw [LandingOp.run] at hrun
      cases hr : w.state.rename temp dest with
      | error e =>
        rw [hr] at hrun
        cases (Prod.mk.inj hrun).1
      | ok t'' =>
        rw [hr] at hrun
        rw [← (Prod.mk.inj hrun).2]
    obtain ⟨htarget, hothers⟩ := hstage.staged.rename hrename
    have hlanded : Landed t dest temp asked (w.record (.rename temp dest) (some (.ok ())) t') :=
      ⟨htarget, hothers, created_record.mpr (.inl ((hstage.creates temp).mpr rfl)), renamed_record.mpr (.inr rfl)⟩
    exact ⟨hlanded.whole, .inl ⟨rfl, hlanded⟩⟩

/-- Where it is free, the sequence lands the file or leaves the temporary. -/
theorem wp_landing_free {uid gid mode : Nat} (hfree : t.look temp = none)
    (hsame : temp = dest → c.file STAGING_TEMP_MODE = ⟨contents, uid, gid, mode &&& MODE_BITS⟩) :
    LandingWp c t dest ⟨contents, uid, gid, mode &&& MODE_BITS⟩
      (AfterLanding t dest temp ⟨contents, uid, gid, mode &&& MODE_BITS⟩)
      (landing temp dest contents uid gid mode) ⟨t, []⟩ := by
  have hempty : temp = dest → contents = [] := fun he => (congrArg LandedFile.contents (hsame he)).symm
  refine wp_createNew (fun e w hw => .inr ⟨rfl, .inl hw⟩) fun ino t' hrun => ?_
  rw [LandingOp.run, if_pos (FileTree.look_eq_none.mp hfree)] at hrun
  obtain ⟨hino, rfl⟩ := Prod.mk.inj hrun
  cases hino
  have hcreate : InStage t dest temp ⟨contents, uid, gid, mode &&& MODE_BITS⟩ (c.file STAGING_TEMP_MODE)
      (World.record ⟨t, []⟩ (.createNew temp STAGING_TEMP_MODE) (some (.ok t.fresh))
        (t.create temp (.file (c.file STAGING_TEMP_MODE)))) :=
    ⟨FileTree.staged_create, hsame, fun path => by simp [Created, World.record, created, eq_comm],
      by simp [Renamed, World.record, renamed]⟩
  -- the write, which may stop anywhere
  refine wp_quiet hcreate quiet_writeAll (fun t' htorn => ?_) fun _ t' hrun => ?_
  · cases htorn with
    | unchanged => exact ⟨_, hcreate.staged, hsame⟩
    | written =>
      refine ⟨_, hcreate.staged.modify _, fun he => ?_⟩
      rw [hsame he, hempty he, List.take_nil]
      rfl
  refine ⟨_, (Prod.mk.inj hrun).2 ▸ hcreate.staged.modify _, fun he => ?_, fun w hwritten => ?_⟩
  · rw [hsame he, hempty he]
    rfl
  refine wp_quiet hwritten quiet_fchown (fun t' htorn => ?_) fun _ t' hrun => ?_
  · cases torn_unchanged htorn (by simp)
    exact ⟨_, hwritten.staged, hwritten.same⟩
  refine ⟨_, (Prod.mk.inj hrun).2 ▸ hwritten.staged.modify _, fun he => ?_, fun w howned => ?_⟩
  · rw [hwritten.same he]
    rfl
  refine wp_quiet howned quiet_setPermissions (fun t' htorn => ?_) fun _ t' hrun => ?_
  · cases torn_unchanged htorn (by simp)
    exact ⟨_, howned.staged, howned.same⟩
  -- from here on the temporary is the file asked for
  have hmode : t.Staged temp ⟨contents, uid, gid, mode &&& MODE_BITS⟩ t' := by
    rw [← (Prod.mk.inj hrun).2]
    exact howned.staged.modify (LandedFile.chmod mode)
  refine ⟨_, hmode, fun _ => rfl, fun w hdone => ?_⟩
  refine wp_quiet hdone quiet_syncAll (fun t' htorn => ?_) fun _ t' hrun => ?_
  · cases torn_unchanged htorn (by simp)
    exact ⟨_, hdone.staged, hdone.same⟩
  exact ⟨_, (Prod.mk.inj hrun).2 ▸ hdone.staged, fun _ => rfl, fun w hsynced => wp_rename hsynced⟩

/-- A call that fails before the rename leaves the destination as it was, and nothing of its own if its cleanup does. -/
def FailsClean (t : FileTree) (dest : Staging.Path) (r : Except PutFileError Unit) (w : LandingWorld) : Prop :=
  r.isOk = false → ¬Renamed w → Cleaned w → w.state.look dest = t.look dest ∧ ∀ path, Created w path → w.state.look path = none

theorem look_removeFile (h : t.removeFile path = .ok t') : t.look path ≠ none ∧ t.look path ≠ some .directory := by
  unfold FileTree.removeFile at h
  split_ifs at h with hfind hdir
  exact ⟨fun hnone => hfind (FileTree.look_eq_none.mp hnone), hdir⟩

theorem run_removeFile {u : Unit} (h : (LandingOp.removeFile path).run c t = (.ok u, t')) : t.removeFile path = .ok t' := by
  rw [LandingOp.run] at h
  cases hr : t.removeFile path with
  | error e =>
    rw [hr] at h
    cases (Prod.mk.inj h).1
  | ok t'' =>
    rw [hr] at h
    rw [← (Prod.mk.inj h).2]

theorem Untouched.failsClean {r : Except PutFileError Unit} (h : Untouched t w) : FailsClean t dest r w :=
  fun _ _ _ => ⟨by rw [h.state], fun path hpath => absurd hpath (h.noneCreated path)⟩

/-- The cleanup of a sequence that failed. -/
theorem wp_cleanup {source : IoError} (hkept : t.look plan.temp = none ∨ t.look plan.temp = some .directory)
    (h : Untouched t w ∨ t.look plan.temp = none ∧ ∃ file, InStage t dest plan.temp asked file w) :
    wp (landingDevice c) (FailsClean t dest) (Whole t dest asked)
      ((plan.finish dest (.error source)).attempt : LandingProg PutFileError _) w := by
  have hremove : LandingOp.Quiet (.removeFile plan.temp) := quiet_removeFile
  rcases h with h | ⟨hfree, file, h⟩
  · have hafter : ∀ r, Untouched t (w.record (.removeFile plan.temp) r w.state) :=
      fun r => h.record rfl (hremove _ _).1 (hremove _ _).2
    refine ⟨h.whole, fun t' htorn => ?_, fun r t' hends => ?_⟩
    · cases torn_unchanged htorn (by simp)
      exact (hafter none).whole
    · rcases ends_cases hends with ⟨a, rfl, hrun⟩ | ⟨e, rfl, htorn⟩
      · have hlook := look_removeFile (run_removeFile hrun)
        rw [h.state] at hlook
        exact absurd hkept (not_or.mpr hlook)
      · cases torn_unchanged htorn (by simp)
        exact ⟨(hafter _).whole, (hafter _).failsClean⟩
  · have hafter : ∀ r, InStage t dest plan.temp asked file (w.record (.removeFile plan.temp) r w.state) :=
      fun r => h.record (hremove _ _).1 (hremove _ _).2 h.staged h.same
    refine ⟨h.whole, fun t' htorn => ?_, fun r t' hends => ?_⟩
    · cases torn_unchanged htorn (by simp)
      exact (hafter none).whole
    · rcases ends_cases hends with ⟨a, rfl, hrun⟩ | ⟨e, rfl, htorn⟩
      · have hlook : t'.look = t.look := by
          rw [FileTree.removeFile_ok (run_removeFile hrun)]
          exact h.staged.unlink hfree
        refine ⟨⟨.inl (by rw [World.state_record, hlook]), fun _ _ _ => by rw [World.state_record, hlook]⟩, fun _ _ _ => ?_⟩
        refine ⟨by rw [World.state_record, hlook], fun path hpath => ?_⟩
        rw [created_record, (hremove _ _).1] at hpath
        rw [World.state_record, hlook, (h.creates path).mp (hpath.resolve_right (by simp)), hfree]
      · cases torn_unchanged htorn (by simp)
        refine ⟨(hafter _).whole, fun _ _ hclean => ?_⟩
        rcases hclean with hclean | hclean
        · exact absurd (hclean _ (List.mem_append_right _ (List.mem_singleton_self _))) (by simp [unlinkFailed])
        · exact absurd (((hafter _).creates plan.temp).mpr rfl) (hclean plan.temp)

/-- The flush of the destination's directory, once the file is there. -/
theorem wp_flush (h : Landed t dest temp asked w) :
    wp (landingDevice c) (FailsClean t dest) (Whole t dest asked)
      ((plan.finish dest (.ok ())).attempt : LandingProg PutFileError _) w := by
  have hafter : ∀ r, Landed t dest temp asked (w.record (.syncDir dest.tail) r w.state) :=
    fun r => ⟨h.target, h.others, created_record.mpr (.inl h.creates), renamed_record.mpr (.inl h.renames)⟩
  have hclean : ∀ r w', Landed t dest temp asked w' → FailsClean t dest r w' :=
    fun r w' hw' _ hnot => absurd hw'.renames hnot
  refine ⟨h.whole, fun t' htorn => ?_, fun r t' hends => ?_⟩
  · cases torn_unchanged htorn (by simp)
    exact (hafter none).whole
  · have hstate : t' = w.state := by
      rcases ends_cases hends with ⟨a, rfl, hrun⟩ | ⟨e, rfl, htorn⟩
      · exact (Prod.mk.inj hrun).2.symm
      · exact torn_unchanged htorn (by simp)
    subst hstate
    cases r with
    | ok u => exact ⟨(hafter _).whole, hclean _ _ (hafter _)⟩
    | error e => exact ⟨(hafter _).whole, hclean _ _ (hafter _)⟩

theorem putFileNatively_of_plan (h : host.plan dest m = .ok plan) :
    putFileNatively host dest contents m =
      (landing plan.temp dest contents plan.uid plan.gid m.mode).attempt >>= plan.finish dest := by
  rw [putFileNatively, h]
  rfl

theorem unclaimed_free (h : t.look plan.temp = none) :
    Unclaimed c t dest plan contents m ↔ (plan.temp ≠ dest ∨ c.file STAGING_TEMP_MODE = plan.asked contents m) := by
  rw [Unclaimed, h]

theorem unclaimed_taken {node : FileNode} (h : t.look plan.temp = some node) :
    Unclaimed c t dest plan contents m ↔ node = .directory := by
  rw [Unclaimed, h]

/-- A landing whose temporary's name is not claimed by another file. -/
theorem wp_putFileNatively (h : host.plan dest m = .ok plan) (hfree : Unclaimed c t dest plan contents m) :
    wp (landingDevice c) (FailsClean t dest) (Whole t dest (plan.asked contents m))
      ((putFileNatively host dest contents m).attempt : LandingProg PutFileError _) ⟨t, []⟩ := by
  rw [putFileNatively_of_plan h, wp_attempt_bind, wp_attempt_attempt]
  cases hlook : t.look plan.temp with
  | none =>
    have hsame := (unclaimed_free hlook).mp hfree
    refine (wp_landing_free hlook fun he => hsame.resolve_left (not_not.mpr he)).mono (fun r w hafter => ?_) fun _ hw => hw
    cases r with
    | ok u =>
      obtain ⟨-, hlanded⟩ := hafter.resolve_right fun hr => by cases hr.1
      exact @wp_flush c t dest plan.temp plan _ _ hlanded
    | error source =>
      obtain ⟨-, hstage⟩ := hafter.resolve_left fun hr => by cases hr.1
      exact wp_cleanup (.inl hlook) (hstage.imp_right fun hstage => ⟨hlook, hstage⟩)
  | some node =>
    cases (unclaimed_taken hlook).mp hfree
    refine (wp_landing_taken (by simp [hlook])).mono (fun r w hafter => ?_) fun _ hw => hw
    cases r with
    | ok u => cases hafter.1
    | error source => exact wp_cleanup (.inr hlook) (.inl hafter.2)

theorem lands_of_plan (h : host.plan dest m = .ok plan) (hfree : Unclaimed c t dest plan contents m) :
    LandsSafely c host t dest contents m := by
  have hwp := wp_putFileNatively h hfree
  refine ⟨fun hrun => ?_, fun hrun hnot hclean => ?_, fun hrun path hpath hnot => ?_⟩
  · exact (hrun.of_wp_attempt hwp).1.target.imp_right fun hlook => ⟨plan, h, hlook⟩
  · exact (hrun.of_wp_attempt hwp).2.2 _ rfl rfl hnot hclean
  · exact (hrun.of_wp_attempt hwp).1.others path hpath hnot

/-- A call that comes to no plan does nothing. -/
theorem lands_of_no_plan {e : PutFileError} (h : host.plan dest m = .error e) : LandsSafely c host t dest contents m := by
  have hwhole : ∀ {out w}, Runs (landingDevice c) (putFileNatively host dest contents m) ⟨t, []⟩ out w → Untouched t w := by
    intro out w hrun
    rw [putFileNatively, h] at hrun
    cases hrun with
    | fail => exact untouched_start
    | crash => exact untouched_start
  refine ⟨fun hrun => .inl (by rw [(hwhole hrun).state]), fun hrun _ _ => ?_, fun hrun _ _ _ => by rw [(hwhole hrun).state]⟩
  exact ⟨by rw [(hwhole hrun).state], fun path hpath => absurd hpath ((hwhole hrun).noneCreated path)⟩

/-- The run that finds another file at the temporary's name removes it. -/
theorem runs_taken {node : FileNode} (h : host.plan dest m = .ok plan) (hlook : t.look plan.temp = some node)
    (hnode : node ≠ .directory) :
    ∃ out w, Runs (landingDevice c) (putFileNatively host dest contents m) ⟨t, []⟩ out w ∧
      w.state = t.unlink plan.temp ∧ ∀ path, ¬Created w path := by
  have hfind : t.dir.find plan.temp ≠ none := fun hnone => by
    rw [FileTree.look_eq_none.mpr hnone] at hlook
    cases hlook
  have hcreate : (LandingOp.createNew plan.temp STAGING_TEMP_MODE).run c t = (.error (.os EEXIST), t) := by
    rw [LandingOp.run, if_neg hfind]
  have hremove : (LandingOp.removeFile plan.temp).run c t = (.ok (), t.unlink plan.temp) := by
    rw [LandingOp.run, FileTree.removeFile, if_neg hfind, if_neg (by rw [hlook]; simpa using hnode)]
    rfl
  rw [putFileNatively_of_plan h]
  refine ⟨_, _, .op (.inl hcreate.symm) (.op (.inl hremove.symm) .fail), rfl, fun path => ?_⟩
  rintro ⟨e, he, hcreated⟩
  simp only [World.events_record, List.nil_append, List.mem_append, List.mem_singleton] at he
  rcases he with rfl | rfl <;> cases hcreated

theorem not_lands_of_taken {node : FileNode} (h : host.plan dest m = .ok plan) (hlook : t.look plan.temp = some node)
    (hnode : node ≠ .directory) : ¬LandsSafely c host t dest contents m := by
  intro hlands
  obtain ⟨out, w, hrun, hstate, hcreated⟩ : ∃ out w,
      Runs (landingDevice c) (putFileNatively host dest contents m) ⟨t, []⟩ out w ∧ w.state = t.unlink plan.temp ∧
        ∀ path, ¬Created w path := runs_taken h hlook hnode
  by_cases hdest : plan.temp = dest
  · have htarget := hlands.whole hrun
    rw [hstate, ← hdest, FileTree.look_unlink_self, hlook] at htarget
    rcases htarget with htarget | ⟨_, _, htarget⟩ <;> cases htarget
  · have hother := hlands.others hrun plan.temp hdest (hcreated _)
    rw [hstate, FileTree.look_unlink_self, hlook] at hother
    cases hother

/-- A destination that is the temporary's own path is for a moment the empty file just created. -/
theorem asked_of_lands_at_temp (h : host.plan dest m = .ok plan) (hlook : t.look plan.temp = none)
    (hself : plan.temp = dest) (hlands : LandsSafely c host t dest contents m) :
    c.file STAGING_TEMP_MODE = plan.asked contents m := by
  have hcreate : (LandingOp.createNew plan.temp STAGING_TEMP_MODE).run c t =
      (.ok t.fresh, t.create plan.temp (.file (c.file STAGING_TEMP_MODE))) := by
    rw [LandingOp.run, if_pos (FileTree.look_eq_none.mp hlook)]
  have hrun : Runs (landingDevice c) (putFileNatively host dest contents m) ⟨t, []⟩ .crashed
      (World.record ⟨t, []⟩ (.createNew plan.temp STAGING_TEMP_MODE) (some (.ok t.fresh))
        (t.create plan.temp (.file (c.file STAGING_TEMP_MODE)))) := by
    rw [putFileNatively_of_plan h]
    exact .op (.inl hcreate.symm) .crash
  have hnow : (t.create plan.temp (.file (c.file STAGING_TEMP_MODE))).look dest =
      some (.file (c.file STAGING_TEMP_MODE)) := by rw [← hself, FileTree.look_create_self]
  have hbefore : t.look dest = none := by rw [← hself, hlook]
  rcases hlands.whole hrun with hdest | ⟨plan', h', hdest⟩
  · rw [World.state_record, hnow, hbefore] at hdest
    cases hdest
  · rw [World.state_record, hnow] at hdest
    rw [h] at h'
    cases h'
    exact FileNode.file.inj (Option.some.inj hdest)

/-- A landing goes as it should exactly where no other file stands at the temporary's name. -/
theorem putFileNatively_lands :
    LandsSafely c host t dest contents m ↔ ∀ plan, host.plan dest m = .ok plan → Unclaimed c t dest plan contents m := by
  constructor
  · intro hlands plan h
    cases hlook : t.look plan.temp with
    | none =>
      rw [unclaimed_free hlook, or_iff_not_imp_left]
      intro hself
      exact asked_of_lands_at_temp h hlook (not_not.mp hself) hlands
    | some node =>
      rw [unclaimed_taken hlook]
      by_contra hnode
      exact not_lands_of_taken h hlook hnode hlands
  · intro hfree
    cases h : host.plan dest m with
    | error e => exact lands_of_no_plan h
    | ok plan => exact lands_of_plan h (hfree plan h)

end Moments

/-- Root on a host whose directories are all root's. -/
def rootHost : LandingHost where
  currentUid := some 0
  metadata _ := .ok ⟨true, 0, 0o755, 1⟩
  run _ := .ok ⟨some 1, [], []⟩
  pid := 7
  counter := 0

/-- Another's file at the temporary's name in `/`. -/
def takenTree : FileTree :=
  (⟨⟨[], []⟩, fun h => by cases h⟩ : FileTree).create [rootHost.tempName] (.file ⟨[120], 1000, 1000, 0o600⟩)

/-- A landing at `/o/f` that finds it there removes it. -/
theorem putFileNatively_removes_other :
    takenTree.look [rootHost.tempName] = some (.file ⟨[120], 1000, 1000, 0o600⟩) ∧
      (∃ out w, Runs (landingDevice ⟨0, 0, 0o022⟩) (putFileNatively rootHost [[102], [111]] [] ⟨.root, .root, 0o644⟩)
        ⟨takenTree, []⟩ out w ∧ w.state.look [rootHost.tempName] = none ∧ ∀ path, ¬Created w path) ∧
      ¬LandsSafely ⟨0, 0, 0o022⟩ rootHost takenTree [[102], [111]] [] ⟨.root, .root, 0o644⟩ := by
  have hplan : rootHost.plan [[102], [111]] ⟨.root, .root, 0o644⟩ = .ok ⟨[rootHost.tempName], 0, 0⟩ := rfl
  have hlook : takenTree.look [rootHost.tempName] = some (.file ⟨[120], 1000, 1000, 0o600⟩) := FileTree.look_create_self
  refine ⟨hlook, ?_, not_lands_of_taken hplan hlook (by simp)⟩
  obtain ⟨out, w, hrun, hstate, hcreated⟩ := runs_taken hplan hlook (by simp)
  exact ⟨out, w, hrun, by rw [hstate, FileTree.look_unlink_self], hcreated⟩

end DeployCore
