import DeployCore.Lib.Directory
import DeployCore.Lib.Checks
import DeployCore.Paths

/-! # A directory on disk

The file system as the generation engine sees it: the entries of one root directory, the operations the engine
runs on them, and what a power loss may leave. An operation that reports a fault, or that a crash interrupts,
leaves the disk as it was, except that a write may have put down some of its bytes and a removal may have
removed some of what it removes. A name shows at every time one entry: `rename` is atomic.

A change of the root reaches the disk when the root is flushed. Until then a power loss may undo it, name by
name, and may leave anything behind a name whose file or directory was not flushed itself. -/

namespace DeployCore
open Directory

/-- What a name stands for. A file is flushed when its bytes are on disk, a directory when its entries are. -/
inductive Node
  | file (bytes : Bytes) (flushed : Bool)
  | link (target : Bytes)
  | dir (entries : List (Bytes × Node)) (flushed : Bool)

abbrev Entries := List (Bytes × Node)

/-- A root directory, and the states it had since it was last flushed. -/
structure Disk where
  root : Entries
  unflushed : List Entries

def EEXIST : ErrorKind := .other 17
def ENOTDIR : ErrorKind := .other 20
def EISDIR : ErrorKind := .other 21
def EINVAL : ErrorKind := .other 22
def ENOTEMPTY : ErrorKind := .other 39

namespace Disk

/-- Every state of the root that the disk may hold. -/
def views (d : Disk) : List Entries := d.root :: d.unflushed

/-- A change of the root that is not flushed yet. -/
def update (d : Disk) (root : Entries) : Disk := ⟨root, d.root :: d.unflushed⟩

/-- The entries of a directory of the root. -/
def entriesOf (d : Disk) (dir : Bytes) : Except ErrorKind Entries :=
  match find d.root dir with
  | some (.dir entries _) => .ok entries
  | some _ => .error ENOTDIR
  | none => .error .notFound

/-- Changes the entries of a directory of the root. -/
def modifyDir (d : Disk) (dir : Bytes) (f : Entries → Except ErrorKind Entries) : Except ErrorKind (Unit × Disk) := do
  let entries ← f (← d.entriesOf dir)
  .ok ((), d.update (put d.root dir (.dir entries false)))

end Disk

/-- The operations, on the root directory or on the names given in it. -/
inductive FsOp
  | readLink (name : Bytes)
  /-- `std::fs::read` of a file under an entry of the root, which may be a link. -/
  | readFile (dir name : Bytes)
  | readDir
  /-- One entry of an open `ReadDir`. -/
  | nextEntry
  | removeDirAll (name : Bytes)
  | createDir (name : Bytes)
  /-- `create_new`. -/
  | createFile (dir name : Bytes)
  | writeAll (dir name bytes : Bytes)
  | syncFile (dir name : Bytes)
  | syncDir (dir : Bytes)
  | syncRoot
  | rename (source target : Bytes)
  | removeFile (name : Bytes)
  | symlink (target name : Bytes)
  deriving DecidableEq

/-- What an operation returns. -/
abbrev FsOp.Out : FsOp → Type
  | .readLink _ => Bytes
  | .readFile _ _ => Bytes
  | .readDir => List Bytes
  | _ => Unit

section Semantics

-- what the rest of the file system holds, where a path leaves the tree
variable (elsewhere : Bytes → Except ErrorKind Bytes)

/-- Reads a file of a directory, found under `path`. -/
def readEntry (path : Bytes) (entries : Entries) (name : Bytes) : Except ErrorKind Bytes :=
  match find entries name with
  | some (.file bytes _) => .ok bytes
  | some (.dir _ _) => .error EISDIR
  | some (.link _) => elsewhere (joinPath path name)
  | none => .error .notFound

/-- Reads a file under an entry of the root. A link to a directory of the root is followed. -/
def Disk.read (d : Disk) (dir name : Bytes) : Except ErrorKind Bytes :=
  match find d.root dir with
  | none => .error .notFound
  | some (.file _ _) => .error ENOTDIR
  | some (.dir entries _) => readEntry elsewhere dir entries name
  | some (.link target) =>
    match find d.root target with
    | some (.dir entries _) => readEntry elsewhere target entries name
    | some (.file _ _) => .error ENOTDIR
    | some (.link _) => elsewhere (joinPath dir name)
    | none =>
      if components target = [.normal target] then .error .notFound else elsewhere (joinPath dir name)

/-- Whether a rename onto an existing entry is refused. -/
def renameRefusal : Node → Option Node → Option ErrorKind
  | _, none => none
  | .dir _ _, some (.dir [] _) => none
  | .dir _ _, some (.dir _ _) => some ENOTEMPTY
  | .dir _ _, some _ => some ENOTDIR
  | _, some (.dir _ _) => some EISDIR
  | _, some _ => none

/-- What an operation that is carried out returns and leaves. -/
def FsOp.run : (o : FsOp) → Disk → Except ErrorKind (o.Out × Disk)
  | .readLink name, d =>
    match find d.root name with
    | some (.link target) => .ok (target, d)
    | some _ => .error EINVAL
    | none => .error .notFound
  | .readFile dir name, d => (d.read elsewhere dir name).map fun bytes => (bytes, d)
  | .readDir, d => .ok (names d.root, d)
  | .nextEntry, d => .ok ((), d)
  | .removeDirAll name, d =>
    match find d.root name with
    | some (.file _ _) => .error ENOTDIR
    | some _ => .ok ((), d.update (erase d.root name))
    | none => .error .notFound
  | .createDir name, d =>
    match find d.root name with
    | some _ => .error EEXIST
    | none => .ok ((), d.update (put d.root name (.dir [] false)))
  | .createFile dir name, d => d.modifyDir dir fun entries =>
    match find entries name with
    | some _ => .error EEXIST
    | none => .ok (put entries name (.file [] false))
  | .writeAll dir name bytes, d => d.modifyDir dir fun entries =>
    match find entries name with
    | some (.file written _) => .ok (put entries name (.file (written ++ bytes) false))
    | _ => .error .notFound
  | .syncFile dir name, d => d.modifyDir dir fun entries =>
    match find entries name with
    | some (.file written _) => .ok (put entries name (.file written true))
    | _ => .error .notFound
  | .syncDir dir, d => do
    let entries ← d.entriesOf dir
    .ok ((), d.update (put d.root dir (.dir entries true)))
  | .syncRoot, d => .ok ((), { d with unflushed := [] })
  | .rename source target, d =>
    match find d.root source with
    | none => .error .notFound
    | some node =>
      match renameRefusal node (find d.root target) with
      | some kind => .error kind
      | none => .ok ((), d.update (put (erase d.root source) target node))
  | .removeFile name, d =>
    match find d.root name with
    | some (.dir _ _) => .error EISDIR
    | some _ => .ok ((), d.update (erase d.root name))
    | none => .error .notFound
  | .symlink target name, d =>
    match find d.root name with
    | some _ => .error EEXIST
    | none => .ok ((), d.update (put d.root name (.link target)))

/-- What an operation that is not carried out may leave. -/
inductive FsOp.Torn : FsOp → Disk → Disk → Prop
  | unchanged {o d} : Torn o d d
  | written {dir name bytes n d d'}
      (h : FsOp.run elsewhere (.writeAll dir name (bytes.take n)) d = .ok ((), d')) :
      Torn (.writeAll dir name bytes) d d'
  | removed {name d entries flushed left} (h : find d.root name = some (.dir entries flushed)) :
      Torn (.removeDirAll name) d (d.update (put d.root name (.dir left false)))

end Semantics

/-- The names whose entries an operation may change. -/
def FsOp.touches : FsOp → Set Bytes
  | .removeDirAll name | .createDir name | .removeFile name | .symlink _ name | .syncDir name => {name}
  | .createFile dir _ | .writeAll dir _ _ | .syncFile dir _ => {dir}
  | .rename source target => {source, target}
  | _ => ∅

/-- Whatever a power loss may turn into what is on disk. -/
inductive Node.Settled : Node → Prop
  | link {target} : Settled (.link target)
  | file {bytes} : Settled (.file bytes true)
  | dir {entries} (h : ∀ entry ∈ entries, Settled entry.2) : Settled (.dir entries true)

/-- What a power loss may leave of an entry. -/
inductive Node.Survives : Node → Node → Prop
  | same {node} : Survives node node
  | file {bytes left flushed} : Survives (.file bytes false) (.file left flushed)
  | dir {entries flushed left flushed'} (h : ¬Settled (.dir entries flushed)) :
      Survives (.dir entries flushed) (.dir left flushed')

theorem Node.Survives.eq {node node' : Node} (h : node.Survives node') (hs : node.Settled) : node' = node := by
  cases h with
  | same => rfl
  | file => cases hs
  | dir hns => exact absurd hs hns

namespace Disk

/-- A power loss: every name shows an entry it had since the last flush, as far as that entry was on disk. -/
structure PowerLoss (d d' : Disk) : Prop where
  flushed : d'.unflushed = []
  entry : ∀ name, ∃ view ∈ d.views, Option.Rel Node.Survives (find view name) (find d'.root name)

/-- Outside `S`, the root is what it was and every state the disk may hold is one it could hold before. -/
structure Frame (S : Set Bytes) (d d' : Disk) : Prop where
  root : ∀ name ∉ S, find d'.root name = find d.root name
  views : ∀ view' ∈ d'.views, ∃ view ∈ d.views, ∀ name ∉ S, find view' name = find view name

variable {S T : Set Bytes} {d d' d'' : Disk} {root : Entries} {name : Bytes} {node : Node}

@[simp] theorem mem_views_root : d.root ∈ d.views := List.mem_cons_self

theorem Frame.refl : Frame S d d := ⟨fun _ _ => rfl, fun view hview => ⟨view, hview, fun _ _ => rfl⟩⟩

theorem Frame.mono (hST : S ⊆ T) (h : Frame S d d') : Frame T d d' := by
  refine ⟨fun name hname => h.root name fun hS => hname (hST hS), fun view' hview' => ?_⟩
  obtain ⟨view, hview, hsame⟩ := h.views view' hview'
  exact ⟨view, hview, fun name hname => hsame name fun hS => hname (hST hS)⟩

theorem Frame.trans (h : Frame S d d') (h' : Frame S d' d'') : Frame S d d'' := by
  refine ⟨fun name hname => (h'.root name hname).trans (h.root name hname), fun view'' hview'' => ?_⟩
  obtain ⟨view', hview', hsame'⟩ := h'.views view'' hview''
  obtain ⟨view, hview, hsame⟩ := h.views view' hview'
  exact ⟨view, hview, fun name hname => (hsame' name hname).trans (hsame name hname)⟩

theorem Frame.update (h : ∀ name ∉ S, find root name = find d.root name) : Frame S d (d.update root) := by
  refine ⟨h, fun view hview => ?_⟩
  rcases List.mem_cons.mp hview with rfl | hview
  · exact ⟨d.root, mem_views_root, h⟩
  · exact ⟨view, hview, fun _ _ => rfl⟩

theorem Frame.put (hname : name ∈ S) : Frame S d (d.update (put d.root name node)) :=
  .update fun _ hname' => find_put_ne fun heq => hname' (heq ▸ hname)

theorem Frame.erase (hname : name ∈ S) : Frame S d (d.update (erase d.root name)) :=
  .update fun _ hname' => find_erase_ne fun heq => hname' (heq ▸ hname)

theorem Frame.flush : Frame S d { d with unflushed := [] } :=
  ⟨fun _ _ => rfl, fun view hview => ⟨view, List.mem_cons.mpr (.inl (List.mem_singleton.mp hview)), fun _ _ => rfl⟩⟩

theorem modifyDir_eq_ok {f : Entries → Except ErrorKind Entries} (h : d.modifyDir name f = .ok ((), d')) :
    ∃ entries flushed changed, find d.root name = some (.dir entries flushed) ∧ f entries = .ok changed ∧
      d' = d.update (Directory.put d.root name (.dir changed false)) := by
  obtain ⟨entries, hentries, h⟩ := Checks.bind_ok h
  obtain ⟨changed, hchanged, h⟩ := Checks.bind_ok h
  unfold entriesOf at hentries
  split at hentries
  · next flushed hfind =>
    cases hentries
    cases h
    exact ⟨entries, flushed, changed, hfind, hchanged, rfl⟩
  · cases hentries
  · cases hentries

end Disk

namespace FsOp
variable {elsewhere : Bytes → Except ErrorKind Bytes} {d d' : Disk} {o : FsOp}

/-- An operation changes the root under its own names only. -/
theorem frame_run {out : o.Out} (h : o.run elsewhere d = .ok (out, d')) : d.Frame o.touches d' := by
  cases o with
  | readLink name =>
    simp only [run] at h
    split at h <;> cases h
    exact .refl
  | readFile dir name =>
    simp only [run] at h
    cases hread : d.read elsewhere dir name <;> rw [hread] at h <;> cases h
    exact .refl
  | readDir => cases h; exact .refl
  | nextEntry => cases h; exact .refl
  | removeDirAll name =>
    simp only [run] at h
    split at h <;> cases h
    exact .erase rfl
  | createDir name =>
    simp only [run] at h
    split at h <;> cases h
    exact .put rfl
  | createFile dir name | writeAll dir name bytes | syncFile dir name =>
    obtain ⟨entries, flushed, changed, -, -, rfl⟩ := Disk.modifyDir_eq_ok h
    exact .put rfl
  | syncDir dir =>
    obtain ⟨entries, -, h⟩ := Checks.bind_ok h
    cases h
    exact .put rfl
  | syncRoot => cases h; exact .flush
  | rename source target =>
    simp only [run] at h
    split at h
    · cases h
    split at h <;> cases h
    refine .update fun name hname => ?_
    rw [find_put_ne fun heq => hname (.inr heq), find_erase_ne fun heq => hname (.inl heq)]
  | removeFile name =>
    simp only [run] at h
    split at h <;> cases h
    exact .erase rfl
  | symlink target name =>
    simp only [run] at h
    split at h <;> cases h
    exact .put rfl

theorem Torn.frame (h : Torn elsewhere o d d') : d.Frame o.touches d' := by
  cases h with
  | unchanged => exact .refl
  | @written dir name bytes n _ _ h => exact @frame_run _ _ _ (.writeAll dir name (bytes.take n)) () h
  | removed => exact .put rfl

end FsOp

end DeployCore
