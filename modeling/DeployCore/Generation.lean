import DeployCore.Lib.Crash
import DeployCore.Disk
import DeployCore.GenerationNames

/-! # The trust-generation engine

`activateGeneration` installs material into a trust tree as a program over the tree's root directory: it stages
a copy, has it validated, renames it into place, repoints the `active` link and prunes what is superseded. The
program's operations are those of the file system, the call of the validator and `systemctl`; what is outside
the tree is the `Host`. -/

namespace DeployCore
open Directory Crash

/-- An error of the engine itself. The path is the one the operation targeted. -/
inductive GenerationError
  | io (path : Bytes) (source : ErrorKind)
  | emptyMaterial
  | duplicateName (name : Bytes)
  | invalidName (name : Bytes)
  | reload (unit reason : String)
  deriving DecidableEq

/-- `From<GenerationError>`: a caller's error type absorbs the engine's. -/
class FromGenerationError (ε : Type) where
  fromGenerationError : GenerationError → ε

export FromGenerationError (fromGenerationError)

/-- One named file of a generation's material set. -/
structure GenerationFile where
  name : Bytes
  bytes : Bytes
  deriving DecidableEq

/-- A trust tree: its root, and the unit to reload after a swap. -/
structure GenerationTree where
  root : Bytes
  reloadUnit : Option String

structure Activation where
  generation : UInt64
  changed : Bool
  deriving DecidableEq

/-- `ExitStatus`: whether it is a success, and how it reads. -/
structure ExitStatus where
  success : Bool
  text : String

/-- What the engine does not do itself: the caller's validator, `systemctl` (an invocation that could not be
started is an error, as it reads), and the file system outside the tree. -/
structure Host (ε : Type) where
  validate : Bytes → List GenerationFile → Except ε Unit
  systemctl : List String → Except String ExitStatus
  elsewhere : Bytes → Except ErrorKind Bytes

inductive Op
  | fs (o : FsOp)
  | validate (dir : Bytes) (files : List GenerationFile)
  | systemctl (args : List String)
  deriving DecidableEq

abbrev Op.Result (ε : Type) : Op → Type
  | .fs o => Except ErrorKind o.Out
  | .validate _ _ => Except ε Unit
  | .systemctl _ => Except String ExitStatus

abbrev Engine (ε α : Type) := Prog Op (Op.Result ε) ε α

/-- The operations on a disk. A fault never reads as a missing file: `NotFound` is the answer of an operation
that looked. The validator and `systemctl` leave the tree alone. -/
def device {ε : Type} (host : Host ε) : Device Op (Op.Result ε) Disk where
  run
    | .fs o, d =>
      match o.run host.elsewhere d with
      | .ok (out, d') => (.ok out, d')
      | .error kind => (.error kind, d)
    | .validate dir files, d => (host.validate dir files, d)
    | .systemctl args, d => (host.systemctl args, d)
  fault
    | .fs _, r => ∃ kind, kind ≠ .notFound ∧ r = .error kind
    | .validate _ _, _ => False
    | .systemctl _, _ => False
  torn
    | .fs o, d, d' => o.Torn host.elsewhere d d'
    | .validate _ _, d, d' => d' = d
    | .systemctl _, d, d' => d' = d

def checkMaterial (material : List GenerationFile) : Except GenerationError Unit :=
  if material = [] then .error .emptyMaterial
  else
    (Checks.collectDistinct (·.name)
      (fun file => if isSingleComponent file.name then .ok () else .error (.invalidName file.name))
      (fun file => .duplicateName file.name) (fun _ => .ok ()) [] material).map fun _ => ()

/-! ## The sequence -/

section Engine
variable {ε α : Type} [FromGenerationError ε]

def refuse : Except GenerationError α → Engine ε α
  | .ok a => pure a
  | .error e => .fail (fromGenerationError e)

/-- An operation whose failure the caller looks at. -/
def tryFs (o : FsOp) : Engine ε (Except ErrorKind o.Out) := Prog.perform (Op.fs o)

/-- An operation whose failure is an error at `path`. -/
def fs (path : Bytes) (o : FsOp) : Engine ε o.Out := do
  match ← tryFs o with
  | .ok out => pure out
  | .error kind => refuse (.error (.io path kind))

/-- The generation `active` points at, if any. -/
def currentGeneration (root : Bytes) : Engine ε (Option UInt64) := do
  match ← tryFs (.readLink ACTIVE_LINK) with
  | .ok target => pure (parseGeneration target)
  | .error .notFound => pure none
  | .error kind => refuse (.error (.io (joinPath root ACTIVE_LINK) kind))

/-- Whether every file of the material matches its counterpart under `active`. -/
def activeMatches (root : Bytes) : List GenerationFile → Engine ε Bool
  | [] => pure true
  | file :: rest => do
    match ← tryFs (.readFile ACTIVE_LINK file.name) with
    | .ok bytes => if bytes = file.bytes then activeMatches root rest else pure false
    | .error .notFound => pure false
    | .error kind => refuse (.error (.io (joinPath (joinPath root ACTIVE_LINK) file.name) kind))

/-- The highest generation number among the entries, read one by one. -/
def maxGeneration (root : Bytes) (max : UInt64) : List Bytes → Engine ε UInt64
  | [] => pure max
  | name :: rest => do
    fs root .nextEntry
    maxGeneration root (match parseGeneration name with | some n => Max.max max n | none => max) rest

/-- One greater than the highest generation number; the sum wraps around. -/
def nextGeneration (root : Bytes) : Engine ε UInt64 := do
  let names ← fs root .readDir
  let max ← maxGeneration root 0 names
  pure (max + 1)

def removeDirAllIfPresent (root name : Bytes) : Engine ε Unit := do
  match ← tryFs (.removeDirAll name) with
  | .ok () => pure ()
  | .error .notFound => pure ()
  | .error kind => refuse (.error (.io (joinPath root name) kind))

def makeDir0700 (root name : Bytes) : Engine ε Unit :=
  fs (joinPath root name) (.createDir name)

/-- Creates, writes and flushes a new file. -/
def writeFile0600 (root dir : Bytes) (file : GenerationFile) : Engine ε Unit := do
  let path := joinPath (joinPath root dir) file.name
  fs path (.createFile dir file.name)
  fs path (.writeAll dir file.name file.bytes)
  fs path (.syncFile dir file.name)

/-- Reads a staged file back. -/
def readBack (root dir : Bytes) (file : GenerationFile) : Engine ε GenerationFile := do
  let bytes ← fs (joinPath (joinPath root dir) file.name) (.readFile dir file.name)
  pure ⟨file.name, bytes⟩

def renameTo (root source target : Bytes) : Engine ε Unit :=
  fs (joinPath root target) (.rename source target)

def removeFileIfPresent (root name : Bytes) : Engine ε Unit := do
  match ← tryFs (.removeFile name) with
  | .ok () => pure ()
  | .error .notFound => pure ()
  | .error kind => refuse (.error (.io (joinPath root name) kind))

/-- Repoints `active` by renaming a new link over it. -/
def swapActiveSymlink (root : Bytes) (generation : UInt64) : Engine ε Unit := do
  removeFileIfPresent root ACTIVE_TMP
  fs (joinPath root ACTIVE_TMP) (.symlink (generationName generation) ACTIVE_TMP)
  renameTo root ACTIVE_TMP ACTIVE_LINK

/-- Reloads a unit that is running. -/
def reloadIfActive (unit : String) : Engine ε Unit := do
  match ← Prog.perform (Op.systemctl ["is-active", "--quiet", unit]) with
  | .ok status =>
    if status.success then
      match ← Prog.perform (Op.systemctl ["reload", unit]) with
      | .ok status =>
        if status.success then pure ()
        else refuse (.error (.reload unit ("`systemctl reload " ++ unit ++ "` exited with " ++ status.text)))
      | .error reason => refuse (.error (.reload unit reason))
    else pure ()
  | .error _ => pure ()

/-- A tree without a unit has nothing to reload. -/
def reload (tree : GenerationTree) : Engine ε Unit :=
  match tree.reloadUnit with
  | some unit => reloadIfActive unit
  | none => pure ()

def pruneEntry (root : Bytes) (keep : UInt64) (name : Bytes) : Engine ε Unit := do
  fs root .nextEntry
  if (parseTmpGeneration name).isSome ∨ (parseGeneration name).any (· ≠ keep) then
    removeDirAllIfPresent root name
  else pure ()

/-- Removes every generation but `keep` and every staging directory. -/
def pruneGenerations (root : Bytes) (keep : UInt64) : Engine ε Unit := do
  let names ← fs root .readDir
  Prog.each (pruneEntry root keep) names

/-- Stages a copy of the material. -/
def stage (root dir : Bytes) (material : List GenerationFile) : Engine ε Unit := do
  removeDirAllIfPresent root dir
  makeDir0700 root dir
  Prog.each (writeFile0600 root dir) material

/-- Finalises a staged copy, repoints `active` at it and prunes. -/
def publish (tree : GenerationTree) (generation : UInt64) : Engine ε Unit := do
  let root := tree.root
  let tmp := tmpGenerationName generation
  fs (joinPath root tmp) (.syncDir tmp)
  renameTo root tmp (generationName generation)
  fs root .syncRoot
  swapActiveSymlink root generation
  fs root .syncRoot
  reload tree
  pruneGenerations root generation

/-- Stages the material, has the copy validated and publishes it. -/
def installGeneration (tree : GenerationTree) (material : List GenerationFile) : Engine ε Activation := do
  let generation ← nextGeneration tree.root
  let tmp := tmpGenerationName generation
  stage tree.root tmp material
  let copied ← Prog.collect (readBack tree.root tmp) material
  match ← Prog.perform (Op.validate (joinPath tree.root tmp) copied) with
  | .ok () => do
    publish tree generation
    pure ⟨generation, true⟩
  | .error err => do
    let _ ← tryFs (.removeDirAll tmp)
    .fail err

/-- The current generation, when the material matches it. -/
def unchangedGeneration (root : Bytes) (material : List GenerationFile) : Engine ε (Option UInt64) := do
  match ← currentGeneration root with
  | some current => do
    if ← activeMatches root material then pure (some current) else pure none
  | none => pure none

def activateGeneration (tree : GenerationTree) (material : List GenerationFile) : Engine ε Activation := do
  refuse (checkMaterial material)
  match ← unchangedGeneration tree.root material with
  | some current => pure ⟨current, false⟩
  | none => installGeneration tree material

end Engine

end DeployCore
