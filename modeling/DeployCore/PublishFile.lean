import DeployCore.BudgetLedger
import DeployCore.Strings
import DeployCore.Lib.Links

/-! # Publication of a file (`src/retain/publish.rs`)

`publish_file` as a machine of its system calls: each move carries what the operating system, the random source or
the budget answers at that step, and a failed call leaves the directory as it was, but for what a `write_all` had
already written. All calls publish to one destination of one directory; a call that crashes makes no further move. -/

namespace DeployCore

/-- The destination's directory: names for inodes, and the contents of each. -/
abbrev PublishDir := Links.Dir String Bytes

def notFound : IoError := .os .notFound

/-- `EEXIST`. -/
def alreadyExists : IoError := .os (.other 17)

structure Destination where
  parent : String
  name : String

def Destination.path (dest : Destination) : String := dest.parent ++ "/" ++ dest.name

def PUBLISH_PREFIX : String := ".deploy-core-publish-"
def PUBLISH_SUFFIX : String := ".tmp"
def NAME_ATTEMPTS : Nat := 8

/-- The temporary name made of sixteen drawn bytes. -/
def temporaryName (draw : Bytes) : String := PUBLISH_PREFIX ++ toHex draw ++ PUBLISH_SUFFIX

inductive PublicationOperation
  | openDestinationParent
  | inspectDestination
  | createTemporary
  | readRetained
  | writeTemporary
  | syncFile
  | verify
  | syncDirectory
  | link
  | removeTemporary
  deriving DecidableEq

inductive CopyMismatchKind
  | length (expected actual : Nat)
  | digest
  deriving DecidableEq

inductive PublicationError
  | destinationExists (destination : String)
  | unsafeDestinationParent (path reason : String)
  | diskBudgetExceeded (limit : Nat)
  | io (operation : PublicationOperation) (path : Option String) (source : IoError)
  | copyMismatch (path : String) (kind : CopyMismatchKind)
  | publishDurability (destination : String) (operation : PublicationOperation) (source : IoError)
  deriving DecidableEq

structure PublishedPackage where
  destination : String
  sha256 : Bytes
  len : Nat
  deriving DecidableEq

/-- What `open_destination_parent` may answer instead of the parent. -/
inductive ParentRefusal
  | unsafeParent (path reason : String)
  | io (path : String) (source : IoError)

def ParentRefusal.error : ParentRefusal → PublicationError
  | .unsafeParent path reason => .unsafeDestinationParent path reason
  | .io path source => .io .openDestinationParent (some path) source

/-- The temporary a call created: its name, and the inode the call holds open. -/
structure Temporary where
  name : String
  ino : Nat
  deriving DecidableEq

/-- The system call a publication makes next. -/
inductive PublishPhase
  | opening
  | inspecting
  | creating (attempts : Nat)
  | reading (pos : Nat)
  | writing (pos : Nat) (chunk : Bytes)
  | syncing
  | verifying
  | linking
  | classifying (source : IoError)
  | dropping (error : PublicationError)
  | removing
  | syncingParent
  | returned (result : Except PublicationError PublishedPackage)

/-- A call, with the temporary it created and whether the destination came to be by one of its steps. -/
structure PublishCall where
  bytes : RetainedBytes
  limit : Nat
  copyBuffer : Nat
  temp : Option Temporary
  phase : PublishPhase
  created : Bool

/-- A move of a publication with the answers to it; where a fault is given the system call fails with it. -/
inductive PublishMove
  | openParent (refusal : Option ParentRefusal)
  | inspect (fault : Option IoError)
  | create (draw : Except IoError Bytes) (fault : Option IoError)
  | read (answer : Except IoError Nat)
  | write (granted : Nat) (fault : Option (Nat × IoError))
  | sync (fault : Option IoError)
  | verify (fault : Option IoError)
  | link (fault : Option IoError)
  | unlink (fault : Option IoError)
  | syncParent (fault : Option IoError)

/-- The temporary name a move draws. -/
def PublishMove.drawn : PublishMove → Option String
  | .create (.ok bytes) _ => some (temporaryName bytes)
  | _ => none

namespace PublishDir

/-- `statat` on a name, without following it. -/
def inspect (d : PublishDir) (name : String) (fault : Option IoError) : Except IoError Unit :=
  match fault with
  | some e => .error e
  | none => if d.find name = none then .error notFound else .ok ()

/-- `openat` with `O_CREAT | O_EXCL`. -/
def createExclusive (d : PublishDir) (name : String) (fault : Option IoError) : Except IoError PublishDir :=
  match fault with
  | some e => .error e
  | none => if d.find name = none then .ok (d.create name []) else .error alreadyExists

/-- A write at the end of an inode. -/
def append (d : PublishDir) (ino : Nat) (bytes : Bytes) : PublishDir := d.modify ino (· ++ bytes)

/-- `linkat`, which never replaces an entry. -/
def linkat (d : PublishDir) (name target : String) (fault : Option IoError) : Except IoError PublishDir :=
  match fault with
  | some e => .error e
  | none =>
    match d.find name, d.find target with
    | none, _ => .error notFound
    | some _, some _ => .error alreadyExists
    | some ino, none => .ok (d.link target ino)

def unlinkat (d : PublishDir) (name : String) (fault : Option IoError) : Except IoError PublishDir :=
  match fault with
  | some e => .error e
  | none => if d.find name = none then .error notFound else .ok (d.unlink name)

end PublishDir

namespace PublishCall

def goes (c : PublishCall) (phase : PublishPhase) : PublishCall := { c with phase }

/-- An error after the temporary was created: the guard removes it before the call returns. -/
def fails (c : PublishCall) (error : PublicationError) : PublishCall := c.goes (.dropping error)

def returns (c : PublishCall) (result : Except PublicationError PublishedPackage) : PublishCall :=
  c.goes (.returned result)

/-- One attempt of `create_fresh_file`. -/
def createTemporary (dest : Destination) (d : PublishDir) (c : PublishCall) (attempts : Nat)
    (draw : Except IoError Bytes) (fault : Option IoError) : PublishDir × PublishCall :=
  match draw with
  | .error e => (d, c.returns (.error (.io .createTemporary (some dest.parent) e)))
  | .ok bytes =>
    let name := temporaryName bytes
    match d.createExclusive name fault with
    | .ok d' => (d', { c with temp := some ⟨name, d.nodes.length⟩, phase := .reading 0 })
    | .error e =>
      if e = alreadyExists ∧ 1 < attempts then (d, c.goes (.creating (attempts - 1)))
      else (d, c.returns (.error (.io .createTemporary (some (dest.parent ++ "/" ++ name)) e)))

/-- One read of the retained bytes. -/
def readRetained (c : PublishCall) (pos : Nat) (answer : Except IoError Nat) : PublishCall :=
  match answer with
  | .error e => c.fails (.io .readRetained none e)
  | .ok n =>
    if c.copyBuffer < n then c.fails (.io .readRetained none (.os (.other 0)))
    else if (c.bytes.file.drop pos).take n = [] then c.goes .syncing
    else c.goes (.writing pos ((c.bytes.file.drop pos).take n))

/-- The charge for a chunk, and the `write_all` of what was granted. -/
def writeTemporary (path : String) (d : PublishDir) (c : PublishCall) (t : Temporary) (pos : Nat) (chunk : Bytes)
    (granted : Nat) (fault : Option (Nat × IoError)) : PublishDir × PublishCall :=
  match fault with
  | some (landed, e) =>
    (d.append t.ino ((chunk.take granted).take landed), c.fails (.io .writeTemporary (some path) e))
  | none =>
    (d.append t.ino (chunk.take granted),
      if granted < chunk.length then c.fails (.diskBudgetExceeded c.limit) else c.goes (.reading (pos + chunk.length)))

/-- The read-back: the length of what was written, then its digest. -/
def verify (sha256 : Bytes → Bytes) (path : String) (c : PublishCall) (contents : Bytes) : PublishCall :=
  if contents.length ≠ c.bytes.len then c.fails (.copyMismatch path (.length c.bytes.len contents.length))
  else if sha256 contents ≠ c.bytes.sha256 then c.fails (.copyMismatch path .digest)
  else c.goes .linking

/-- A step of `publish_file`. -/
def step (sha256 : Bytes → Bytes) (dest : Destination) (m : PublishMove) (d : PublishDir) (c : PublishCall) :
    Option (PublishDir × PublishCall) :=
  match c.phase, m, c.temp with
  | .opening, .openParent none, _ => some (d, c.goes .inspecting)
  | .opening, .openParent (some refusal), _ => some (d, c.returns (.error refusal.error))
  | .inspecting, .inspect fault, _ =>
    match d.inspect dest.name fault with
    | .ok () => some (d, c.returns (.error (.destinationExists dest.path)))
    | .error e =>
      if e = notFound then some (d, c.goes (.creating NAME_ATTEMPTS))
      else some (d, c.returns (.error (.io .inspectDestination (some dest.path) e)))
  | .creating attempts, .create draw fault, _ => some (c.createTemporary dest d attempts draw fault)
  | .reading pos, .read answer, _ => some (d, c.readRetained pos answer)
  | .writing pos chunk, .write granted fault, some t =>
    some (c.writeTemporary (dest.parent ++ "/" ++ t.name) d t pos chunk granted fault)
  | .syncing, .sync none, _ => some (d, c.goes .verifying)
  | .syncing, .sync (some e), some t => some (d, c.fails (.io .syncFile (some (dest.parent ++ "/" ++ t.name)) e))
  | .verifying, .verify none, some t =>
    d.nodes[t.ino]?.map fun contents => (d, c.verify sha256 (dest.parent ++ "/" ++ t.name) contents)
  | .verifying, .verify (some e), some t => some (d, c.fails (.io .verify (some (dest.parent ++ "/" ++ t.name)) e))
  | .linking, .link fault, some t =>
    match d.linkat t.name dest.name fault with
    | .ok d' => some (d', c.goes .removing)
    | .error e => some (d, c.goes (.classifying e))
  | .classifying source, .inspect fault, _ =>
    match d.inspect dest.name fault with
    | .ok () => some (d, c.fails (.destinationExists dest.path))
    | .error _ => some (d, c.fails (.io .link (some dest.path) source))
  | .dropping error, .unlink fault, some t =>
    match d.unlinkat t.name fault with
    | .ok d' => some (d', c.returns (.error error))
    | .error _ => some (d, c.returns (.error error))
  | .removing, .unlink fault, some t =>
    match d.unlinkat t.name fault with
    | .ok d' => some (d', c.goes .syncingParent)
    | .error e => some (d, c.returns (.error (.publishDurability dest.path .removeTemporary e)))
  | .syncingParent, .syncParent none, _ => some (d, c.returns (.ok ⟨dest.path, c.bytes.sha256, c.bytes.len⟩))
  | .syncingParent, .syncParent (some e), _ =>
    some (d, c.returns (.error (.publishDurability dest.path .syncDirectory e)))
  | _, _, _ => none

/-- A step, with whether the destination came to be by it. -/
def act (sha256 : Bytes → Bytes) (dest : Destination) (m : PublishMove) (d : PublishDir) (c : PublishCall) :
    Option (PublishDir × PublishCall) :=
  (c.step sha256 dest m d).map fun (d', c') =>
    (d', { c' with created := c.created || (d.find dest.name == none && d'.find dest.name != none) })

end PublishCall

/-- What a call publishes: retained bytes, as a finished snapshot has them, under a scope's limit and buffer. -/
structure PublishRequest (sha256 : Bytes → Bytes) where
  bytes : RetainedBytes
  counted : bytes.Counted sha256
  limit : Nat
  copyBuffer : Nat

def publishCalls (sha256 : Bytes → Bytes) (dest : Destination) :
    Pool.System (PublishRequest sha256) PublishMove PublishDir PublishCall :=
  ⟨fun request => ⟨request.bytes, request.limit, request.copyBuffer, none, .opening, false⟩, PublishCall.act sha256 dest⟩

end DeployCore
