import DeployCore.Io
import DeployCore.Lib.Pool

/-! # The disk budget and its holders (`src/retain.rs`)

A `DiskBudget` is two counters that many charges update, each update atomic and in a step of its own. A bare
`Charge`, a `SnapshotWriter` and a finished `RetainedBytes` hold a part of it; what the operating system answers
to a writer is chosen by the move. -/

namespace DeployCore

/-- The subtraction of a 64-bit counter, which wraps around. -/
@[irreducible] def wrappingSub (a b : Nat) : Nat := (a + 2 ^ 64 - b) % 2 ^ 64

theorem wrappingSub_add {a b : Nat} (h : b ≤ a) (hlt : a < 2 ^ 64) : wrappingSub a b + b = a := by
  unfold wrappingSub
  omega

structure BudgetState where
  limit : Nat
  used : Nat
  highWater : Nat
  deriving DecidableEq

def DiskBudget.new (limit : Nat) : BudgetState := ⟨limit, 0, 0⟩

namespace BudgetState

def withUsed (b : BudgetState) (used : Nat) : BudgetState := { b with used }

/-- The `try_update` of `grow`: what is granted and the counters after it, unless nothing is left. -/
def tryUpdate (b : BudgetState) (want : Nat) : Option (Nat × BudgetState) :=
  let granted := min want (b.limit - b.used)
  if 0 < granted then some (granted, b.withUsed (b.used + granted)) else none

/-- `high_water.fetch_max`. -/
def fetchMax (b : BudgetState) (count : Nat) : BudgetState := { b with highWater := max b.highWater count }

/-- `used.fetch_sub`. -/
def fetchSub (b : BudgetState) (bytes : Nat) : BudgetState := b.withUsed (wrappingSub b.used bytes)

end BudgetState

/-- Bytes charged against a budget. -/
structure Charge where
  bytes : Nat
  deriving DecidableEq

/-- A `grow` between its two updates: what it was granted, and the count it has yet to report. -/
structure Grant where
  granted : Nat
  count : Nat
  deriving DecidableEq

namespace Charge

/-- `grow` up to its first update; without a grant it has returned 0. -/
def grow (b : BudgetState) (want : Nat) : Option Grant × BudgetState :=
  match b.tryUpdate want with
  | some (granted, b') => (some ⟨granted, b.used + granted⟩, b')
  | none => (none, b)

/-- The rest of `grow`. -/
def grown (c : Charge) (b : BudgetState) (grant : Grant) : Charge × BudgetState :=
  (⟨c.bytes + grant.granted⟩, b.fetchMax grant.count)

def shrink (c : Charge) (b : BudgetState) (bytes : Nat) : Charge × BudgetState :=
  let bytes := min bytes c.bytes
  (⟨c.bytes - bytes⟩, b.fetchSub bytes)

def drop (c : Charge) (b : BudgetState) : BudgetState := b.fetchSub c.bytes

end Charge

/-- The operations of a snapshot that name themselves in an error. -/
inductive SnapshotOperation
  | writeSnapshot
  | reopenSnapshot
  | inspectSnapshot
  | unlinkSnapshot
  deriving DecidableEq

inductive SnapshotMismatchKind
  | identity
  | length (expected actual : Nat)
  deriving DecidableEq

/-- The `RetentionError`s a snapshot fails with. -/
inductive RetentionError
  | budgetExceeded (limit : Nat)
  | snapshotMismatch (path : String) (kind : SnapshotMismatchKind)
  | io (operation : SnapshotOperation) (path : String) (source : IoError)
  deriving DecidableEq

/-- An `io::Error` of a file write: an interruption or anything else. -/
inductive WriteFault
  | interrupted
  | other (error : IoError)
  deriving DecidableEq

/-- An error of `SnapshotWriter::write`: an interruption as it is, or a wrapped `RetentionError`. -/
inductive SnapshotWriteError
  | interrupted
  | retention (error : RetentionError)
  deriving DecidableEq

/-- An unfinished snapshot: the contents of the file it writes, the bytes hashed, their count and its charge. -/
structure SnapshotWriter where
  path : String
  file : Option Bytes
  hasher : Bytes
  len : Nat
  charge : Charge
  deriving DecidableEq

/-- A finished snapshot: the contents of the unlinked file, and what was counted of them. -/
structure RetainedBytes where
  file : Bytes
  len : Nat
  sha256 : Bytes
  charge : Charge
  deriving DecidableEq

/-- What the operating system answers to `finish`: to the flush and the reopening, to the two `fstat`s (whether
the inodes are one, and the size, unless it is negative), and to the unlinking. -/
structure FinishAnswers where
  flush : Except IoError Unit
  reopen : Except IoError Unit
  stat : Except IoError (Bool × Except IoError Nat)
  unlink : Except IoError Unit

namespace SnapshotWriter

def fail (w : SnapshotWriter) (operation : SnapshotOperation) (e : IoError) : RetentionError :=
  .io operation w.path e

/-- The error for an `io::Error::other` with a text of the code's own. -/
def otherError : IoError := .os (.other 0)

/-- Writes an already-charged chunk, as much of it as the file answers, and feeds what landed to the digest and the
length. -/
def writeCharged (w : SnapshotWriter) (chunk : Bytes) (answer : Except WriteFault Nat) :
    Except WriteFault Nat × SnapshotWriter :=
  match w.file with
  | none => (.error (.other otherError), w)
  | some contents =>
    match answer with
    | .error e => (.error e, w)
    | .ok written =>
      let w := { w with file := some (contents ++ chunk.take written) }
      if written ≤ chunk.length then
        let w := { w with hasher := w.hasher ++ chunk.take written }
        if w.len + written < 2 ^ 64 then (.ok written, { w with len := w.len + written })
        else (.error (.other otherError), w)
      else (.error (.other otherError), w)

/-- How much of a chunk landed. -/
def written : Except WriteFault Nat → Nat
  | .ok written => written
  | .error _ => 0

/-- The end of `write`: what did not land is given back, and what the caller is answered. -/
def settle (w : SnapshotWriter) (b : BudgetState) (granted : Nat) (result : Except WriteFault Nat) :
    Except SnapshotWriteError Nat × SnapshotWriter × BudgetState :=
  let (charge, b) := w.charge.shrink b (granted - written result)
  let answer := match result with
    | .ok written => .ok written
    | .error .interrupted => .error .interrupted
    | .error (.other e) => .error (.retention (w.fail .writeSnapshot e))
  (answer, { w with charge }, b)

def finish (sha256 : Bytes → Bytes) (w : SnapshotWriter) (answers : FinishAnswers) :
    Except RetentionError RetainedBytes := do
  let some contents := w.file | .error (w.fail .writeSnapshot otherError)
  answers.flush.mapError (w.fail .writeSnapshot)
  answers.reopen.mapError (w.fail .reopenSnapshot)
  let (sameInode, size) ← answers.stat.mapError (w.fail .inspectSnapshot)
  if !sameInode then .error (.snapshotMismatch w.path .identity)
  answers.unlink.mapError (w.fail .unlinkSnapshot)
  let actual ← size.mapError (w.fail .inspectSnapshot)
  if actual ≠ w.len then .error (.snapshotMismatch w.path (.length w.len actual))
  return ⟨contents, w.len, sha256 w.hasher, w.charge⟩

end SnapshotWriter

/-- Where a writer stands: between two writes, with the answer to the last one; inside `grow`; about to write an
already-charged chunk; or with what did not land yet to be given back. -/
inductive WriterPhase
  | ready (last : Option (Except SnapshotWriteError Nat))
  | growing (buf : Bytes) (grant : Grant)
  | charged (buf : Bytes) (granted : Nat)
  | unsettled (granted : Nat) (result : Except WriteFault Nat)

/-- Who holds a part of the budget. A bare charge may stand inside `grow`; what is gone was dropped, or failed to
finish. -/
inductive Holder
  | charge (c : Charge) (growing : Option Grant)
  | writer (w : SnapshotWriter) (phase : WriterPhase)
  | retained (bytes : RetainedBytes)
  | gone (error : Option RetentionError)

/-- The moves of a holder, up to its next update of a counter or answer of the operating system. -/
inductive BudgetMove
  | grow (want : Nat)
  | grown
  | shrink (bytes : Nat)
  | write (buf : Bytes)
  | writeCharged (answer : Except WriteFault Nat)
  | settle
  | finish (answers : FinishAnswers)
  | drop

/-- What a file may answer to a write of a chunk: an error, or at most the chunk. -/
def FileAnswers (chunk : Bytes) : Except WriteFault Nat → Bool
  | .ok written => written ≤ chunk.length
  | .error _ => true

def Holder.act (sha256 : Bytes → Bytes) : BudgetMove → BudgetState → Holder → Option (BudgetState × Holder)
  | .grow want, b, .charge c none =>
    let (grant, b) := Charge.grow b want
    some (b, .charge c grant)
  | .grown, b, .charge c (some grant) =>
    let (c, b) := c.grown b grant
    some (b, .charge c none)
  | .shrink bytes, b, .charge c none =>
    let (c, b) := c.shrink b bytes
    some (b, .charge c none)
  | .drop, b, .charge c none => some (c.drop b, .gone none)
  | .write buf, b, .writer w (.ready _) =>
    if buf = [] then some (b, .writer w (.ready (some (.ok 0))))
    else
      match Charge.grow b buf.length with
      | (some grant, b) => some (b, .writer w (.growing buf grant))
      | (none, b) => some (b, .writer w (.ready (some (.error (.retention (.budgetExceeded b.limit))))))
  | .grown, b, .writer w (.growing buf grant) =>
    let (c, b) := w.charge.grown b grant
    some (b, .writer { w with charge := c } (.charged buf grant.granted))
  | .writeCharged answer, b, .writer w (.charged buf granted) =>
    if FileAnswers (buf.take granted) answer then
      let (result, w) := w.writeCharged (buf.take granted) answer
      some (b, .writer w (.unsettled granted result))
    else none
  | .settle, b, .writer w (.unsettled granted result) =>
    let (answer, w, b) := w.settle b granted result
    some (b, .writer w (.ready (some answer)))
  | .finish answers, b, .writer w (.ready _) =>
    match w.finish sha256 answers with
    | .ok bytes => some (b, .retained bytes)
    | .error e => some (w.charge.drop b, .gone (some e))
  | .drop, b, .writer w (.ready _) => some (w.charge.drop b, .gone none)
  | .drop, b, .retained bytes => some (bytes.charge.drop b, .gone none)
  | _, _, _ => none

/-- What a holder has of the budget: its charge, and what its `grow` has been granted. -/
def Holder.held : Holder → Nat
  | .charge c growing => c.bytes + (growing.elim 0 Grant.granted)
  | .writer w (.growing _ grant) => w.charge.bytes + grant.granted
  | .writer w _ => w.charge.bytes
  | .retained bytes => bytes.charge.bytes
  | .gone _ => 0

/-- The count a holder's `grow` has yet to report. -/
def Holder.unreported : Holder → Option Nat
  | .charge _ (some grant) => some grant.count
  | .writer _ (.growing _ grant) => some grant.count
  | _ => none

/-- Who may come to hold a part of the budget. -/
inductive BudgetUser
  | charge
  | writer (path : String)

/-- A holder, with what its moves have added to the budget and taken off it. -/
structure Account where
  holder : Holder
  taken : Nat
  given : Nat

/-- `empty_charge` and `snapshot_writer`. -/
def BudgetUser.opens : BudgetUser → Account
  | .charge => ⟨.charge ⟨0⟩ none, 0, 0⟩
  | .writer path => ⟨.writer ⟨path, some [], [], 0, ⟨0⟩⟩ (.ready none), 0, 0⟩

def Account.act (sha256 : Bytes → Bytes) (m : BudgetMove) (b : BudgetState) (a : Account) :
    Option (BudgetState × Account) :=
  (a.holder.act sha256 m b).map fun (b', holder) =>
    (b', ⟨holder, a.taken + (b'.used - b.used), a.given + (b.used - b'.used)⟩)

def budgetHolders (sha256 : Bytes → Bytes) : Pool.System BudgetUser BudgetMove BudgetState Account :=
  ⟨BudgetUser.opens, Account.act sha256⟩

end DeployCore
