import DeployCore.TarWalker

/-! # The tar walker over any source

The walker as the code has it, generic in what its counted reader reads from: a file, a decoder, another counted
reader. What it judges is that of `TarWalker`, which is this walker over a byte string. -/

namespace DeployCore
open Fallible

namespace CountingReader
variable {σ : Type} (answers : Answers σ) (patience : Nat)

/-- `io::ErrorKind::Interrupted`. -/
def INTERRUPTED : SourceErrorKind := .other 4

/-- `Read::read` of a source that is asked again after an interruption, at most `patience` times: one that goes on
interrupting has failed by it. -/
def pull (r : CountingReader σ) (buf : Nat) : Except ContentFault Bytes × CountingReader σ :=
  let call := r.read answers patience buf
  (call.outcome.getD (.error (.io ⟨INTERRUPTED, none⟩)), call.reader)

/-- Reads until `need` more bytes are there, at most `chunk` at a time; each round brings one at least. -/
def pullMore (chunk : Nat) :
    Nat → CountingReader σ → (need : Nat) → (filled : Bytes) → Except ContentFault Bytes × CountingReader σ
  | _, r, 0, filled => (.ok filled, r)
  | 0, r, _, _ => (.error (.malformed .truncated), r)
  | fuel + 1, r, need, filled =>
    match r.pull answers patience (min chunk need) with
    | (.error fault, r) => (.error fault, r)
    | (.ok [], r) => (.error (.malformed .truncated), r)
    | (.ok bytes, r) => pullMore chunk fuel r (need - bytes.length) (filled ++ bytes)

theorem pullMore_succ {answers : Answers σ} {patience chunk fuel need : Nat} {r : CountingReader σ} {filled : Bytes} :
    r.pullMore answers patience chunk (fuel + 1) (need + 1) filled =
      match r.pull answers patience (min chunk (need + 1)) with
      | (.error fault, r) => (.error fault, r)
      | (.ok [], r) => (.error (.malformed .truncated), r)
      | (.ok bytes, r) => r.pullMore answers patience chunk fuel (need + 1 - bytes.length) (filled ++ bytes) := by
  rw [pullMore]
  exact Nat.succ_ne_zero need

/-- `read_full`. -/
def pullFull (r : CountingReader σ) (len : Nat) : Except ContentFault Bytes × CountingReader σ :=
  pullMore answers patience len len r len []

end CountingReader

structure SourceWalker (σ : Type) where
  source : CountingReader σ
  rules : Rules
  copyBuffer : ResourceLimit
  unreadData : Nat
  unreadPadding : Nat
  latch : Latch
  finished : Bool

abbrev SourceWalk (σ : Type) := EStateM ContentFault (SourceWalker σ)

namespace SourceWalker
variable {σ : Type}

/-- `TarWalker::new`. -/
def ofSource (source : CountingReader σ) (policy : EntryPolicy) (limits : ContentLimits) : SourceWalker σ where
  source
  rules := policy.rules limits
  copyBuffer := limits.resourceLimit .copyBuffer
  unreadData := 0
  unreadPadding := 0
  latch := none
  finished := false

def onSource {α : Type} (read : CountingReader σ → Except ContentFault α × CountingReader σ) : SourceWalk σ α :=
  fun w =>
    match read w.source with
    | (.ok a, source) => .ok a { w with source }
    | (.error fault, source) => .error fault { w with source }

def onRules {α : Type} (step : EStateM ContentFault Rules α) : SourceWalk σ α :=
  fun w =>
    match step w.rules with
    | .ok a rules => .ok a { w with rules }
    | .error fault rules => .error fault { w with rules }

def checkAvailable (n : Nat) : SourceWalk σ Unit := do
  let w ← get
  lift (w.source.checkAvailable n)

/-- Counts a header and reads its fields, and where its data begins. -/
def readHeader (block : Bytes) (headerOffset : Nat) : SourceWalk σ (Typeflag × HeaderFields × Nat) := do
  onRules Rules.countHeader
  let w ← get
  let (typeflag, header) ← lift (TarWalker.decodeHeader w.rules block)
  if U64_MAX < headerOffset + BLOCK then throw (.malformed .offsetOverflow)
  else pure (typeflag, header, headerOffset + BLOCK)

def readEntry (kind : EntryKind) (header : HeaderFields) (headerOffset dataOffset : Nat) : SourceWalk σ TarEntry := do
  let admitted ← onRules (Rules.admitHeader kind header)
  let padded ← lift (paddedLen dataOffset admitted.size)
  checkAvailable padded
  modify fun w => { w with unreadData := admitted.size, unreadPadding := padded - admitted.size }
  pure {
    kind
    name := admitted.name
    linkTarget := admitted.linkTarget
    size := admitted.size
    headerOffset
    dataOffset
    dataLen := admitted.size }

/-- Reports a latched fault again, and latches a new one. -/
def latched {α : Type} (x : SourceWalk σ α) : SourceWalk σ α :=
  fun w =>
    match w.latch.check with
    | .error fault => .error fault w
    | .ok () =>
      match x w with
      | .ok a w => .ok a w
      | .error fault w => .error fault { w with latch := w.latch.record fault }

section Reads
variable (answers : Answers σ) (patience : Nat)

/-- Reads and drops `left` bytes, through a buffer of `skip`. -/
def skipMore (skip left : Nat) (r : CountingReader σ) : Except ContentFault Unit × CountingReader σ :=
  let (outcome, r) := r.pullMore answers patience skip left left []
  (outcome.map fun _ => (), r)

/-- Skips whatever data and padding of the current entry remain unread. -/
def skipUnread : SourceWalk σ Unit := do
  let w ← get
  let left := w.unreadData + w.unreadPadding
  if U64_MAX < left then throw (.malformed .offsetOverflow)
  else do
    set { w with unreadData := 0, unreadPadding := 0 }
    let skip ← lift (allocLen w.copyBuffer.max w.copyBuffer)
    onSource (skipMore answers patience skip left)

def readTail : Nat → CountingReader σ → (tail : Nat) → Except ContentFault Unit × CountingReader σ
  | 0, r, _ => (.error (.malformed .truncated), r)
  | fuel + 1, r, tail =>
    match r.pull answers patience (min BLOCK (MAX_ZERO_TAIL + 1 - tail)) with
    | (.error fault, r) => (.error fault, r)
    | (.ok [], r) => (TarWalker.endTail tail, r)
    | (.ok bytes, r) =>
      match TarWalker.scanTail tail bytes with
      | .error fault => (.error fault, r)
      | .ok tail => readTail fuel r tail

/-- Reads the zero tail from just after its first block. Each read but the last brings a byte, and there is no room
for more of them than the longest tail has. -/
def finishTail : SourceWalk σ Unit :=
  onSource fun source => readTail answers patience (MAX_ZERO_TAIL + 1) source BLOCK

/-- Reads, charges and records one extension record whose header has passed the lexical checks. -/
def readExtension (extension : Extension) (len dataOffset : Nat) (flag : UInt8) : SourceWalk σ Unit := do
  let limit ← onRules (TarWalker.chargeExtension extension len flag)
  let padded ← lift (paddedLen dataOffset len)
  checkAvailable padded
  let len ← lift (allocLen len limit)
  let payload ← onSource fun source => source.pullFull answers patience len
  modify fun w => { w with unreadPadding := padded - len }
  onRules (TarWalker.recordExtension extension payload)

/-- What follows the archive's first zero block. -/
def finish : SourceWalk σ Round := do
  let w ← get
  if w.rules.hasPending then throw (.malformed .danglingExtension)
  else do
    finishTail answers patience
    modify fun w => { w with finished := true }
    pure .finished

/-- The record that a header begins. -/
def readRecord (block : Bytes) (headerOffset : Nat) : SourceWalk σ Round := do
  let (typeflag, header, dataOffset) ← readHeader block headerOffset
  match typeflag with
  | .extension extension => do
    readExtension answers patience extension header.size dataOffset (block.getD TYPEFLAG 0)
    pure .again
  | .entry kind => do
    let entry ← readEntry kind header headerOffset dataOffset
    pure (.entry entry)

/-- The next header and its record, or the end. -/
def readNext : SourceWalk σ Round := do
  let w ← get
  let block ← onSource fun source => source.pullFull answers patience BLOCK
  if TarWalker.isZero block then finish answers patience else readRecord answers patience block w.source.position

/-- One round of the loop of `advance`. -/
def round : SourceWalk σ Round := do
  skipUnread answers patience
  readNext answers patience

/-- Rounds until there is an entry or the end. Each further round has counted a header. -/
def advanceFrom : Nat → SourceWalk σ (Option TarEntry)
  | 0 => throw (.malformed .truncated)
  | fuel + 1 => do
    match ← round answers patience with
    | .again => advanceFrom fuel
    | .finished => pure none
    | .entry entry => pure (some entry)

def advance : SourceWalk σ (Option TarEntry) := do
  let w ← get
  advanceFrom answers patience (w.rules.headersLeft + 1)

def nextEntry : SourceWalk σ (Option TarEntry) :=
  latched do
    let w ← get
    if w.finished then pure none else advance answers patience

def readData (buf : Nat) : SourceWalk σ Bytes := do
  let w ← get
  if buf = 0 ∨ w.unreadData = 0 then pure []
  else do
    let bytes ← onSource fun source => source.pull answers patience (min buf w.unreadData)
    if bytes.isEmpty then throw (.malformed .truncated)
    else do
      modify fun w => { w with unreadData := w.unreadData - bytes.length }
      pure bytes

/-- `Read::read` of the current entry's reader. -/
def readEntryData (buf : Nat) : SourceWalk σ Bytes :=
  latched (readData answers patience buf)

/-- Reads of the current entry's data until one brings nothing, all bytes together. -/
def readEntryToEnd (buf : Nat) : Nat → (read : Bytes) → SourceWalk σ Bytes
  | 0, _ => throw (.malformed .truncated)
  | fuel + 1, read => do
    let bytes ← readEntryData answers patience buf
    if bytes.isEmpty then pure read else readEntryToEnd buf fuel (read ++ bytes)

/-- What `hash_data` hashes of the current entry; each read but the last brings a byte. -/
def entryData (buf : Nat) : SourceWalk σ Bytes := do
  let w ← get
  readEntryToEnd answers patience buf (w.unreadData + 1) []

end Reads
end SourceWalker

end DeployCore
