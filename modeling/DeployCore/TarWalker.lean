import DeployCore.ByteStream
import DeployCore.Lib.Fallible
import DeployCore.TarRules

/-! # The tar walker

A pull-based walker over a tar stream: header by header, with the extension records of a layer read on the way, and
whatever data of an entry its caller left unread skipped before the next header. -/

namespace DeployCore
open Fallible

/-- Shortest and longest zero tail, the first zero block included. -/
def MIN_ZERO_TAIL : Nat := 2 * BLOCK
def MAX_ZERO_TAIL : Nat := 1048576

/-- One real entry a walker admitted. -/
structure TarEntry where
  kind : EntryKind
  name : Bytes
  linkTarget : Option Bytes
  size : Nat
  headerOffset : Nat
  dataOffset : Nat
  dataLen : Nat
  deriving DecidableEq

inductive EntryPolicy
  | imageArchive
  | layer (entries extensionTotal : Budget)

structure TarWalker where
  source : StreamReader
  rules : Rules
  copyBuffer : ResourceLimit
  unreadData : Nat
  unreadPadding : Nat
  latch : Latch
  finished : Bool

abbrev Walk := EStateM ContentFault TarWalker

/-- What one round of the loop of `advance` comes to. -/
inductive Round
  | again
  | finished
  | entry (entry : TarEntry)

def EntryPolicy.rules (limits : ContentLimits) : EntryPolicy → Rules
  | imageArchive => .image {
      entries := .ofLimit (limits.resourceLimit .imageEntries)
      path := limits.resourceLimit .imagePathBytes
      seen := .empty }
  | layer entries extensionTotal => .layer {
      entries
      extensionTotal
      extension := limits.resourceLimit .layerExtension
      path := limits.resourceLimit .layerPathBytes
      link := limits.resourceLimit .layerLinkTargetBytes
      pending := .empty }

namespace TarWalker

/-- `TarWalker::new`. -/
def ofSource (source : StreamReader) (policy : EntryPolicy) (limits : ContentLimits) : TarWalker where
  source
  rules := policy.rules limits
  copyBuffer := limits.resourceLimit .copyBuffer
  unreadData := 0
  unreadPadding := 0
  latch := none
  finished := false

/-- Runs a read of the walker's source. -/
def onSource {α : Type} (read : StreamReader → Except ContentFault α × StreamReader) : Walk α :=
  fun w =>
    match read w.source with
    | (.ok a, source) => .ok a { w with source }
    | (.error fault, source) => .error fault { w with source }

/-- Runs a step of the walker's rules. -/
def onRules {α : Type} (step : EStateM ContentFault Rules α) : Walk α :=
  fun w =>
    match step w.rules with
    | .ok a rules => .ok a { w with rules }
    | .error fault rules => .error fault { w with rules }

/-- Reads and drops `left` bytes, through a buffer of `skip`. -/
def skipMore (skip left : Nat) (r : StreamReader) : Except ContentFault Unit × StreamReader :=
  let (outcome, r) := r.readMore skip left left []
  (outcome.map fun _ => (), r)

/-- Skips whatever data and padding of the current entry remain unread. -/
def skipUnread : Walk Unit := do
  let w ← get
  let left := w.unreadData + w.unreadPadding
  if U64_MAX < left then throw (.malformed .offsetOverflow)
  else do
    set { w with unreadData := 0, unreadPadding := 0 }
    let skip ← lift (allocLen w.copyBuffer.max w.copyBuffer)
    onSource (skipMore skip left)

/-- The bytes of a zero tail that was `tail` bytes long so far, up to the first that offends. -/
def scanTail (tail : Nat) : Bytes → Except ContentFault Nat
  | [] => .ok tail
  | byte :: bytes =>
    if MAX_ZERO_TAIL < tail + 1 then .error (.malformed .zeroTailTooLong)
    else if byte ≠ 0 then .error (.malformed .trailingData)
    else scanTail (tail + 1) bytes

/-- Whether a zero tail of this length ends an archive. -/
def endTail (tail : Nat) : Except ContentFault Unit :=
  if MIN_ZERO_TAIL ≤ tail ∧ tail % BLOCK = 0 then .ok () else .error (.malformed .truncated)

def readTail : Nat → StreamReader → (tail : Nat) → Except ContentFault Unit × StreamReader
  | 0, r, _ => (.error (.malformed .truncated), r)
  | fuel + 1, r, tail =>
    match r.readStream (min BLOCK (MAX_ZERO_TAIL + 1 - tail)) with
    | (.error fault, r) => (.error fault, r)
    | (.ok [], r) => (endTail tail, r)
    | (.ok bytes, r) =>
      match scanTail tail bytes with
      | .error fault => (.error fault, r)
      | .ok tail => readTail fuel r tail

/-- Reads the zero tail from just after its first block; each read but the last brings a byte. -/
def finishTail : Walk Unit :=
  onSource fun source => readTail (source.source.bytes.length + 1) source BLOCK

def isZero (block : Bytes) : Bool :=
  block.all (· == 0)

/-- The typeflag and the fields of a header under a policy. -/
def decodeHeader (rules : Rules) (block : Bytes) : Except ContentFault (Typeflag × HeaderFields) := do
  verifyChecksum block
  let magic ← readMagic block
  let flag := block.getD TYPEFLAG 0
  match rules.classify flag with
  | none => .error (.unsupported (.entryType flag))
  | some typeflag => do
    let header ← parseFields block magic flag
    .ok (typeflag, header)

/-- Counts a header and reads its fields, and where its data begins. -/
def readHeader (block : Bytes) (headerOffset : Nat) : Walk (Typeflag × HeaderFields × Nat) := do
  onRules Rules.countHeader
  let w ← get
  let (typeflag, header) ← lift (decodeHeader w.rules block)
  if U64_MAX < headerOffset + BLOCK then throw (.malformed .offsetOverflow)
  else pure (typeflag, header, headerOffset + BLOCK)

def checkAvailable (n : Nat) : Walk Unit := do
  let w ← get
  lift (w.source.checkAvailable n)

/-- Refuses a record that is not due or not affordable, and charges one that is. -/
def chargeExtension (extension : Extension) (len : Nat) (flag : UInt8) : EStateM ContentFault Rules ResourceLimit
  | .image rules => .error (.unsupported (.entryType flag)) (.image rules)
  | .layer rules =>
    match rules.pending.refuseDuplicate extension with
    | .error fault => .error fault (.layer rules)
    | .ok () =>
      if rules.extension.max < len then .error rules.extension.exceeded (.layer rules)
      else
        match rules.extensionTotal.charge len with
        | .error fault => .error fault (.layer rules)
        | .ok extensionTotal => .ok rules.extension (.layer { rules with extensionTotal })

def recordExtension (extension : Extension) (payload : Bytes) : EStateM ContentFault Rules Unit
  | .image rules => .ok () (.image rules)
  | .layer rules =>
    match rules.pending.record extension payload with
    | .error fault => .error fault (.layer rules)
    | .ok pending => .ok () (.layer { rules with pending })

/-- Reads, charges and records one extension record whose header has passed the lexical checks. -/
def readExtension (extension : Extension) (len dataOffset : Nat) (flag : UInt8) : Walk Unit := do
  let limit ← onRules (chargeExtension extension len flag)
  let padded ← lift (paddedLen dataOffset len)
  checkAvailable padded
  let len ← lift (allocLen len limit)
  let payload ← onSource fun source => source.readFull len
  modify fun w => { w with unreadPadding := padded - len }
  onRules (recordExtension extension payload)

def readEntry (kind : EntryKind) (header : HeaderFields) (headerOffset dataOffset : Nat) : Walk TarEntry := do
  let admitted ← onRules (Rules.admitHeader kind header)
  let padded ← lift (paddedLen dataOffset admitted.size)
  checkAvailable padded
  modify fun w => { w with unreadData := admitted.size, unreadPadding := padded - admitted.size }
  pure {
    kind
    name := admitted.name
    linkTarget := admitted.linkTarget
    size := admitted.size
    headerOffset
    dataOffset
    dataLen := admitted.size }

/-- What follows the archive's first zero block. -/
def finish : Walk Round := do
  let w ← get
  if w.rules.hasPending then throw (.malformed .danglingExtension)
  else do
    finishTail
    modify fun w => { w with finished := true }
    pure .finished

/-- The record that a header begins. -/
def readRecord (block : Bytes) (headerOffset : Nat) : Walk Round := do
  let (typeflag, header, dataOffset) ← readHeader block headerOffset
  match typeflag with
  | .extension extension => do
    readExtension extension header.size dataOffset (block.getD TYPEFLAG 0)
    pure .again
  | .entry kind => do
    let entry ← readEntry kind header headerOffset dataOffset
    pure (.entry entry)

/-- The next header and its record, or the end. -/
def readNext : Walk Round := do
  let w ← get
  let block ← onSource fun source => source.readFull BLOCK
  if isZero block then finish else readRecord block w.source.position

/-- One round of the loop of `advance`. -/
def round : Walk Round := do
  skipUnread
  readNext

/-- Rounds until there is an entry or the end. Each further round has counted a header. -/
def advanceFrom : Nat → Walk (Option TarEntry)
  | 0 => throw (.malformed .truncated)
  | fuel + 1 => do
    match ← round with
    | .again => advanceFrom fuel
    | .finished => pure none
    | .entry entry => pure (some entry)

def advance : Walk (Option TarEntry) := do
  let w ← get
  advanceFrom (w.rules.headersLeft + 1)

/-- Reports a latched fault again, and latches a new one. -/
def latched {α : Type} (x : Walk α) : Walk α :=
  fun w =>
    match w.latch.check with
    | .error fault => .error fault w
    | .ok () =>
      match x w with
      | .ok a w => .ok a w
      | .error fault w => .error fault { w with latch := w.latch.record fault }

def nextEntry : Walk (Option TarEntry) :=
  latched do
    let w ← get
    if w.finished then pure none else advance

def readData (buf : Nat) : Walk Bytes := do
  let w ← get
  if buf = 0 ∨ w.unreadData = 0 then pure []
  else do
    let bytes ← onSource fun source => source.readStream (min buf w.unreadData)
    if bytes.isEmpty then throw (.malformed .truncated)
    else do
      modify fun w => { w with unreadData := w.unreadData - bytes.length }
      pure bytes

/-- `Read::read` of the current entry's reader. -/
def readEntryData (buf : Nat) : Walk Bytes :=
  latched (readData buf)

/-- Reads of the current entry's data, one after the other; what a read reports is the caller's. -/
def readAll : List Nat → TarWalker → TarWalker
  | [], w => w
  | buf :: bufs, w =>
    match readEntryData buf w with
    | .ok _ w => readAll bufs w
    | .error _ w => readAll bufs w

/-- What a walk has come to: its entries, its verdict once it has one, and the walker. -/
structure Walked where
  entries : List TarEntry
  verdict : Option (Except ContentFault Unit)
  walker : TarWalker

/-- Calls for entry after entry, with the reads `reads i` of the data of the `i`-th between. -/
def walk (reads : Nat → List Nat) : (calls : Nat) → (i : Nat) → TarWalker → Walked
  | 0, _, w => ⟨[], none, w⟩
  | calls + 1, i, w =>
    match nextEntry w with
    | .error fault w => ⟨[], some (.error fault), w⟩
    | .ok none w => ⟨[], some (.ok ()), w⟩
    | .ok (some entry) w =>
      let rest := walk reads calls (i + 1) (readAll (reads i) w)
      { rest with entries := entry :: rest.entries }

/-! ### What the rules do -/

variable {rules rules' : Rules}

theorem countHeader_ok (h : Rules.countHeader rules = .ok () rules') :
    (∃ image, rules = .image image ∧ 1 ≤ image.entries.remaining ∧
      rules' = .image { image with entries := image.entries.after 1 }) ∨
    ∃ layer, rules = .layer layer ∧ 1 ≤ layer.entries.remaining ∧
      rules' = .layer { layer with entries := layer.entries.after 1 } := by
  have hfits {budget entries : Budget} (hcharge : budget.charge 1 = .ok entries) :
      1 ≤ budget.remaining ∧ entries = budget.after 1 := by
    by_cases hle : 1 ≤ budget.remaining
    · rw [Budget.charge_eq hle] at hcharge
      exact ⟨hle, (Except.ok.inj hcharge).symm⟩
    · rw [Budget.charge, dif_neg hle] at hcharge
      cases hcharge
  rcases rules with image | layer <;> unfold Rules.countHeader at h <;> dsimp only at h <;> split at h <;> cases h
  · next hcharge =>
    obtain ⟨hle, rfl⟩ := hfits hcharge
    exact .inl ⟨image, rfl, hle, rfl⟩
  · next hcharge =>
    obtain ⟨hle, rfl⟩ := hfits hcharge
    exact .inr ⟨layer, rfl, hle, rfl⟩

theorem chargeExtension_ok {extension : Extension} {len : Nat} {flag : UInt8} {limit : ResourceLimit}
    (h : chargeExtension extension len flag rules = .ok limit rules') :
    ∃ layer, rules = .layer layer ∧ layer.pending.present extension = false ∧ len ≤ layer.extensionTotal.remaining ∧
      rules' = .layer { layer with extensionTotal := layer.extensionTotal.after len } := by
  rcases rules with image | layer
  · cases h
  unfold chargeExtension Pending.refuseDuplicate at h
  dsimp only at h
  split at h
  · cases h
  next hpresent =>
  split at h
  · cases h
  split at h
  · cases h
  next hcharge =>
  cases h
  by_cases hle : len ≤ layer.extensionTotal.remaining
  · rw [Budget.charge_eq hle] at hcharge
    cases hcharge
    refine ⟨layer, rfl, ?_, hle, rfl⟩
    split at hpresent
    · cases hpresent
    next hfalse => exact Bool.eq_false_iff.mpr hfalse
  · rw [Budget.charge, dif_neg hle] at hcharge
    cases hcharge

theorem chargeExtension_error {extension : Extension} {len : Nat} {flag : UInt8} {fault : ContentFault}
    (h : chargeExtension extension len flag rules = .error fault rules') : rules' = rules := by
  rcases rules with image | layer
  · cases h
    rfl
  unfold chargeExtension at h
  dsimp only at h
  split at h
  · cases h
    rfl
  split at h
  · cases h
    rfl
  split at h <;> cases h
  rfl

theorem recordExtension_ok {extension : Extension} {payload : Bytes} {layer : LayerRules}
    (h : recordExtension extension payload (.layer layer) = .ok () rules') :
    ∃ pending, layer.pending.record extension payload = .ok pending ∧ rules' = .layer { layer with pending } := by
  unfold recordExtension at h
  dsimp only at h
  split at h <;> cases h
  next hrecord => exact ⟨_, hrecord, rfl⟩

theorem recordExtension_error {extension : Extension} {payload : Bytes} {fault : ContentFault}
    (h : recordExtension extension payload rules = .error fault rules') : rules' = rules := by
  rcases rules with image | layer
  · cases h
  unfold recordExtension at h
  dsimp only at h
  split at h <;> cases h
  rfl

theorem admitHeader_ok {kind : EntryKind} {header : HeaderFields} {admitted : Admitted}
    (h : Rules.admitHeader kind header rules = .ok admitted rules') :
    (∃ image image', rules = .image image ∧ image.admitHeader kind header = .ok (admitted, image') ∧ rules' = .image image') ∨
    ∃ layer, rules = .layer layer ∧ layer.resolve layer.pending kind header = .ok admitted ∧
      rules' = .layer { layer with pending := .empty } := by
  rcases rules with image | layer <;> unfold Rules.admitHeader at h <;> dsimp only at h <;> split at h <;> cases h
  · next hadmitted => exact .inl ⟨image, _, rfl, hadmitted, rfl⟩
  · next hadmitted =>
    obtain ⟨hresolve, rfl⟩ := Prod.mk.inj hadmitted
    exact .inr ⟨layer, rfl, hresolve, rfl⟩

theorem admitHeader_error {kind : EntryKind} {header : HeaderFields} {fault : ContentFault}
    (h : Rules.admitHeader kind header rules = .error fault rules') :
    (∃ image, rules = .image image ∧ image.admitHeader kind header = .error fault ∧ rules' = rules) ∨
    ∃ layer, rules = .layer layer ∧ layer.resolve layer.pending kind header = .error fault ∧
      rules' = .layer { layer with pending := .empty } := by
  rcases rules with image | layer <;> unfold Rules.admitHeader at h <;> dsimp only at h <;> split at h <;> cases h
  · next hadmitted => exact .inl ⟨image, rfl, hadmitted, rfl⟩
  · next hadmitted =>
    obtain ⟨hresolve, rfl⟩ := Prod.mk.inj hadmitted
    exact .inr ⟨layer, rfl, hresolve, rfl⟩

end TarWalker

end DeployCore
