import DeployCore.ImageLayout
import DeployCore.StackedReaders

/-! # The raw inventory of an image archive (`src/image/archive.rs`, phase 1)

The whole image tar is walked once: where each layout file and each blob lies and what a blob hashes to is recorded, and
an entry outside the layout is remembered and reported once the walk has come to its end. -/

namespace DeployCore

/-- A retained snapshot: its bytes, and how a read that begins at an offset is cut into pieces. -/
structure ArchiveFile where
  bytes : Bytes
  serves : Nat → Nat → Nat → Nat

/-- The name in the form two names are compared in. -/
def TarEntry.canonicalName (entry : TarEntry) : Bytes :=
  let name :=
    if entry.name = [DOT] then []
    else if [DOT, SLASH].isPrefixOf entry.name then entry.name.drop 2
    else entry.name
  (stripSuffix SLASH name).getD name

namespace ImageArchive

/-- Where the data of an entry lies. -/
structure Span where
  offset : Nat
  len : Nat
  deriving DecidableEq

/-- A read of one recorded range, from its offset. -/
def range (file : ArchiveFile) (span : Span) : ByteStream :=
  ⟨LittleEndian.slice file.bytes span.offset span.len, file.serves span.offset⟩

/-- The snapshot read from its start. -/
def whole (file : ArchiveFile) : ByteStream :=
  ⟨file.bytes, file.serves 0⟩

def PROBE_LEN : Nat := 4
def GZIP_MAGIC : Bytes := [0x1f, 0x8b]
def ZSTD_MAGIC : Bytes := [0x28, 0xb5, 0x2f, 0xfd]

/-- Top-level files of the classic layout. -/
def LEGACY_FILES : List String := ["repositories", "VERSION"]

structure Blob where
  span : Span
  /-- Lowercase hexadecimal digest of the stored bytes. -/
  sha256 : String
  deriving DecidableEq

/-- Where one accepted regular file lies. -/
structure RecordedEntry where
  name : String
  headerOffset : Nat
  dataOffset : Nat
  dataLen : Nat
  deriving DecidableEq

def RecordedEntry.span (entry : RecordedEntry) : Span :=
  ⟨entry.dataOffset, entry.dataLen⟩

structure Inventory where
  ociLayout : Span
  index : Span
  compatibility : Span
  /-- Every blob by the digits of its name, the last recorded first. -/
  blobs : List (String × Blob)
  /-- Every accepted regular file, in archive order. -/
  entries : List RecordedEntry
  deriving DecidableEq

/-- What an entry is to the profile. -/
inductive Class
  | layout (file : LayoutFile)
  | blob
  | directory
  | deferred (feature : UnsupportedArchiveFeature)
  deriving DecidableEq

/-- The digits of a blob's name. -/
def stripBlob (name : String) : Option String :=
  (stripPrefix BLOB_PREFIX.toList name.toList).map .ofList

/-- `strip_suffix` of `.json`. -/
def stripJson (name : String) : Option String :=
  (stripPrefix ".json".toList.reverse name.toList.reverse).map fun rest => .ofList rest.reverse

/-- Whether an entry outside the layout is of the classic one. -/
def isLegacy (name : String) : Bool :=
  LEGACY_FILES.contains name || isDigestHex (.ofList (name.toList.takeWhile (· != '/'))) ||
    (stripJson name).any isDigestHex

def classify (name : String) (kind : EntryKind) : Class :=
  if kind = .regular ∧ name = "oci-layout" then .layout .ociLayout
  else if kind = .regular ∧ name = "index.json" then .layout .index
  else if kind = .regular ∧ name = "manifest.json" then .layout .compatibilityManifest
  else if kind = .directory ∧ (name = "blobs" ∨ name = "blobs/sha256") then .directory
  else if kind = .regular ∧ (stripBlob name).any isDigestHex then .blob
  else .deferred (if isLegacy name then .legacyExportFile else .extraFile)

/-- What the walk has recorded so far. -/
structure Gathered where
  /-- The first entry outside the layout. -/
  deferred : Option UnsupportedArchiveFeature
  layout : LayoutFile → Option Span
  blobs : List (String × Blob)
  entries : List RecordedEntry

namespace Gathered

def empty : Gathered :=
  ⟨none, fun _ => none, [], []⟩

def defer (g : Gathered) (feature : UnsupportedArchiveFeature) : Gathered :=
  { g with deferred := some feature }

def putLayout (g : Gathered) (file : LayoutFile) (entry : RecordedEntry) : Gathered :=
  { g with
    layout := fun other => if other = file then some entry.span else g.layout other
    entries := g.entries ++ [entry] }

def putBlob (g : Gathered) (sha256 : String) (entry : RecordedEntry) : Gathered :=
  { g with
    blobs := ((stripBlob entry.name).getD "", ⟨entry.span, sha256⟩) :: g.blobs
    entries := g.entries ++ [entry] }

/-- What the walk comes to once it has reached its end. -/
def inventory (g : Gathered) : Checked Inventory :=
  match g.deferred with
  | some feature => .error (.archive (.unsupported feature))
  | none =>
    match g.layout .ociLayout, g.layout .index, g.layout .compatibilityManifest with
    | none, _, _ => .error (.archive (.invalid (.missingLayoutFile .ociLayout)))
    | some _, none, _ => .error (.archive (.invalid (.missingLayoutFile .index)))
    | some _, some _, none => .error (.archive (.invalid (.missingLayoutFile .compatibilityManifest)))
    | some ociLayout, some index, some compatibility => .ok ⟨ociLayout, index, compatibility, g.blobs, g.entries⟩

end Gathered

/-- A fault of the image walk. -/
def imageFault (fault : ContentFault) : Verdict :=
  .archive (convert fault .imageWalk)

section Walk
variable {σ : Type} (sha256 : Bytes → Bytes) (answers : Answers σ) (patience : Nat)

/-- What one entry of the walk adds. -/
def gatherEntry (copyBuffer : Nat) (g : Gathered) (entry : TarEntry) : SourceWalk σ Gathered :=
  if g.deferred.isSome then pure g
  else
    match String.fromUTF8? entry.canonicalName.toByteArray with
    | none => pure (g.defer .extraFile)
    | some name =>
      let recorded : RecordedEntry := ⟨name, entry.headerOffset, entry.dataOffset, entry.dataLen⟩
      match classify name entry.kind with
      | .deferred feature => pure (g.defer feature)
      | .directory => pure g
      | .layout file => pure (g.putLayout file recorded)
      | .blob => do
        let data ← SourceWalker.entryData answers patience copyBuffer
        pure (g.putBlob (toHex (sha256 data)) recorded)

/-- The walk from an entry on. Each entry has counted a header. -/
def gatherFrom (copyBuffer : Nat) : Nat → Gathered → SourceWalk σ Gathered
  | 0, _ => throw (.malformed .truncated)
  | fuel + 1, g => do
    match ← SourceWalker.nextEntry answers patience with
    | none => pure g
    | some entry => do
      let g ← gatherEntry sha256 answers patience copyBuffer g entry
      gatherFrom copyBuffer fuel g

/-- The walk of a counted reader to its end. -/
def gather (limits : ContentLimits) (source : CountingReader σ) : Checked Inventory :=
  let walker := SourceWalker.ofSource source .imageArchive limits
  match gatherFrom sha256 answers patience (limits.resourceLimit .copyBuffer).max (walker.rules.headersLeft + 1) .empty walker with
  | .ok g _ => g.inventory
  | .error fault _ => .error (imageFault fault)

end Walk

/-- Reads up to `PROBE_LEN` bytes; each read but the last brings one. -/
def probeMore : Nat → StreamReader → (probed : Bytes) → Except ContentFault (Bytes × StreamReader)
  | 0, counted, probed => .ok (probed, counted)
  | fuel + 1, counted, probed =>
    if PROBE_LEN ≤ probed.length then .ok (probed, counted)
    else
      match counted.pull ByteStream.answers 1 (PROBE_LEN - probed.length) with
      | (.error fault, _) => .error fault
      | (.ok [], counted) => .ok (probed, counted)
      | (.ok bytes, counted) => probeMore fuel counted (probed ++ bytes)

/-- The first bytes, unless they are those of a compressed stream. -/
def probe (counted : StreamReader) : Checked (Bytes × StreamReader) :=
  match probeMore PROBE_LEN counted [] with
  | .error fault => .error (imageFault fault)
  | .ok (probed, counted) =>
    if GZIP_MAGIC.isPrefixOf probed || ZSTD_MAGIC.isPrefixOf probed then
      .error (.archive (.unsupported .compressedOuterStream))
    else .ok (probed, counted)

/-- The reader that counts the snapshot against the archive's limit. -/
def counting (file : ArchiveFile) (limits : ContentLimits) : StreamReader :=
  .ofSource (whole file) (limits.resourceLimit .imageArchive) [] (limits.resourceLimit .copyBuffer).max

/-- Probes for a compressed stream, then walks the tar through a mirror of the count, which is fed the probed bytes
again and then the rest. -/
def rawInventory (sha256 : Bytes → Bytes) (file : ArchiveFile) (limits : ContentLimits) : Checked Inventory := do
  let (pending, rest) ← probe (counting file limits)
  let mirror := CountingReader.ofSource (⟨pending, rest⟩ : Replay StreamReader) (limits.resourceLimit .imageArchive) []
    (limits.resourceLimit .copyBuffer).max
  gather sha256 (Replay.answers (CountingReader.stacked ByteStream.answers 1)) 1 limits mirror

end ImageArchive

end DeployCore
