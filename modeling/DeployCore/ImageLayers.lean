import DeployCore.GzipDecoder
import DeployCore.ImageLinks

/-! # The layers of an image archive (`src/image/archive.rs`, phase 8)

Each stored layer is decoded, hashed on the way and walked to its end, under its own limit, those of the image and that
of the operation. -/

namespace DeployCore.ImageArchive

/-- The per-image budgets every layer walk shares. -/
structure LayerBudgets where
  decoded : Budget
  entries : Budget
  extensionTotal : Budget

def LayerBudgets.ofLimits (limits : ContentLimits) : LayerBudgets where
  decoded := .ofLimit (limits.resourceLimit .decodedLayersPerImage)
  entries := .ofLimit (limits.resourceLimit .layerEntries)
  extensionTotal := .ofLimit (limits.resourceLimit .layerExtensionTotal)

/-- The gzip decoder, and whether it has raised a fault. -/
structure Origin (τ : Type) where
  decoder : GzipDecoder τ
  faulted : Bool

def Origin.answers {τ : Type} (tools : Tools τ) : Answers (Origin τ) :=
  fun origin len =>
    match GzipDecoder.read tools.inflater tools.checksum len origin.decoder with
    | .ok bytes decoder => (.ok bytes, { origin with decoder })
    | .error fault decoder => (.error fault.intoIo, ⟨decoder, true⟩)

section Walk
variable {σ : Type} (answers : Answers σ) (patience : Nat)

/-- Entries until the walker has verified its end. -/
def walkToEnd : Nat → SourceWalk σ Unit
  | 0 => throw (.malformed .truncated)
  | fuel + 1 => do
    match ← SourceWalker.nextEntry answers patience with
    | none => pure ()
    | some _ => walkToEnd fuel

/-- A walked layer: what it was read from, and what is left of the budgets. -/
structure WalkedLayer (σ : Type) where
  decoded : σ
  budgets : LayerBudgets
  operation : Budget

/-- Walks one decoded layer to its end. A walk that stops at a fault leaves what it was read from. -/
def walkLayer (limits : ContentLimits) (decoded : σ) (budgets : LayerBudgets) (operation : Budget) :
    Except (ContentFault × σ) (WalkedLayer σ) :=
  let counted := CountingReader.ofSource decoded (limits.resourceLimit .decodedLayer) [budgets.decoded, operation]
    (limits.resourceLimit .copyBuffer).max
  let walker := SourceWalker.ofSource counted (.layer budgets.entries budgets.extensionTotal) limits
  match walkToEnd answers patience (walker.rules.headersLeft + 1) walker with
  | .error fault w => .error (fault, w.source.source)
  | .ok () w =>
    .ok {
      decoded := w.source.source
      budgets := {
        decoded := w.source.shared.headD budgets.decoded
        entries := match w.rules with
          | .layer rules => rules.entries
          | .image _ => budgets.entries
        extensionTotal := match w.rules with
          | .layer rules => rules.extensionTotal
          | .image _ => budgets.extensionTotal }
      operation := w.source.shared.getD 1 operation }

end Walk

section Layers
variable {τ : Type} (tools : Tools τ) (file : ArchiveFile) (limits : ContentLimits)

/-- A fault of the walk of the layer at a position, or of the decoder under it. -/
def layerFault (position : Nat) (decoder : Bool) (fault : ContentFault) : Verdict :=
  .archive (convert fault (.layerWalk position decoder))

/-- Decodes and walks the layer at a position: the digest of its decoded tar. -/
def decodeLayer (span : Span) (compressed : Bool) (position : Nat) (budgets : LayerBudgets) (operation : Budget) :
    Checked (String × LayerBudgets × Budget) :=
  let stored : StreamReader := .ofSource (range file span) (limits.resourceLimit .storedLayerBlob) []
    (limits.resourceLimit .copyBuffer).max
  if compressed then
    let decoder := GzipDecoder.ofStored tools.inflater stored (limits.resourceLimit .gzipHeader)
      (limits.resourceLimit .copyBuffer).max
    match walkLayer (Tee.answers (Origin.answers tools)) 1 limits ⟨⟨decoder, false⟩, []⟩ budgets operation with
    | .error (fault, tee) => .error (layerFault position tee.inner.faulted fault)
    | .ok walked => .ok (toHex (tools.lib.sha256 walked.decoded.hashed), walked.budgets, walked.operation)
  else
    match walkLayer (Tee.answers (CountingReader.stacked ByteStream.answers 1)) 1 limits ⟨stored, []⟩ budgets operation with
    | .error (fault, _) => .error (layerFault position false fault)
    | .ok walked => .ok (toHex (tools.lib.sha256 walked.decoded.hashed), walked.budgets, walked.operation)

/-- The layers from a position on, each with its diff ID. -/
def layersFrom (blobs : List (String × Blob)) : Nat → List (Descriptor × String) → LayerBudgets → Budget → Checked Budget
  | _, [], _, operation => .ok operation
  | position, (descriptor, diffId) :: rest, budgets, operation =>
    match blobs.lookup (hexOf descriptor) with
    | none => .error (.missingBlob (.layer position))
    | some blob =>
      if blob.span.len ≠ descriptor.size.toNat then .error (.blobMismatch (.layer position) .length)
      else if blob.sha256 ≠ hexOf descriptor then
        .error (.layer (some position) .storedDigest (some descriptor.digest) (some (SHA256_DIGEST_PREFIX ++ blob.sha256)))
      else do
        let (digest, budgets, operation) ← decodeLayer tools file limits blob.span
          (descriptor.mediaType == OCI_GZIP_LAYER_MEDIA_TYPE) position budgets operation
        if SHA256_DIGEST_PREFIX ++ digest ≠ diffId then
          .error (.layer (some position) .diffId (some diffId) (some (SHA256_DIGEST_PREFIX ++ digest)))
        else layersFrom blobs (position + 1) rest budgets operation

/-- Each position's stored blob, decoded tar and diff ID; what is left of the operation's budget. -/
def layers (blobs : List (String × Blob)) (descriptors : List Descriptor) (paths diffIds : List String)
    (operation : Budget) : Checked Budget :=
  if paths.length ≠ diffIds.length then
    .error (.layer none .countMismatch (some (toString diffIds.length)) (some (toString paths.length)))
  else layersFrom tools file limits blobs 0 (descriptors.zip diffIds) (.ofLimits limits) operation

end Layers

/-! ### The validator -/

/-- A summary of an archive that was accepted. -/
structure ValidatedImageArchive where
  configDigest : String
  manifestDigest : String
  layerCount : Nat
  entries : List RecordedEntry
  deriving DecidableEq

section Validate
variable {τ : Type} (tools : Tools τ) (file : ArchiveFile) (declaration : ImageDeclaration) (limits : ContentLimits)

/-- The documents of an archive. -/
structure Documents where
  index : List Descriptor
  record : Compatibility
  /-- The descriptor every one of the index's is the same image as. -/
  named : Descriptor
  manifestBytes : Bytes
  manifest : ImageManifest

/-- Phase 2. -/
def documents (inventory : Inventory) : Checked (Documents × Budget) := do
  let total := Budget.ofLimit (limits.resourceLimit .imageJsonTotal)
  let (value, total) ← readDocument tools file limits total inventory.ociLayout .ociLayout
  ociLayout value
  let (value, total) ← readDocument tools file limits total inventory.index .index
  let index ← index value limits
  let (value, total) ← readDocument tools file limits total inventory.compatibility .compatibilityManifest
  let record ← compatibility value limits
  match index.head? with
  | none => .error (.archive (shape .index))
  | some named =>
    match inventory.blobs.lookup (hexOf named) with
    | none => .error (.missingBlob .manifest)
    | some blob => do
      checkBlob blob named .manifest
      let (manifestBytes, total) ← readBytes tools file limits total blob.span .imageManifest
      let value ← judged (parseDocument tools.lib limits manifestBytes .imageManifest)
      let manifest ← judged (imageManifest value limits)
      .ok (⟨index, record, named, manifestBytes, manifest⟩, total)

/-- Phases 2 to 9: the config blob, the number of layers and what is left of the operation's budget. -/
def agree (inventory : Inventory) (operation : Budget) : Checked (ValidatedImageArchive × Budget) := do
  let (docs, total) ← documents tools file limits inventory
  let configBlob ← compatibilityLinks inventory.blobs docs.named docs.record docs.manifest
  judged (repoTags docs.record.repoTags declaration)
  judged (indexAnnotations docs.index declaration)
  let (profile, _) ← config tools file limits total configBlob docs.manifest.config declaration
  platforms profile docs.index docs.manifest.config declaration.platform
  canonicalManifest (tools.grants 0) inventory.blobs configBlob profile.diffIds docs.manifestBytes
  let operation ← layers tools file limits inventory.blobs docs.manifest.layers docs.record.layers profile.diffIds operation
  layerSources docs.record docs.manifest.layers profile.diffIds
  .ok (⟨SHA256_DIGEST_PREFIX ++ configBlob.sha256, docs.named.digest, docs.manifest.layers.length, inventory.entries⟩, operation)

/-- `validate_image_archive`: the first verdict in phase order, or a summary and what is left of the operation's budget. -/
def validate (operation : Budget) : Checked (ValidatedImageArchive × Budget) := do
  let inventory ← rawInventory tools.lib.sha256 file limits
  agree tools file declaration limits inventory operation

end Validate

end DeployCore.ImageArchive
