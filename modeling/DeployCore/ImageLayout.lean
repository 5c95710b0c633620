import DeployCore.CanonicalManifest
import DeployCore.ImageTags

/-! # The layout documents of an image archive (`src/image/archive/documents.rs`)

`oci-layout`, `index.json` and the compatibility `manifest.json`, each held to its closed shape, and the verdicts that
the links between the documents and the stored blobs come to. -/

namespace DeployCore.ImageArchive
open Json

/-! ### Verdicts -/

/-- What a stored blob is to the image. -/
inductive BlobRole
  | manifest
  | config
  | layer (position : Nat)
  deriving DecidableEq

inductive BlobMismatchKind
  | length
  | digest
  deriving DecidableEq

inductive ConfigField
  | architecture
  | os
  | variant
  | rootfs
  | history
  deriving DecidableEq

inductive InvalidConfigReason
  | notObject
  | missingField (field : ConfigField)
  | fieldType (field : ConfigField)
  | emptyVariant
  | rootfsShape
  | diffIdSyntax (index : Nat)
  | historyEntryShape (index : Nat)
  | historyLayerCount
  deriving DecidableEq

inductive PlatformFacet
  | os
  | architecture
  | variant
  deriving DecidableEq

inductive LayerMismatchKind
  | countMismatch
  | storedDigest
  | diffId
  deriving DecidableEq

/-- A verdict of the validator before it is given the artifact's archive path: one on a document or a primitive's fault,
or one on how the documents, the blobs and the declaration agree. -/
inductive Verdict
  | archive (verdict : ArchiveVerdict)
  | multipleImages
  | unreferencedBlob
  | nonCanonicalManifest
  | missingBlob (role : BlobRole)
  | blobMismatch (role : BlobRole) (kind : BlobMismatchKind)
  | inconsistentCompatibility
  | invalidConfig (reason : InvalidConfigReason)
  | inconsistentLayerSources
  | configDigest (declared actual : String)
  | platform (location : PlatformLocation) (facet : PlatformFacet) (declared actual : Option String)
  | layer (position : Option Nat) (kind : LayerMismatchKind) (expected actual : Option String)
  deriving DecidableEq

abbrev Checked (α : Type) := Except Verdict α

/-- A verdict on a document, as one of the validator. -/
def judged {α : Type} (x : Except ArchiveVerdict α) : Checked α :=
  x.mapError .archive

/-! ### Digests -/

/-- Whether a text is 64 lowercase hexadecimal digits. -/
def isDigestHex (value : String) : Bool :=
  byteLen value == IMAGE_DIGEST_HEX_LEN && isLowerHex value

/-- A text behind `sha256:`. -/
def stripDigest (digest : String) : Option String :=
  (stripPrefix SHA256_DIGEST_PREFIX.toList digest.toList).map .ofList

/-- The digest's 64 hexadecimal digits. -/
def hexOf (descriptor : Descriptor) : String :=
  (stripDigest descriptor.digest).getD ""

def BLOB_PREFIX : String := "blobs/sha256/"

/-- The path of the blob a descriptor names. -/
def blobPath (descriptor : Descriptor) : String :=
  BLOB_PREFIX ++ hexOf descriptor

theorem isDigest_iff {value : String} : isDigest value = true ↔ ∃ hex, stripDigest value = some hex ∧ isDigestHex hex = true := by
  unfold isDigest stripDigest isDigestHex
  rcases stripPrefix SHA256_DIGEST_PREFIX.toList value.toList with _ | hex <;> simp

theorem eq_of_stripDigest {value hex : String} (h : stripDigest value = some hex) : value = SHA256_DIGEST_PREFIX ++ hex := by
  obtain ⟨chars, hstrip, rfl⟩ := Option.map_eq_some_iff.mp h
  have hsplit := eq_append_of_stripPrefix hstrip
  rw [← String.toList_inj, hsplit, String.toList_append, String.toList_ofList]

/-! ### Documents -/

/-- `oci-layout`: exactly its version. -/
def ociLayout (value : Value) : Checked Unit :=
  if (asObject value).any fun object =>
      onlyKeys object ["imageLayoutVersion"] && (object.lookup "imageLayoutVersion").bind Value.asStr == some "1.0.0" then
    .ok ()
  else .error (.archive (shape .ociLayout))

/-- The descriptors of the index, each with its position. -/
def indexDescriptors (limits : ContentLimits) : Nat → List Value → Except ArchiveVerdict (List Descriptor)
  | _, [] => .ok []
  | position, value :: values => do
    let manifest ← descriptor value (.indexManifest position) .index limits
    let manifests ← indexDescriptors limits (position + 1) values
    .ok (manifest :: manifests)

/-- The rules of `index.json` up to its descriptors. -/
def indexDocument (value : Value) (limits : ContentLimits) : Except ArchiveVerdict (List Descriptor) := do
  let document := ImageDocument.index
  let object ← orShape document (asObject value)
  refuseExtensions object document DOCUMENT_EXTENSIONS
  if !onlyKeys object ["schemaVersion", "mediaType", "manifests"] then .error (shape document)
  else if !isSchemaVersion (object.lookup "schemaVersion") then .error (shape document)
  else if (object.lookup "mediaType").any fun mediaType => mediaType.asStr != some OCI_INDEX_MEDIA_TYPE then
    .error (shape document)
  else do
    let manifests ← orShape document (((object.lookup "manifests").bind Value.asArray).filter fun manifests => !manifests.isEmpty)
    checkCount manifests.length limits .tagsPerImage
    indexDescriptors limits 0 manifests

/-- `index.json`: its descriptors, every one naming the same manifest as the first. -/
def index (value : Value) (limits : ContentLimits) : Checked (List Descriptor) := do
  let descriptors ← judged (indexDocument value limits)
  match descriptors with
  | [] => .ok []
  | first :: rest =>
    if rest.any fun other => other.digest != first.digest || other.size != first.size then .error .multipleImages
    else .ok (first :: rest)

/-- The compatibility `manifest.json` record. -/
structure Compatibility where
  config : String
  repoTags : List String
  layers : List String
  /-- `LayerSources`, when present and not null. -/
  layerSources : Option Json.Members

def strings (value : Option Value) : Option (List String) :=
  (value.bind Value.asArray).bind fun items => items.mapM Value.asStr

/-- The rules of the compatibility manifest's one record. -/
def compatibilityRecord (record : Value) (limits : ContentLimits) : Except ArchiveVerdict Compatibility := do
  let document := ImageDocument.compatibilityManifest
  let record ← orShape document ((asObject record).filter
    (onlyKeys · ["Config", "RepoTags", "Layers", "Parent", "LayerSources"]))
  let config ← orShape document ((record.lookup "Config").bind Value.asStr)
  let repoTags ← orShape document ((strings (record.lookup "RepoTags")).filter fun tags => !tags.isEmpty)
  checkCount repoTags.length limits .tagsPerImage
  let layers ← orShape document (strings (record.lookup "Layers"))
  checkCount layers.length limits .layersPerImage
  if (record.lookup "Parent").any fun parent => parent.asStr != some "" then .error (shape document)
  else
    match record.lookup "LayerSources" with
    | none | some .null => .ok ⟨config, repoTags, layers, none⟩
    | some (.obj sources) => .ok ⟨config, repoTags, layers, some sources⟩
    | some _ => .error (shape document)

/-- The compatibility `manifest.json`: its one record. -/
def compatibility (value : Value) (limits : ContentLimits) : Checked Compatibility := do
  let records ← judged (orShape .compatibilityManifest ((Value.asArray value).filter fun records => !records.isEmpty))
  match records with
  | [record] => judged (compatibilityRecord record limits)
  | _ => .error .multipleImages

/-- One `LayerSources` value against the layer descriptor at its position. -/
def layerSource (value : Value) (layer : Descriptor) : Checked Unit := do
  match asObject value with
  | none => .error .inconsistentLayerSources
  | some object => do
    judged (refuseExtensions object .compatibilityManifest DESCRIPTOR_EXTENSIONS)
    if object.length ≠ 3 ∨ !onlyKeys object ["mediaType", "digest", "size"] then .error .inconsistentLayerSources
    else if (object.lookup "mediaType").bind Value.asStr = some layer.mediaType ∧
        (object.lookup "digest").bind Value.asStr = some layer.digest ∧
        (object.lookup "size").bind Value.asU64 = some layer.size then .ok ()
    else .error .inconsistentLayerSources

end DeployCore.ImageArchive
