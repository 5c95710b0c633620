import DeployCore.ImageInventory
import DeployCore.Lib.Incremental
import DeployCore.ReadBounded

/-! # The links of an image archive (`src/image/archive.rs`, phases 2 to 7 and 9)

The documents are read from their recorded ranges, and the compatibility record, the blob set, the config, the stated
platforms and the stored manifest are held to one another and to the declaration. -/

namespace DeployCore.ImageArchive
open Json

/-- What the validator has from outside: the JSON reader and the hash, the inflater and its checksum, and whether the
allocator makes a vector of so many bytes longer by so many. -/
structure Tools (τ : Type) where
  lib : Externals
  inflater : Incremental.Decoder τ UInt8 UInt8
  checksum : Bytes → UInt32
  grants : Nat → Nat → Bool

section Documents
variable {τ : Type} (tools : Tools τ) (file : ArchiveFile) (limits : ContentLimits)

/-- `DocumentReader::read_bytes`: one document's stored bytes, charged to its own limit and to the total. Each read but
the last brings a byte. -/
def readBytes (total : Budget) (span : Span) (document : ImageDocument) : Checked (Bytes × Budget) :=
  let (outcome, total) := readBounded tools.grants ByteStream.answers (span.len + 2) (range file span)
    (limits.resourceLimit document.limit) total (limits.resourceLimit .copyBuffer).max
  match outcome with
  | none => .error (.archive (.io ⟨CountingReader.INTERRUPTED, none⟩))
  | some (.error fault) => .error (.archive (convert fault (.document document)))
  | some (.ok bytes) => .ok (bytes, total)

/-- `DocumentReader::read`. -/
def readDocument (total : Budget) (span : Span) (document : ImageDocument) : Checked (Value × Budget) := do
  let (bytes, total) ← readBytes tools file limits total span document
  let value ← judged (parseDocument tools.lib limits bytes document)
  .ok (value, total)

end Documents

/-- A stored blob's recorded length, then its digest, against its descriptor. -/
def checkBlob (blob : Blob) (descriptor : Descriptor) (role : BlobRole) : Checked Unit :=
  if blob.span.len ≠ descriptor.size.toNat then .error (.blobMismatch role .length)
  else if blob.sha256 ≠ hexOf descriptor then .error (.blobMismatch role .digest)
  else .ok ()

/-! ### Compatibility links and blob set -/

mutual

/-- Equality of documents. -/
def sameValue : Value → Value → Bool
  | .null, .null => true
  | .bool a, .bool b => a == b
  | .num a, .num b => a == b
  | .str a, .str b => a == b
  | .arr as, .arr bs => sameValues as bs
  | .obj as, .obj bs => sameMembers as bs
  | _, _ => false

def sameValues : List Value → List Value → Bool
  | [], [] => true
  | a :: as, b :: bs => sameValue a b && sameValues as bs
  | _, _ => false

def sameMembers : List (String × Value) → List (String × Value) → Bool
  | [], [] => true
  | (k, a) :: as, (l, b) :: bs => k == l && sameValue a b && sameMembers as bs
  | _, _ => false

end

def sameAnnotations : Option Json.Members → Option Json.Members → Bool
  | none, none => true
  | some as, some bs => sameMembers as bs
  | _, _ => false

def sameDescriptor (a b : Descriptor) : Bool :=
  a.mediaType == b.mediaType && a.digest == b.digest && a.size == b.size && a.platform == b.platform &&
    sameAnnotations a.annotations b.annotations

/-- The first use of each blob, in order, as long as where a path repeats, so does its descriptor. -/
def firstUses (layers : List Descriptor) : Nat → List Descriptor → List (String × Nat) → Option (List (String × Nat))
  | _, [], uses => some uses
  | position, layer :: rest, uses =>
    match uses.lookup (hexOf layer) with
    | some first =>
      if layers[first]?.any (sameDescriptor · layer) then firstUses layers (position + 1) rest uses else none
    | none => firstUses layers (position + 1) rest (uses ++ [(hexOf layer, position)])

/-- The compatibility record's links and the blob set; the config blob. -/
def compatibilityLinks (blobs : List (String × Blob)) (manifest : Descriptor) (record : Compatibility)
    (image : ImageManifest) : Checked Blob :=
  if record.config ≠ blobPath image.config then .error .inconsistentCompatibility
  else if record.layers ≠ image.layers.map blobPath then .error .inconsistentCompatibility
  else
    match firstUses image.layers 0 image.layers [] with
    | none => .error .inconsistentCompatibility
    | some uses =>
      match blobs.lookup (hexOf image.config) with
      | none => .error (.missingBlob .config)
      | some config =>
        match uses.find? fun layer => (blobs.lookup layer.1).isNone with
        | some layer => .error (.missingBlob (.layer layer.2))
        | none =>
          if blobs.any fun blob => !(uses.map Prod.fst ++ [hexOf manifest, hexOf image.config]).contains blob.1 then
            .error .unreferencedBlob
          else .ok config

/-! ### Config -/

/-- The config values the profile checks. -/
structure ConfigProfile where
  os : String
  architecture : String
  variant : Option String
  diffIds : List String
  deriving DecidableEq

/-- A field of the config that is a text. -/
def requiredString (object : Json.Members) (key : String) (field : ConfigField) : Checked String :=
  match object.lookup key with
  | none => .error (.invalidConfig (.missingField field))
  | some (.str value) => .ok value
  | some _ => .error (.invalidConfig (.fieldType field))

def configVariant (object : Json.Members) : Checked (Option String) :=
  match object.lookup "variant" with
  | none | some .null => .ok none
  | some (.str variant) => if variant = "" then .error (.invalidConfig .emptyVariant) else .ok (some variant)
  | some _ => .error (.invalidConfig (.fieldType .variant))

def configRootfs (object : Json.Members) : Checked Json.Members :=
  match object.lookup "rootfs" with
  | none => .error (.invalidConfig (.missingField .rootfs))
  | some (.obj rootfs) => .ok rootfs
  | some _ => .error (.invalidConfig (.fieldType .rootfs))

def configHistory (object : Json.Members) : Checked (Option (List Value)) :=
  match object.lookup "history" with
  | none => .ok none
  | some (.arr history) => .ok (some history)
  | some _ => .error (.invalidConfig (.fieldType .history))

/-- The diff IDs from an index on. -/
def diffIdsFrom : Nat → List Value → Checked (List String)
  | _, [] => .ok []
  | index, value :: values =>
    match value.asStr.filter isDigest with
    | none => .error (.invalidConfig (.diffIdSyntax index))
    | some diffId => do
      let diffIds ← diffIdsFrom (index + 1) values
      .ok (diffId :: diffIds)

/-- The diff IDs of a root file system of layers, and nothing else. -/
def rootfsDiffIds (rootfs : Json.Members) (limits : ContentLimits) : Checked (List String) :=
  match ((rootfs.lookup "diff_ids").bind Value.asArray).filter fun _ =>
      rootfs.length == 2 && (rootfs.lookup "type").bind Value.asStr == some "layers" with
  | none => .error (.invalidConfig .rootfsShape)
  | some diffIds => do
    judged (checkCount diffIds.length limits .layersPerImage)
    diffIdsFrom 0 diffIds

/-- How many of the history's entries from an index on are layers. -/
def historyLayers : Nat → List Value → Checked Nat
  | _, [] => .ok 0
  | index, entry :: entries =>
    match (asObject entry).map fun entry => entry.lookup "empty_layer" with
    | some none => (historyLayers (index + 1) entries).map (· + 1)
    | some (some (.bool empty)) => (historyLayers (index + 1) entries).map (· + if empty then 0 else 1)
    | _ => .error (.invalidConfig (.historyEntryShape index))

/-- The config against the open config profile. -/
def configProfile (value : Value) (limits : ContentLimits) : Checked ConfigProfile :=
  match asObject value with
  | none => .error (.invalidConfig .notObject)
  | some object => do
    let architecture ← requiredString object "architecture" .architecture
    let os ← requiredString object "os" .os
    let variant ← configVariant object
    let rootfs ← configRootfs object
    let history ← configHistory object
    let diffIds ← rootfsDiffIds rootfs limits
    match history with
    | none => .ok ⟨os, architecture, variant, diffIds⟩
    | some history => do
      let layers ← historyLayers 0 history
      if layers ≠ diffIds.length then .error (.invalidConfig .historyLayerCount)
      else .ok ⟨os, architecture, variant, diffIds⟩

/-- The config blob: its digest against the declaration and its descriptor, and then its profile. -/
def config {τ : Type} (tools : Tools τ) (file : ArchiveFile) (limits : ContentLimits) (total : Budget) (blob : Blob)
    (descriptor : Descriptor) (declaration : ImageDeclaration) : Checked (ConfigProfile × Budget) :=
  let actual := SHA256_DIGEST_PREFIX ++ blob.sha256
  if actual ≠ declaration.configDigest then .error (.configDigest declaration.configDigest actual)
  else do
    checkBlob blob descriptor .config
    let (value, total) ← readDocument tools file limits total blob.span .config
    let profile ← configProfile value limits
    .ok (profile, total)

/-! ### Platform -/

def osName : ImageOs → String
  | .linux => "linux"

def architectureName : ImageArchitecture → String
  | .amd64 => "amd64"
  | .arm64 => "arm64"

/-- A stated platform against the declared one, facet by facet. -/
def comparePlatform (location : PlatformLocation) (os architecture : String) (variant : Option String)
    (declared : ImagePlatform) : Checked Unit :=
  if os ≠ osName declared.os then .error (.platform location .os (some (osName declared.os)) (some os))
  else if architecture ≠ architectureName declared.architecture then
    .error (.platform location .architecture (some (architectureName declared.architecture)) (some architecture))
  else if variant ≠ declared.variant then .error (.platform location .variant declared.variant variant)
  else .ok ()

/-- The platform a descriptor states, if it states one. -/
def descriptorStates (location : PlatformLocation) (descriptor : Descriptor) (declared : ImagePlatform) : Checked Unit :=
  match descriptor.platform with
  | none => .ok ()
  | some platform => comparePlatform location platform.os platform.architecture platform.variant declared

def indexPlatforms (declared : ImagePlatform) : Nat → List Descriptor → Checked Unit
  | _, [] => .ok ()
  | position, descriptor :: descriptors => do
    descriptorStates (.indexDescriptor position) descriptor declared
    indexPlatforms declared (position + 1) descriptors

/-- Every stated platform against the declared one. -/
def platforms (config : ConfigProfile) (index : List Descriptor) (configDescriptor : Descriptor)
    (declared : ImagePlatform) : Checked Unit := do
  comparePlatform .config config.os config.architecture config.variant declared
  indexPlatforms declared 0 index
  descriptorStates .configDescriptor configDescriptor declared

/-! ### Canonical manifest -/

/-- Each diff ID with the length of its stored blob. -/
def storedLayers (blobs : List (String × Blob)) : List String → Option (List (String × UInt64))
  | [] => some []
  | diffId :: diffIds => do
    let hex ← stripDigest diffId
    let blob ← blobs.lookup hex
    let layers ← storedLayers blobs diffIds
    some ((diffId, UInt64.ofNat blob.span.len) :: layers)

/-- The stored manifest, byte for byte, against the one its config determines. -/
def canonicalManifest (reserve : Nat → Bool) (blobs : List (String × Blob)) (config : Blob) (diffIds : List String)
    (stored : Bytes) : Checked Unit :=
  match storedLayers blobs diffIds with
  | none => .error .nonCanonicalManifest
  | some layers =>
    match canonicalImageManifest reserve (SHA256_DIGEST_PREFIX ++ config.sha256) (UInt64.ofNat config.span.len) layers with
    | .error _ => .error .nonCanonicalManifest
    | .ok canonical => if stored = canonical then .ok () else .error .nonCanonicalManifest

/-! ### `LayerSources` -/

/-- The source stated for each diff ID against the layer at its position. -/
def sourcesMatch (sources : Json.Members) : List (Descriptor × String) → Checked Unit
  | [] => .ok ()
  | (layer, diffId) :: rest =>
    match sources.lookup diffId with
    | none => .error .inconsistentLayerSources
    | some value => do
      layerSource value layer
      sourcesMatch sources rest

def layerSources (record : Compatibility) (layers : List Descriptor) (diffIds : List String) : Checked Unit :=
  match record.layerSources.filter fun sources => !sources.isEmpty with
  | none => .ok ()
  | some sources =>
    if sources.all (fun source => diffIds.contains source.1) && diffIds.all (fun diffId => containsKey sources diffId) then
      sourcesMatch sources (layers.zip diffIds)
    else .error .inconsistentLayerSources

end DeployCore.ImageArchive
