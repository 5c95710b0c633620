import DeployCore.ContentLimits
import DeployCore.ImageDeclaration
import DeployCore.ImageVerdict

/-! # The documents of an image archive

The image manifest and its descriptors, checked by hand in rule order: the first rule a document breaks is the
verdict. -/

namespace DeployCore
open Json

def OCI_MANIFEST_MEDIA_TYPE : String := "application/vnd.oci.image.manifest.v1+json"
def OCI_CONFIG_MEDIA_TYPE : String := "application/vnd.oci.image.config.v1+json"
def OCI_LAYER_MEDIA_TYPE : String := "application/vnd.oci.image.layer.v1.tar"
def OCI_GZIP_LAYER_MEDIA_TYPE : String := "application/vnd.oci.image.layer.v1.tar+gzip"
def OCI_INDEX_MEDIA_TYPE : String := "application/vnd.oci.image.index.v1+json"
def DOCKER_MANIFEST_LIST_MEDIA_TYPE : String := "application/vnd.docker.distribution.manifest.list.v2+json"

def ATTESTATION_ANNOTATION : String := "vnd.docker.reference.type"
def OCI_ANNOTATION_PREFIX : String := "org.opencontainers.image."
def BASHBREW_ARCH_ANNOTATION : String := "com.docker.official-images.bashbrew.arch"

def OCI_MANIFEST_ANNOTATIONS : List String :=
  ["created", "authors", "url", "documentation", "source", "version", "revision", "vendor", "licenses", "title",
    "description", "base.name", "base.digest"]

def SUPPORTED_SCHEMA_VERSION : UInt64 := 2

/-- The fields that refer outside the archive, in the order they are checked. -/
def DESCRIPTOR_EXTENSIONS : List (String × ExtensionField) :=
  [("subject", .subject), ("artifactType", .artifactType), ("urls", .urls), ("data", .data)]

def DOCUMENT_EXTENSIONS : List (String × ExtensionField) :=
  [("subject", .subject), ("artifactType", .artifactType)]

/-- `sha256:` and 64 lowercase hexadecimal digits. -/
def isDigest (value : String) : Bool :=
  match stripPrefix SHA256_DIGEST_PREFIX.toList value.toList with
  | some hex => byteLen (.ofList hex) == IMAGE_DIGEST_HEX_LEN && isLowerHex (.ofList hex)
  | none => false

/-- What a descriptor describes. -/
inductive Role
  | indexManifest (index : Nat)
  | config
  | layer (position : Nat)
  deriving DecidableEq

namespace Role

def keys : Role → List String
  | .indexManifest _ => ["mediaType", "digest", "size", "platform", "annotations"]
  | .config => ["mediaType", "digest", "size", "platform"]
  | .layer _ => ["mediaType", "digest", "size"]

def sizeLimit : Role → LimitResource
  | .indexManifest _ => .imageManifestJson
  | .config => .configJson
  | .layer _ => .storedLayerBlob

def platformLocation : Role → Option PlatformLocation
  | .indexManifest index => some (.indexDescriptor index)
  | .config => some .configDescriptor
  | .layer _ => none

def checkMediaType (role : Role) (mediaType : String) : Except ArchiveVerdict Unit :=
  match role with
  | .indexManifest _ =>
    if mediaType = OCI_MANIFEST_MEDIA_TYPE then .ok ()
    else if mediaType = OCI_INDEX_MEDIA_TYPE ∨ mediaType = DOCKER_MANIFEST_LIST_MEDIA_TYPE then
      .error (.unsupported .nestedIndex)
    else .error (.unsupported .manifestMediaType)
  | .config => if mediaType = OCI_CONFIG_MEDIA_TYPE then .ok () else .error (.unsupported .configMediaType)
  | .layer position =>
    if mediaType = OCI_LAYER_MEDIA_TYPE ∨ mediaType = OCI_GZIP_LAYER_MEDIA_TYPE then .ok ()
    else .error (.unsupported (.layerMediaType position))

end Role

/-- A platform as a descriptor states it; a variant that is absent or null is none. -/
structure DescriptorPlatform where
  os : String
  architecture : String
  variant : Option String
  deriving DecidableEq

/-- A descriptor that passed the rules of its role. -/
structure Descriptor where
  mediaType : String
  digest : String
  size : UInt64
  platform : Option DescriptorPlatform
  annotations : Option Json.Members

/-- The members of an object. -/
def asObject : Value → Option Json.Members
  | .obj members => some members
  | _ => none

def containsKey (object : Json.Members) (key : String) : Bool :=
  (object.lookup key).isSome

/-- Refuses the first extension field of `fields` that the object carries. -/
def refuseExtensions (object : Json.Members) (document : ImageDocument) (fields : List (String × ExtensionField)) :
    Except ArchiveVerdict Unit :=
  match fields.find? fun field => containsKey object field.1 with
  | some (_, field) => .error (.unsupported (.extensionField document field))
  | none => .ok ()

def onlyKeys (object : Json.Members) (allowed : List String) : Bool :=
  object.all fun member => allowed.contains member.1

def isSchemaVersion (value : Option Value) : Bool :=
  value.bind Value.asU64 == some SUPPORTED_SCHEMA_VERSION

/-- The members of an object whose values are all strings. -/
def stringMap (value : Value) : Option Json.Members :=
  (asObject value).filter fun object => object.all fun member => member.2.asStr.isSome

def descriptorPlatform (value : Value) (location : PlatformLocation) (document : ImageDocument) :
    Except ArchiveVerdict DescriptorPlatform :=
  match (asObject value).filter (onlyKeys · ["os", "architecture", "variant"]) with
  | none => .error (shape document)
  | some object =>
    match (object.lookup "os").bind Value.asStr, (object.lookup "architecture").bind Value.asStr with
    | some os, some architecture =>
      match object.lookup "variant" with
      | none | some .null => .ok ⟨os, architecture, none⟩
      | some (.str variant) =>
        if variant = "" then .error (.invalid (.emptyPlatformVariant location))
        else .ok ⟨os, architecture, some variant⟩
      | some _ => .error (shape document)
    | _, _ => .error (shape document)

/-- What is there, or the refusal of a document that has not its shape. -/
def orShape {α : Type} (document : ImageDocument) : Option α → Except ArchiveVerdict α
  | some a => .ok a
  | none => .error (shape document)

/-- The annotations of an index descriptor. -/
def descriptorAnnotations (object : Json.Members) (role : Role) (document : ImageDocument) :
    Except ArchiveVerdict (Option Json.Members) :=
  match role, object.lookup "annotations" with
  | .indexManifest _, some annotations => do
    let annotations ← orShape document (stringMap annotations)
    if containsKey annotations ATTESTATION_ANNOTATION then .error (.unsupported .attestation)
    else .ok (some annotations)
  | _, _ => .ok none

/-- A descriptor against the rules of its role, in rule order. -/
def descriptor (value : Value) (role : Role) (document : ImageDocument) (limits : ContentLimits) :
    Except ArchiveVerdict Descriptor := do
  let object ← orShape document (asObject value)
  refuseExtensions object document DESCRIPTOR_EXTENSIONS
  if (role matches .config | .layer _) && containsKey object "annotations" then
    .error (.unsupported UnsupportedArchiveFeature.descriptorAnnotation)
  else if !onlyKeys object role.keys then .error (shape document)
  else do
    let mediaType ← orShape document ((object.lookup "mediaType").bind Value.asStr)
    role.checkMediaType mediaType
    let digest ← orShape document (((object.lookup "digest").bind Value.asStr).filter isDigest)
    let size ← orShape document ((object.lookup "size").bind Value.asU64)
    let sizeLimit := limits.resourceLimit role.sizeLimit
    if size.toNat > sizeLimit.max then .error (.limit sizeLimit.resource sizeLimit.max)
    else do
      let annotations ← descriptorAnnotations object role document
      match role.platformLocation, object.lookup "platform" with
      | some location, some platform => do
        let platform ← descriptorPlatform platform location document
        .ok ⟨mediaType, digest, size, some platform, annotations⟩
      | _, _ => .ok ⟨mediaType, digest, size, none, annotations⟩

/-- Refuses a count above the resource's limit. -/
def checkCount (count : Nat) (limits : ContentLimits) (resource : LimitResource) : Except ArchiveVerdict Unit :=
  let limit := limits.resourceLimit resource
  if count > limit.max then .error (.limit resource limit.max) else .ok ()

def isManifestAnnotation (key : String) : Bool :=
  key == BASHBREW_ARCH_ANNOTATION ||
    (stripPrefix OCI_ANNOTATION_PREFIX.toList key.toList).any fun name => OCI_MANIFEST_ANNOTATIONS.contains (.ofList name)

/-- The config and layer descriptors of the image manifest. -/
structure ImageManifest where
  config : Descriptor
  layers : List Descriptor

/-- The layer descriptors, each with its position. -/
def layerDescriptors (document : ImageDocument) (limits : ContentLimits) : Nat → List Value →
    Except ArchiveVerdict (List Descriptor)
  | _, [] => .ok []
  | position, value :: values => do
    let layer ← descriptor value (.layer position) document limits
    let layers ← layerDescriptors document limits (position + 1) values
    .ok (layer :: layers)

def imageManifest (value : Value) (limits : ContentLimits) : Except ArchiveVerdict ImageManifest := do
  let document := ImageDocument.imageManifest
  let object ← orShape document (asObject value)
  refuseExtensions object document DOCUMENT_EXTENSIONS
  if !onlyKeys object ["schemaVersion", "mediaType", "config", "layers", "annotations"] then .error (shape document)
  else if !isSchemaVersion (object.lookup "schemaVersion") then .error (shape document)
  else do
    let mediaType ← orShape document ((object.lookup "mediaType").bind Value.asStr)
    if mediaType ≠ OCI_MANIFEST_MEDIA_TYPE then .error (.unsupported .manifestMediaType)
    else do
      let config ← descriptor ((object.lookup "config").getD .null) .config document limits
      let layers ← orShape document ((object.lookup "layers").bind Value.asArray)
      checkCount layers.length limits .layersPerImage
      let layers ← layerDescriptors document limits 0 layers
      match object.lookup "annotations" with
      | none => .ok ⟨config, layers⟩
      | some annotations => do
        let annotations ← orShape document (stringMap annotations)
        if annotations.all fun member => isManifestAnnotation member.1 then .ok ⟨config, layers⟩
        else .error (.unsupported UnsupportedArchiveFeature.manifestAnnotation)

end DeployCore
