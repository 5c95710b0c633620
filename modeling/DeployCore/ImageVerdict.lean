import DeployCore.ContentFault

/-! # Verdicts on an image archive

The refusals of the archive validator, and the conversion of a content primitive's fault into one: what the fault
means depends on the site it was raised at, and at each site some faults cannot be raised. The header fields, pax keys
and header faults that a refusal names are those of the fault. -/

namespace DeployCore

inductive ImageDocument
  | ociLayout
  | index
  | compatibilityManifest
  | imageManifest
  | config
  deriving DecidableEq

inductive LayoutFile
  | ociLayout
  | index
  | compatibilityManifest
  deriving DecidableEq

inductive ExtensionField
  | subject
  | artifactType
  | urls
  | data
  deriving DecidableEq

inductive ReferenceSource
  | repoTags
  | indexAnnotation
  deriving DecidableEq

inductive PlatformLocation
  | config
  | indexDescriptor (index : Nat)
  | configDescriptor
  deriving DecidableEq

inductive TarFeature
  | format
  | entryType (flag : UInt8)
  | paxKey
  deriving DecidableEq

inductive TarFault
  | truncated
  | checksum
  | numericField (field : TarField)
  | nameField (field : TarField)
  | offsetOverflow
  | trailingData
  | zeroTailTooLong
  | unsafePath
  | duplicatePath
  | pathConflict
  | nonRegularWithData
  | paxRecord
  | paxDuplicateKey
  | paxValue (key : PaxKey)
  | extensionPayload
  | duplicateExtension
  | conflictingAuthority
  | danglingExtension
  | linkOnNonLink
  deriving DecidableEq

inductive GzipFault
  | header (fault : GzipHeaderFault)
  | deflate
  | crc32
  | isize
  | truncated
  | trailingData
  deriving DecidableEq

inductive JsonFault
  | syntaxError
  | duplicateKey
  deriving DecidableEq

inductive UnsupportedArchiveFeature
  | compressedOuterStream
  | archiveTar (feature : TarFeature)
  | legacyExportFile
  | extraFile
  | nestedIndex
  | attestation
  | manifestMediaType
  | configMediaType
  | layerMediaType (position : Nat)
  | extensionField (document : ImageDocument) (field : ExtensionField)
  | descriptorAnnotation
  | manifestAnnotation
  | concatenatedGzipMember (position : Nat)
  | layerTar (position : Nat) (feature : TarFeature)
  deriving DecidableEq

inductive InvalidArchiveReason
  | tar (fault : TarFault)
  | missingLayoutFile (file : LayoutFile)
  | json (document : ImageDocument) (fault : JsonFault)
  | unexpectedShape (document : ImageDocument)
  | emptyPlatformVariant (location : PlatformLocation)
  | invalidRepoTag (index : Nat)
  | duplicateTag (source : ReferenceSource)
  | invalidAnnotation (index : Nat)
  | gzip (position : Nat) (fault : GzipFault)
  | layerTar (position : Nat) (fault : TarFault)
  deriving DecidableEq

/-- A verdict before it is given the artifact's archive path. -/
inductive ArchiveVerdict
  | unsupported (feature : UnsupportedArchiveFeature)
  | invalid (reason : InvalidArchiveReason)
  | undeclared (reference : String) (source : ReferenceSource)
  | missing (reference : String) (source : ReferenceSource)
  | limit (resource : LimitResource) (limit : Nat)
  | io (err : SourceError)
  deriving DecidableEq

def shape (document : ImageDocument) : ArchiveVerdict :=
  .invalid (.unexpectedShape document)

def IMPOSSIBLE_FAULT : String := "a content primitive reported a fault its call site cannot raise"

def impossible : ArchiveVerdict :=
  .io ⟨.other 0, some IMPOSSIBLE_FAULT⟩

/-- Where a primitive fault was raised: in the walk of the image archive, in the walk of a layer or the gzip decoder
under it, or in a document. -/
inductive FaultSite
  | imageWalk
  | layerWalk (position : Nat) (decoder : Bool)
  | document (document : ImageDocument)
  deriving DecidableEq

/-! ## The conversion

Each table answers `none` where it calls the fault impossible. -/

namespace FaultSite

def tar (site : FaultSite) (fault : TarFault) : Option ArchiveVerdict :=
  match site with
  | imageWalk => some (.invalid (.tar fault))
  | layerWalk position false => some (.invalid (.layerTar position fault))
  | layerWalk _ true | document _ => none

def layerTar (site : FaultSite) (fault : TarFault) : Option ArchiveVerdict :=
  match site with
  | layerWalk position false => some (.invalid (.layerTar position fault))
  | _ => none

def gzip (site : FaultSite) (fault : GzipFault) : Option ArchiveVerdict :=
  match site with
  | layerWalk position true => some (.invalid (.gzip position fault))
  | _ => none

/-- A shape has no fault of its own. -/
def json (site : FaultSite) (fault : Option JsonFault) : Option ArchiveVerdict :=
  match site, fault with
  | .document d, some fault => some (.invalid (.json d fault))
  | .document d, none => some (shape d)
  | _, _ => none

def malformed (site : FaultSite) : MalformedReason → Option ArchiveVerdict
  | .truncated =>
    match site with
    | layerWalk _ true => site.gzip .truncated
    | _ => site.tar .truncated
  | .tarChecksum => site.tar .checksum
  | .tarNumericField field => site.tar (.numericField field)
  | .tarNameField field => site.tar (.nameField field)
  | .offsetOverflow => site.tar .offsetOverflow
  | .trailingData => site.tar .trailingData
  | .zeroTailTooLong => site.tar .zeroTailTooLong
  | .unsafePath => site.tar .unsafePath
  | .duplicatePath => site.tar .duplicatePath
  | .pathConflict => site.tar .pathConflict
  | .nonRegularWithData => site.tar .nonRegularWithData
  | .paxRecord => site.layerTar .paxRecord
  | .paxDuplicateKey => site.layerTar .paxDuplicateKey
  | .paxValue key => site.layerTar (.paxValue key)
  | .extensionPayload => site.layerTar .extensionPayload
  | .duplicateExtension => site.layerTar .duplicateExtension
  | .conflictingAuthority => site.layerTar .conflictingAuthority
  | .danglingExtension => site.layerTar .danglingExtension
  | .linkOnNonLink => site.layerTar .linkOnNonLink
  | .gzipHeader fault => site.gzip (.header fault)
  | .deflateData => site.gzip .deflate
  | .gzipCrc32 => site.gzip .crc32
  | .gzipIsize => site.gzip .isize
  | .gzipTrailingData => site.gzip .trailingData
  | .jsonSyntax => site.json (some .syntaxError)
  | .jsonDuplicateKey => site.json (some .duplicateKey)
  | .jsonShape => site.json none

def tarFeature (site : FaultSite) (feature : TarFeature) : Option ArchiveVerdict :=
  match site with
  | imageWalk => some (.unsupported (.archiveTar feature))
  | layerWalk position false => some (.unsupported (.layerTar position feature))
  | layerWalk _ true | document _ => none

def unsupportedContent (site : FaultSite) : UnsupportedFeature → Option ArchiveVerdict
  | .tarFormat => site.tarFeature .format
  | .entryType flag => site.tarFeature (.entryType flag)
  | .paxKey => site.tarFeature .paxKey
  | .concatenatedGzipMember =>
    match site with
    | layerWalk position true => some (.unsupported (.concatenatedGzipMember position))
    | _ => none

/-- The refusal a fault raised at the site is, where the site can raise it. -/
def refusal (site : FaultSite) : ContentFault → Option ArchiveVerdict
  | .limitExceeded resource limit => some (.limit resource limit)
  | .io err => some (.io err)
  | .malformed reason => site.malformed reason
  | .unsupported feature => site.unsupportedContent feature

end FaultSite

def convert (fault : ContentFault) (site : FaultSite) : ArchiveVerdict :=
  (site.refusal fault).getD impossible

end DeployCore
