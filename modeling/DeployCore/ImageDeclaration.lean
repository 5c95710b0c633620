import DeployCore.ModuleSpec

/-! # Image declarations

The declaration a container image artifact carries: its wire types and decoders, the parsing of image
references as the container runtime normalises them, and the validation of a declaration. A declaration is only
ever decoded from a generically decoded value, so its decoders are used at that door alone. -/

namespace DeployCore
open Serde Json

def GIT_COMMIT_HEX_LEN : Nat := 40
def IMAGE_DIGEST_HEX_LEN : Nat := 64

def IMAGE_DECLARATION_SCHEMA : UInt32 := 1

structure ImageOwner where
  namespaceName : String
  component : String
  deriving DecidableEq

def ImageOwner.decoder : Decoder ImageOwner :=
  .record true (.cons "namespace" none .string <| .cons "component" none .string .nil)
    fun (namespaceName, component, ()) => ⟨namespaceName, component⟩

inductive ImageOs
  | linux
  deriving DecidableEq

def ImageOs.decoder : Decoder ImageOs :=
  .enum <| .unit "linux" .linux .nil

inductive ImageArchitecture
  | amd64
  | arm64
  deriving DecidableEq

def ImageArchitecture.decoder : Decoder ImageArchitecture :=
  .enum <| .unit "amd64" .amd64 <| .unit "arm64" .arm64 .nil

structure ImagePlatform where
  os : ImageOs
  architecture : ImageArchitecture
  variant : Option String
  deriving DecidableEq

/-- `variant` may be `null` but not missing. -/
def ImagePlatform.decoder : Decoder ImagePlatform :=
  .record true
    (.cons "os" none ImageOs.decoder <| .cons "architecture" none ImageArchitecture.decoder <|
      .cons "variant" none (.option .string) .nil)
    fun (os, architecture, variant, ()) => ⟨os, architecture, variant⟩

inductive ReferenceLifecycle
  | managedRuntime
  | sharedExternal
  deriving DecidableEq

def ReferenceLifecycle.decoder : Decoder ReferenceLifecycle :=
  .enum <| .unit "managed_runtime" .managedRuntime <| .unit "shared_external" .sharedExternal .nil

structure RegistryProvenance where
  repository : String
  tag : String
  version : Option String
  pinnedDigest : String
  selectedManifestDigest : String
  deriving DecidableEq

def RegistryProvenance.decoder : Decoder RegistryProvenance :=
  .record true
    (.cons "repository" none .string <| .cons "tag" none .string <| .cons "version" none (.option .string) <|
      .cons "pinned_digest" none .string <| .cons "selected_manifest_digest" none .string .nil)
    fun (repository, tag, version, pinned, selected, ()) => ⟨repository, tag, version, pinned, selected⟩

structure ProductBuildProvenance where
  repository : String
  commit : String
  deriving DecidableEq

def ProductBuildProvenance.decoder : Decoder ProductBuildProvenance :=
  .record true (.cons "repository" none .string <| .cons "commit" none .string .nil)
    fun (repository, commit, ()) => ⟨repository, commit⟩

inductive ImageProvenance
  | registry (provenance : RegistryProvenance)
  | productBuild (provenance : ProductBuildProvenance)
  deriving DecidableEq

/-- The variant a tag names, decoded from what the tag leaves. -/
def ImageProvenance.ofTagged (kind : String) (content : Value) : Option ImageProvenance :=
  if kind = "registry" then (RegistryProvenance.decoder.value content).map .registry
  else if kind = "product_build" then (ProductBuildProvenance.decoder.value content).map .productBuild
  else none

/-- An internally tagged enumeration: the tag is the member `kind` of an object, or the first item of an array,
and the variant is decoded from the rest. -/
def ImageProvenance.decoder : Decoder ImageProvenance :=
  .refine (fun
    | .obj members => do
      let kind ← (members.lookup "kind").bind Value.asStr
      ofTagged kind (.obj (members.filter (·.1 != "kind")))
    | .arr (tag :: items) => do
      let kind ← tag.asStr
      ofTagged kind (.arr items)
    | _ => none) .any

structure ImageDeclaration where
  schema : UInt32
  owner : ImageOwner
  dependency : String
  publicRefs : List String
  platform : ImagePlatform
  configDigest : String
  referenceLifecycle : ReferenceLifecycle
  provenance : ImageProvenance
  deriving DecidableEq

def ImageDeclaration.decoder : Decoder ImageDeclaration :=
  .record true
    (.cons "schema" none .u32 <| .cons "owner" none ImageOwner.decoder <| .cons "dependency" none .string <|
      .cons "public_refs" none (.seq .string) <| .cons "platform" none ImagePlatform.decoder <|
      .cons "config_digest" none .string <| .cons "reference_lifecycle" none ReferenceLifecycle.decoder <|
      .cons "provenance" none ImageProvenance.decoder .nil)
    fun (schema, owner, dependency, publicRefs, platform, configDigest, referenceLifecycle, provenance, ()) =>
      ⟨schema, owner, dependency, publicRefs, platform, configDigest, referenceLifecycle, provenance⟩

/-! ### Errors -/

inductive SegmentField
  | namespaceName
  | component
  | dependency
  deriving DecidableEq

inductive DigestField
  | config
  | pinned
  | selectedManifest
  deriving DecidableEq

inductive ReferenceError
  | empty
  | digestNotAllowed
  | missingTag
  | tagNotAllowed
  | invalidTag (tag : String)
  | hexIdentifier
  | uppercase (path : String)
  | invalidDomain (domain : String)
  | invalidPath (path : String)
  | pathTooLong (len : Nat)
  | notCanonical (normalized : String)
  deriving DecidableEq

inductive ImageDeclarationError
  | unsupportedSchema (found : UInt64)
  | invalidSegment (field : SegmentField) (value : String)
  | emptyPublicRefs
  | invalidReference (reference : String) (source : ReferenceError)
  | duplicateReference (reference first : String)
  | emptyVariant
  | invalidDigest (field : DigestField) (value : String)
  | invalidRegistryRepository (repository : String) (source : ReferenceError)
  | invalidRegistryTag (tag : String)
  | invalidRegistryVersion (version : String)
  | invalidSourceRepository (repository : String)
  | invalidSourceCommit (commit : String)
  | invalidRuntimeAlias (runtimeAlias : String) (source : ReferenceError)
  deriving DecidableEq

/-! ### References -/

def RUNTIME_ALIAS_REGISTRY : String := "runtime.invalid"
def RUNTIME_ALIAS_TAG_PREFIX : String := "cfg-"
def DOCKER_DEFAULT_DOMAIN : String := "docker.io"
def DOCKER_LEGACY_DEFAULT_DOMAIN : String := "index.docker.io"
def DOCKER_OFFICIAL_REPO_PREFIX : String := "library/"
def DOCKER_LOCALHOST : String := "localhost"
def MAX_REPOSITORY_PATH_BYTES : Nat := 255
def MAX_TAG_BYTES : Nat := 128
def SHA256_DIGEST_PREFIX : String := "sha256:"

structure NormalizedReference where
  domain : String
  path : String
  tag : String
  deriving DecidableEq

/-- The registry host, its port removed; a bracketed host keeps its colons. -/
def NormalizedReference.host (reference : NormalizedReference) : List Char :=
  let domain := reference.domain.toList
  if domain.head? = some '[' then
    match splitOnce ']' domain with
    | some (before, _) => before ++ [']']
    | none => domain
  else
    match splitOnce ':' domain with
    | some (host, _) => host
    | none => domain

def isValidTag (tag : String) : Bool :=
  byteLen tag ≤ MAX_TAG_BYTES &&
    headTail (fun c => isAsciiAlphanumeric c || c == '_')
      (fun c => isAsciiAlphanumeric c || c == '_' || c == '.' || c == '-') tag.toList

def isPathAlphanumeric (c : Char) : Bool :=
  isAsciiLower c || isAsciiDigit c

/-- A run of separators between two runs of a path component. -/
def isPathSeparator (run : List Char) : Bool :=
  run == ['.'] || run == ['_'] || run == ['_', '_'] || (!run.isEmpty && run.all (· == '-'))

/-- The alternation of a path component, with `fuel` runs left to read. -/
def isValidPathComponentFrom : Nat → List Char → Bool
  | 0, _ => false
  | fuel + 1, cs =>
    let rest := cs.dropWhile isPathAlphanumeric
    if (cs.takeWhile isPathAlphanumeric).isEmpty then false
    else if rest.isEmpty then true
    else
      isPathSeparator (rest.takeWhile (!isPathAlphanumeric ·)) &&
        isValidPathComponentFrom fuel (rest.dropWhile (!isPathAlphanumeric ·))

/-- Alphanumeric runs joined by single separators; each round consumes at least one character. -/
def isValidPathComponent (component : List Char) : Bool :=
  isValidPathComponentFrom (component.length + 1) component

def isValidDomainComponent (component : List Char) : Bool :=
  match component.head?, component.getLast? with
  | some first, some last =>
    isAsciiAlphanumeric first && isAsciiAlphanumeric last && component.all fun c => isAsciiAlphanumeric c || c == '-'
  | _, _ => false

def isValidPort : Option (List Char) → Bool
  | none => true
  | some port => !port.isEmpty && port.all isAsciiDigit

def isValidDomainAndPort (domain : List Char) : Bool :=
  match stripPrefix ['['] domain with
  | some bracketed =>
    match splitOnce ']' bracketed with
    | none => false
    | some (address, rest) =>
      let addressValid := !address.isEmpty && address.all fun c => isAsciiHexDigit c || c == ':'
      if rest.isEmpty then addressValid && isValidPort none
      else
        match stripPrefix [':'] rest with
        | some port => addressValid && isValidPort (some port)
        | none => false
  | none =>
    let (host, port) :=
      match splitOnce ':' domain with
      | some (host, port) => (host, some port)
      | none => (domain, none)
    (host.splitOn '.').all isValidDomainComponent && isValidPort port

/-- The registry and the repository path of a name, the registry's defaults filled in. -/
def splitDockerDomain (name : List Char) : List Char × List Char :=
  let dockerIo := DOCKER_DEFAULT_DOMAIN.toList
  let (domain, remote) :=
    match splitOnce '/' name with
    | none => (dockerIo, name)
    | some (first, rest) =>
      if first = DOCKER_LOCALHOST.toList then (first, rest)
      else if first = DOCKER_LEGACY_DEFAULT_DOMAIN.toList then (dockerIo, rest)
      else if first.contains '.' || first.contains ':' || first.any isAsciiUpper then (first, rest)
      else (dockerIo, name)
  if domain = dockerIo && !remote.contains '/' then (domain, DOCKER_OFFICIAL_REPO_PREFIX.toList ++ remote)
  else (domain, remote)

/-- The name and the tag of a reference that carries one: the last colon, with no slash behind it. -/
def splitTag (reference : List Char) : Option (List Char × List Char) :=
  match rsplitOnce ':' reference with
  | none => none
  | some (name, tag) => if tag.contains '/' then none else some (name, tag)

def normalizeName (whole : String) (name : List Char) : Except ReferenceError (String × String) :=
  if byteLen whole = IMAGE_DIGEST_HEX_LEN ∧ isLowerHex whole then .error .hexIdentifier
  else
    let (domain, path) := splitDockerDomain name
    if path.any isAsciiUpper then .error (.uppercase (.ofList path))
    else if !isValidDomainAndPort domain then .error (.invalidDomain (.ofList domain))
    else if !(path.splitOn '/').all isValidPathComponent then .error (.invalidPath (.ofList path))
    else if MAX_REPOSITORY_PATH_BYTES < byteLen (.ofList path) then .error (.pathTooLong (byteLen (.ofList path)))
    else .ok (.ofList domain, .ofList path)

def parseTaggedReference (reference : String) : Except ReferenceError NormalizedReference := do
  if reference.toList.isEmpty then .error .empty
  else if reference.toList.contains '@' then .error .digestNotAllowed
  else
    match splitTag reference.toList with
    | none => .error .missingTag
    | some (name, tag) =>
      if !isValidTag (.ofList tag) then .error (.invalidTag (.ofList tag))
      else do
        let (domain, path) ← normalizeName reference name
        .ok ⟨domain, path, .ofList tag⟩

def validateCanonicalRepository (repository : String) : Except ReferenceError Unit := do
  if repository.toList.isEmpty then .error .empty
  else if repository.toList.contains '@' then .error .digestNotAllowed
  else if (splitTag repository.toList).isSome then .error .tagNotAllowed
  else do
    let (domain, path) ← normalizeName repository repository.toList
    let normalized := domain ++ "/" ++ path
    if normalized = repository then .ok () else .error (.notCanonical normalized)

/-! ### Validation -/

def isValidSegment (value : String) : Bool :=
  headTail (fun c => isAsciiLower c || isAsciiDigit c)
    (fun c => isAsciiLower c || isAsciiDigit c || c == '-' || c == '_') value.toList

def validateSegment (field : SegmentField) (value : String) : Except ImageDeclarationError Unit :=
  if isValidSegment value then .ok () else .error (.invalidSegment field value)

/-- The hexadecimal part of a `sha256:` digest. -/
def validateDigest (field : DigestField) (value : String) : Except ImageDeclarationError String :=
  match stripPrefix SHA256_DIGEST_PREFIX.toList value.toList with
  | some hex =>
    if byteLen (.ofList hex) = IMAGE_DIGEST_HEX_LEN ∧ isLowerHex (.ofList hex) then .ok (.ofList hex)
    else .error (.invalidDigest field value)
  | none => .error (.invalidDigest field value)

def isNumericIdentifier (identifier : List Char) : Bool :=
  !identifier.isEmpty && identifier.all isAsciiDigit && (identifier == ['0'] || identifier.head? != some '0')

def isAlphanumericIdentifier (identifier : List Char) : Bool :=
  !identifier.isEmpty && identifier.all fun c => isAsciiAlphanumeric c || c == '-'

def isCanonicalSemver (version : String) : Bool :=
  let (rest, build) :=
    match splitOnce '+' version.toList with
    | some (rest, build) => (rest, some build)
    | none => (version.toList, none)
  let (core, prerelease) :=
    match splitOnce '-' rest with
    | some (core, prerelease) => (core, some prerelease)
    | none => (rest, none)
  let parts := core.splitOn '.'
  parts.length == 3 && parts.all isNumericIdentifier &&
    (prerelease.all fun prerelease => (prerelease.splitOn '.').all fun identifier =>
      isAlphanumericIdentifier identifier && (!identifier.all isAsciiDigit || isNumericIdentifier identifier)) &&
    build.all fun build => (build.splitOn '.').all isAlphanumericIdentifier

def RegistryProvenance.validate (p : RegistryProvenance) : Except ImageDeclarationError Unit := do
  (validateCanonicalRepository p.repository).mapError (.invalidRegistryRepository p.repository)
  if !isValidTag p.tag then .error (.invalidRegistryTag p.tag)
  else if let some version := p.version.filter (!isCanonicalSemver ·) then .error (.invalidRegistryVersion version)
  else do
    let _ ← validateDigest .pinned p.pinnedDigest
    let _ ← validateDigest .selectedManifest p.selectedManifestDigest
    .ok ()

def ProductBuildProvenance.validate (p : ProductBuildProvenance) : Except ImageDeclarationError Unit :=
  if p.repository.toList.isEmpty || p.repository.toList.head?.any isWhitespace ||
      p.repository.toList.getLast?.any isWhitespace || p.repository.toList.any isControl then
    .error (.invalidSourceRepository p.repository)
  else if byteLen p.commit ≠ GIT_COMMIT_HEX_LEN ∨ !isLowerHex p.commit then .error (.invalidSourceCommit p.commit)
  else .ok ()

/-- The public references, each normalised and none twice. -/
def validatePublicRefs : List (NormalizedReference × String) → List String → Except ImageDeclarationError Unit
  | _, [] => .ok ()
  | seen, reference :: references => do
    let normalized ← (parseTaggedReference reference).mapError (.invalidReference reference)
    match seen.lookup normalized with
    | some first => .error (.duplicateReference reference first)
    | none => validatePublicRefs (seen ++ [(normalized, reference)]) references

def ImageDeclaration.validate (d : ImageDeclaration) : Except ImageDeclarationError Unit := do
  if d.schema ≠ IMAGE_DECLARATION_SCHEMA then .error (.unsupportedSchema d.schema.toUInt64)
  else do
    validateSegment .namespaceName d.owner.namespaceName
    validateSegment .component d.owner.component
    validateSegment .dependency d.dependency
    if d.publicRefs.isEmpty then .error .emptyPublicRefs
    else do
      validatePublicRefs [] d.publicRefs
      if d.platform.variant = some "" then .error .emptyVariant
      else do
        let _ ← validateDigest .config d.configDigest
        match d.provenance with
        | .registry registry => registry.validate
        | .productBuild build => build.validate

/-- The one alias a declaration may have under the reserved registry. -/
def ImageDeclaration.canonicalRuntimeAlias (d : ImageDeclaration) : Except ImageDeclarationError String := do
  validateSegment .namespaceName d.owner.namespaceName
  validateSegment .component d.owner.component
  validateSegment .dependency d.dependency
  let hex ← validateDigest .config d.configDigest
  let runtimeAlias := RUNTIME_ALIAS_REGISTRY ++ "/" ++ d.owner.namespaceName ++ "/" ++ d.owner.component ++ "/" ++
    d.dependency ++ ":" ++ RUNTIME_ALIAS_TAG_PREFIX ++ hex
  match parseTaggedReference runtimeAlias with
  | .ok _ => .ok runtimeAlias
  | .error source => .error (.invalidRuntimeAlias runtimeAlias source)

end DeployCore
