import DeployCore.Lib.Checks
import DeployCore.Lib.Serde
import DeployCore.Strings

/-! # Module specs

How one artifact is installed: the wire types of a spec, their decoders and the validation a manifest runs on
each. -/

namespace DeployCore
open Serde

/-- Kind of artifact. -/
inductive ArtifactKind
  | nativeBinary
  | containerImage
  | composeBundle
  | staticAssets
  deriving DecidableEq

def ArtifactKind.decoder : Decoder ArtifactKind :=
  .enum <| .unit "native-binary" .nativeBinary <| .unit "container-image" .containerImage <|
    .unit "compose-bundle" .composeBundle <| .unit "static-assets" .staticAssets .nil

inductive PrivilegeProfileName
  | root
  | replay
  | afPacket
  | dpdk
  deriving DecidableEq

def PrivilegeProfileName.decoder : Decoder PrivilegeProfileName :=
  .enum <| .unit "root" .root <| .unit "replay" .replay <| .unit "af-packet" .afPacket <| .unit "dpdk" .dpdk .nil

inductive Capability
  | netRaw
  | netAdmin
  deriving DecidableEq

def Capability.decoder : Decoder Capability :=
  .enum <| .unit "net-raw" .netRaw <| .unit "net-admin" .netAdmin .nil

inductive MemlockLimit
  | infinity
  deriving DecidableEq

def MemlockLimit.decoder : Decoder MemlockLimit :=
  .enum <| .unit "infinity" .infinity .nil

inductive SystemdTarget
  | networkOnline
  | multiUser
  deriving DecidableEq

def SystemdTarget.decoder : Decoder SystemdTarget :=
  .enum <| .unit "network-online" .networkOnline <| .unit "multi-user" .multiUser .nil

inductive RestartPolicy
  | always
  deriving DecidableEq

def RestartPolicy.decoder : Decoder RestartPolicy :=
  .enum <| .unit "always" .always .nil

inductive RunAs
  | root
  deriving DecidableEq

def RunAs.decoder : Decoder RunAs :=
  .enum <| .unit "root" .root .nil

inductive SupplementaryGroup
  | adm
  | securityVfio
  deriving DecidableEq

def SupplementaryGroup.decoder : Decoder SupplementaryGroup :=
  .enum <| .unit "adm" .adm <| .unit "clumit-security-vfio" .securityVfio .nil

inductive RenderVar
  | artifactPath
  | configPath
  | dataDir
  | instanceId
  | hostname
  | domain
  | certPath
  | keyPath
  | caBundlePath
  | managerEndpoint
  | mainPid
  deriving DecidableEq

def RenderVar.decoder : Decoder RenderVar :=
  .enum <| .unit "artifact-path" .artifactPath <| .unit "config-path" .configPath <| .unit "data-dir" .dataDir <|
    .unit "instance-id" .instanceId <| .unit "hostname" .hostname <| .unit "domain" .domain <|
    .unit "cert-path" .certPath <| .unit "key-path" .keyPath <| .unit "ca-bundle-path" .caBundlePath <|
    .unit "manager-endpoint" .managerEndpoint <| .unit "main-pid" .mainPid .nil

inductive Arg
  | literal (text : String)
  | var (var : RenderVar)
  deriving DecidableEq

def Arg.decoder : Decoder Arg :=
  .enum <| .newtype "literal" .string .literal <| .newtype "var" RenderVar.decoder .var .nil

/-- One privilege set a caller may select. -/
structure PrivilegeProfile where
  name : PrivilegeProfileName
  runAs : Option RunAs
  ambientCapabilities : List Capability
  limitMemlock : Option MemlockLimit
  supplementaryGroups : List SupplementaryGroup
  deriving DecidableEq

def PrivilegeProfile.decoder : Decoder PrivilegeProfile :=
  .record true
    (.cons "name" none PrivilegeProfileName.decoder <|
      .cons "run_as" (some none) (.option RunAs.decoder) <|
      .cons "ambient_capabilities" (some []) (.seq Capability.decoder) <|
      .cons "limit_memlock" (some none) (.option MemlockLimit.decoder) <|
      .cons "supplementary_groups" (some []) (.seq SupplementaryGroup.decoder) .nil)
    fun (name, runAs, ambientCapabilities, limitMemlock, supplementaryGroups, ()) =>
      ⟨name, runAs, ambientCapabilities, limitMemlock, supplementaryGroups⟩

/-- The unit file a spec describes. -/
structure UnitTemplate where
  description : String
  after : List SystemdTarget
  wants : List SystemdTarget
  wantedBy : List SystemdTarget
  execStart : List Arg
  execReload : Option (List Arg)
  workingDirectory : Option Arg
  environment : List (String × Arg)
  restart : RestartPolicy
  restartSec : UInt32
  limitNofile : Option UInt64
  runAs : Option RunAs
  supplementaryGroups : List SupplementaryGroup
  protectHome : Bool
  privateTmp : Bool
  noNewPrivileges : Bool
  privilegeProfiles : List PrivilegeProfile
  deriving DecidableEq

def UnitTemplate.decoder : Decoder UnitTemplate :=
  .record true
    (.cons "description" none .string <|
      .cons "after" none (.seq SystemdTarget.decoder) <|
      .cons "wants" none (.seq SystemdTarget.decoder) <|
      .cons "wanted_by" none (.seq SystemdTarget.decoder) <|
      .cons "exec_start" none (.seq Arg.decoder) <|
      .cons "exec_reload" (some none) (.option (.seq Arg.decoder)) <|
      .cons "working_directory" (some none) (.option Arg.decoder) <|
      .cons "environment" none (.seq (.pair .string Arg.decoder)) <|
      .cons "restart" none RestartPolicy.decoder <|
      .cons "restart_sec" none .u32 <|
      .cons "limit_nofile" (some none) (.option .u64) <|
      .cons "run_as" (some none) (.option RunAs.decoder) <|
      .cons "supplementary_groups" (some []) (.seq SupplementaryGroup.decoder) <|
      .cons "protect_home" none .bool <|
      .cons "private_tmp" none .bool <|
      .cons "no_new_privileges" none .bool <|
      .cons "privilege_profiles" (some []) (.seq PrivilegeProfile.decoder) .nil)
    fun (description, after, wants, wantedBy, execStart, execReload, workingDirectory, environment, restart,
        restartSec, limitNofile, runAs, supplementaryGroups, protectHome, privateTmp, noNewPrivileges,
        privilegeProfiles, ()) =>
      ⟨description, after, wants, wantedBy, execStart, execReload, workingDirectory, environment, restart,
        restartSec, limitNofile, runAs, supplementaryGroups, protectHome, privateTmp, noNewPrivileges,
        privilegeProfiles⟩

inductive ReloadSpec
  | sighup (processPath : String)
  | dockerSighup (container : String)
  deriving DecidableEq

def ReloadSpec.decoder : Decoder ReloadSpec :=
  .enum <| .struct "sighup" true (.cons "process_path" none .string .nil) (fun (path, ()) => .sighup path) <|
    .struct "docker-sighup" true (.cons "container" none .string .nil) (fun (name, ()) => .dockerSighup name) .nil

structure RegistrationTemplate where
  packageId : String
  serviceName : String
  reload : ReloadSpec
  certGroupGid : Option UInt32
  deriving DecidableEq

def RegistrationTemplate.decoder : Decoder RegistrationTemplate :=
  .record true
    (.cons "package_id" none .string <|
      .cons "service_name" none .string <|
      .cons "reload" none ReloadSpec.decoder <|
      .cons "cert_group_gid" (some none) (.option .u32) .nil)
    fun (packageId, serviceName, reload, certGroupGid, ()) => ⟨packageId, serviceName, reload, certGroupGid⟩

inductive PlacementClass
  | coreHosts
  | moduleHosts
  deriving DecidableEq

def PlacementClass.decoder : Decoder PlacementClass :=
  .enum <| .unit "core-hosts" .coreHosts <| .unit "module-hosts" .moduleHosts .nil

/-- How one artifact is installed. -/
structure ModuleSpec where
  unit : Option UnitTemplate
  registration : RegistrationTemplate
  placement : PlacementClass
  deriving DecidableEq

def ModuleSpec.decoder : Decoder ModuleSpec :=
  .record true
    (.cons "unit" (some none) (.option UnitTemplate.decoder) <|
      .cons "registration" none RegistrationTemplate.decoder <|
      .cons "placement" none PlacementClass.decoder .nil)
    fun (unit, registration, placement, ()) => ⟨unit, registration, placement⟩

/-- Why a spec is refused. -/
inductive ModuleSpecError
  | missingUnit (kind : ArtifactKind)
  | unexpectedUnit (kind : ArtifactKind)
  | emptyDescription
  | unrepresentableDescription (text : String)
  | emptyLiteral
  | unrepresentableLiteral (text : String)
  | invalidEnvironmentKey (key : String)
  | emptyExecStart
  | execStartNotArtifactPath
  | emptyExecReload
  | zeroLimitNofile
  | infiniteLimitNofile
  | duplicateSupplementaryGroup (group : SupplementaryGroup)
  | supplementaryGroupsWithRunAs
  | mainPidOutsideExecReload
  | securityVfioOutsideProfile
  | privilegeProfilesWithRunAs
  | privilegeProfilesWithSupplementaryGroups
  | duplicatePrivilegeProfile (name : PrivilegeProfileName)
  | runAsMismatchesProfileName (name : PrivilegeProfileName)
  | privilegesInRootProfile (name : PrivilegeProfileName)
  | duplicateProfileCapability (profile : PrivilegeProfileName) (capability : Capability)
  | duplicateProfileSupplementaryGroup (profile : PrivilegeProfileName) (group : SupplementaryGroup)
  | packageIdMismatch (packageId component : String)
  | invalidServiceName (name : String)
  | invalidProcessPath (path : String)
  | invalidContainerName (name : String)
  deriving DecidableEq

def MAX_DNS_LABEL_LEN : Nat := 63
def MAX_CONTAINER_NAME_LEN : Nat := 255

/-- Whether a value can be written in a unit file at all. -/
def isRepresentable (value : String) : Bool :=
  !value.toList.isEmpty && !value.toList.any isControl

def isEnvironmentKey (key : String) : Bool :=
  headTail (fun c => isAsciiUpper c || isAsciiLower c || c == '_')
    (fun c => isAsciiAlphanumeric c || c == '_') key.toList

def isDnsLabel (value : String) : Bool :=
  !(value.toList.isEmpty || MAX_DNS_LABEL_LEN < byteLen value) &&
    !(value.toList.head? == some '-' || value.toList.getLast? == some '-') &&
    value.toList.all fun c => isAsciiLower c || isAsciiDigit c || c == '-'

def isAbsoluteProcessPath (value : String) : Bool :=
  value.toList.head? == some '/' && value.toList.all fun c => 0x21 ≤ c.toNat && c.toNat ≤ 0x7E

def isContainerName (value : String) : Bool :=
  !(MAX_CONTAINER_NAME_LEN < byteLen value) &&
    headTail isAsciiAlphanumeric (fun c => isAsciiAlphanumeric c || c == '_' || c == '.' || c == '-') value.toList

def validateArg (mainPidAllowed : Bool) : Arg → Except ModuleSpecError Unit
  | .literal text =>
    if text.toList.isEmpty then .error .emptyLiteral
    else if isRepresentable text then .ok ()
    else .error (.unrepresentableLiteral text)
  | .var .mainPid => if mainPidAllowed then .ok () else .error .mainPidOutsideExecReload
  | .var _ => .ok ()

/-- The name `root` and the identity a profile renders agree. -/
def checkRunAs (profile : PrivilegeProfile) : Except ModuleSpecError Unit :=
  if (profile.name == .root) != (profile.runAs == some .root) then .error (.runAsMismatchesProfileName profile.name)
  else .ok ()

/-- A root-run profile declares no further privilege. -/
def checkRootProfile (profile : PrivilegeProfile) : Except ModuleSpecError Unit :=
  if profile.runAs.isSome &&
      (!profile.ambientCapabilities.isEmpty || profile.limitMemlock.isSome || !profile.supplementaryGroups.isEmpty) then
    .error (.privilegesInRootProfile profile.name)
  else .ok ()

/-- Each rule runs over every profile before the next one starts. -/
def validatePrivilegeProfiles (unit : UnitTemplate) : Except ModuleSpecError Unit := do
  if unit.supplementaryGroups.contains .securityVfio then .error .securityVfioOutsideProfile
  else if unit.privilegeProfiles.isEmpty then .ok ()
  else if unit.runAs.isSome then .error .privilegeProfilesWithRunAs
  else if !unit.supplementaryGroups.isEmpty then .error .privilegeProfilesWithSupplementaryGroups
  else do
    Checks.distinct (·.name) (fun profile => .duplicatePrivilegeProfile profile.name) unit.privilegeProfiles
    Checks.each checkRunAs unit.privilegeProfiles
    Checks.each checkRootProfile unit.privilegeProfiles
    Checks.each (fun profile => Checks.distinct id (.duplicateProfileCapability profile.name ·)
      profile.ambientCapabilities) unit.privilegeProfiles
    Checks.each (fun profile => Checks.distinct id (.duplicateProfileSupplementaryGroup profile.name ·)
      profile.supplementaryGroups) unit.privilegeProfiles

def validateEnvironment (entry : String × Arg) : Except ModuleSpecError Unit :=
  if !isEnvironmentKey entry.1 then .error (.invalidEnvironmentKey entry.1)
  else validateArg false entry.2

def validateExecStart (args : List Arg) : Except ModuleSpecError Unit :=
  match args with
  | [] => .error .emptyExecStart
  | first :: _ =>
    if first ≠ .var .artifactPath then .error .execStartNotArtifactPath
    else Checks.each (validateArg false) args

def validateExecReload : Option (List Arg) → Except ModuleSpecError Unit
  | none => .ok ()
  | some args => if args.isEmpty then .error .emptyExecReload else Checks.each (validateArg true) args

def validateLimitNofile : Option UInt64 → Except ModuleSpecError Unit
  | some limit =>
    if limit = 0 then .error .zeroLimitNofile
    else if limit = 0xFFFFFFFFFFFFFFFF then .error .infiniteLimitNofile
    else .ok ()
  | none => .ok ()

def validateUnit (unit : UnitTemplate) : Except ModuleSpecError Unit := do
  if unit.description.toList.isEmpty then .error .emptyDescription
  else if !isRepresentable unit.description then .error (.unrepresentableDescription unit.description)
  else do
    validateExecStart unit.execStart
    validateExecReload unit.execReload
    match unit.workingDirectory with
    | some arg => validateArg false arg
    | none => .ok ()
    Checks.each validateEnvironment unit.environment
    validateLimitNofile unit.limitNofile
    if unit.runAs.isSome && !unit.supplementaryGroups.isEmpty then .error .supplementaryGroupsWithRunAs
    else do
      Checks.distinct id .duplicateSupplementaryGroup unit.supplementaryGroups
      validatePrivilegeProfiles unit

def validateReload : ReloadSpec → Except ModuleSpecError Unit
  | .sighup path => if isAbsoluteProcessPath path then .ok () else .error (.invalidProcessPath path)
  | .dockerSighup name => if isContainerName name then .ok () else .error (.invalidContainerName name)

def validateRegistration (registration : RegistrationTemplate) (component : String) : Except ModuleSpecError Unit :=
  if registration.packageId ≠ component then .error (.packageIdMismatch registration.packageId component)
  else if !isDnsLabel registration.serviceName then .error (.invalidServiceName registration.serviceName)
  else validateReload registration.reload

/-- A unit is carried by exactly the kinds that run one. -/
def checkUnitPresence (kind : ArtifactKind) (unit : Option UnitTemplate) : Except ModuleSpecError Unit :=
  match kind, unit with
  | .nativeBinary, none | .composeBundle, none => .error (.missingUnit kind)
  | .staticAssets, some _ | .containerImage, some _ => .error (.unexpectedUnit kind)
  | _, _ => .ok ()

/-- Validates the spec of an artifact of `component` and `kind`. -/
def ModuleSpec.validate (spec : ModuleSpec) (component : String) (kind : ArtifactKind) :
    Except ModuleSpecError Unit := do
  checkUnitPresence kind spec.unit
  match spec.unit with
  | some unit => validateUnit unit
  | none => .ok ()
  validateRegistration spec.registration component

end DeployCore
