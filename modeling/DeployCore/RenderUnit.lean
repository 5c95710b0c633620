import DeployCore.ModuleSpec

/-! # Rendering a unit (`src/systemd.rs`, `src/render.rs`)

The one serialization rule for values in a unit file, and the renderer that turns a spec and a host's context into the
text and the name of a unit file. -/

namespace DeployCore
namespace UnitFile

/-- `[_]::join`. -/
def join (sep : String) (parts : List String) : String :=
  String.ofList (List.intercalate sep.toList (parts.map String.toList))

/-! ### Serialization -/

/-- A resolved value about to become directive text. -/
inductive UnitValue
  | argument (raw : String)
  | mainPid
  | environment (key value : String)
  | description (raw : String)
  deriving DecidableEq

def MAIN_PID : String := "$MAINPID"

/-- `str::replace` of a character. -/
def replaceChar (value : String) (from' : Char) (by' : String) : String :=
  String.ofList (value.toList.flatMap fun c => if c = from' then by'.toList else [c])

/-- Doubles `%`, and `$` when `dollars` is set. -/
def double (value : String) (dollars : Bool) : String :=
  let percentDoubled := replaceChar value '%' "%%"
  if dollars then replaceChar percentDoubled '$' "$$" else percentDoubled

/-- A character that needs no quotes: printable ASCII without blanks, quotes and the backslash. -/
def isBareSafeChar (c : Char) : Bool :=
  0x21 ≤ c.toNat && c.toNat ≤ 0x7E && !(c == '"' || c.toNat == 0x27 || c == '\\')

def isBareSafe (raw : String) : Bool := !raw.toList.isEmpty && raw.toList.all isBareSafeChar

/-- Wraps `value` in double quotes. -/
def quote (value : String) : String := "\"" ++ replaceChar (replaceChar value '\\' "\\\\") '"' "\\\"" ++ "\""

def render : UnitValue → String
  | .argument raw => if isBareSafe raw then double raw true else quote (double raw true)
  | .mainPid => MAIN_PID
  | .environment key value => quote (double (key ++ "=" ++ value) false)
  | .description raw => double raw false

/-! ### Spellings -/

def capabilityStr : Capability → String
  | .netRaw => "CAP_NET_RAW"
  | .netAdmin => "CAP_NET_ADMIN"

def memlockStr : MemlockLimit → String
  | .infinity => "infinity"

def targetStr : SystemdTarget → String
  | .networkOnline => "network-online.target"
  | .multiUser => "multi-user.target"

def restartStr : RestartPolicy → String
  | .always => "always"

def groupStr : SupplementaryGroup → String
  | .adm => "adm"
  | .securityVfio => "clumit-security-vfio"

/-- The accounts a service may run as. -/
inductive ServiceAccount
  | security
  | insight
  | roxyd
  deriving DecidableEq

def ServiceAccount.asStr : ServiceAccount → String
  | .security => "clumit-security"
  | .insight => "clumit-insight"
  | .roxyd => "clumit-roxyd"

/-! ### The renderer -/

/-- Everything the renderer needs, resolved by the caller. -/
structure RenderContext where
  artifactPath : String
  configPath : String
  dataDir : String
  instanceId : String
  hostname : String
  domain : String
  certPath : String
  keyPath : String
  caBundlePath : String
  managerEndpoint : Option String
  serviceAccount : Option ServiceAccount
  privilegeProfile : Option PrivilegeProfileName
  unitNamespace : String
  serviceName : String
  unitInstance : Option String
  component : String
  kind : ArtifactKind

structure RenderedUnit where
  fileName : String
  text : String
  deriving DecidableEq

inductive NameField
  | unitNamespace
  | serviceName
  | unitInstance
  deriving DecidableEq

inductive RenderError
  | invalidSpec (source : ModuleSpecError)
  | unrepresentableValue (var : RenderVar) (value : String)
  | unresolvedVariable (var : RenderVar)
  | invalidNameComponent (field : NameField) (value : String)
  | supplementaryGroupsWithoutUser
  | missingPrivilegeProfile
  | undeclaredPrivilegeProfile (profile : PrivilegeProfileName)
  | unexpectedPrivilegeProfile (profile : PrivilegeProfileName)
  | privilegeProfileWithoutUser (profile : PrivilegeProfileName)
  deriving DecidableEq

/-- The privilege lines a unit renders with. -/
structure Privileges where
  runAs : Option RunAs
  supplementaryGroups : List SupplementaryGroup
  capabilities : Option (List Capability)
  limitMemlock : Option MemlockLimit
  deriving DecidableEq

/-- The privileges of a unit under a selected profile. -/
def profilePrivileges (unit : UnitTemplate) (context : RenderContext) (selected : PrivilegeProfileName) :
    Except RenderError Privileges :=
  if unit.privilegeProfiles.isEmpty then .error (.unexpectedPrivilegeProfile selected)
  else
    (unit.privilegeProfiles.find? fun profile => decide (profile.name = selected)).elim
      (.error (.undeclaredPrivilegeProfile selected)) fun profile =>
        if profile.runAs.isSome then .ok ⟨profile.runAs, [], none, none⟩
        else if context.serviceAccount.isNone then .error (.privilegeProfileWithoutUser selected)
        else .ok ⟨none, profile.supplementaryGroups, some profile.ambientCapabilities, profile.limitMemlock⟩

def resolvePrivileges (unit : UnitTemplate) (context : RenderContext) : Except RenderError Privileges :=
  context.privilegeProfile.elim
    (if unit.privilegeProfiles.isEmpty then .ok ⟨unit.runAs, unit.supplementaryGroups, none, none⟩
      else .error .missingPrivilegeProfile)
    (profilePrivileges unit context)

def checkLabel (field : NameField) (value : String) : Except RenderError Unit :=
  if isDnsLabel value then .ok () else .error (.invalidNameComponent field value)

def unitFileName (context : RenderContext) : Except RenderError String := do
  checkLabel .unitNamespace context.unitNamespace
  checkLabel .serviceName context.serviceName
  match context.unitInstance with
  | none => .ok (context.unitNamespace ++ "-" ++ context.serviceName ++ ".service")
  | some name => do
    checkLabel .unitInstance name
    .ok (context.unitNamespace ++ "-" ++ context.serviceName ++ "-" ++ name ++ ".service")

/-- An argument resolved to what it contributes. -/
inductive Resolved
  | text (text : String)
  | mainPid
  deriving DecidableEq

/-- A value the host resolved, held to what a unit file can represent. -/
def representable (var : RenderVar) (value : String) : Except RenderError Resolved :=
  if isRepresentable value then .ok (.text value) else .error (.unrepresentableValue var value)

def resolveVar (var : RenderVar) (context : RenderContext) : Except RenderError Resolved :=
  match var with
  | .artifactPath => representable var context.artifactPath
  | .configPath => representable var context.configPath
  | .dataDir => representable var context.dataDir
  | .instanceId => representable var context.instanceId
  | .hostname => representable var context.hostname
  | .domain => representable var context.domain
  | .certPath => representable var context.certPath
  | .keyPath => representable var context.keyPath
  | .caBundlePath => representable var context.caBundlePath
  | .managerEndpoint => context.managerEndpoint.elim (.error (.unresolvedVariable var)) (representable var)
  | .mainPid => .ok .mainPid

def resolve (arg : Arg) (context : RenderContext) : Except RenderError Resolved :=
  match arg with
  | .literal text => .ok (.text text)
  | .var var => resolveVar var context

/-- What a resolved element contributes to a line. -/
def Resolved.rendered : Resolved → String
  | .text raw => render (.argument raw)
  | .mainPid => render .mainPid

def renderArg (arg : Arg) (context : RenderContext) : Except RenderError String :=
  (resolve arg context).map Resolved.rendered

def renderArgs (args : List Arg) (context : RenderContext) : Except RenderError String :=
  (Checks.collect (renderArg · context) args).map (join " ")

/-- The raw text of an environment value. -/
def Resolved.raw : Resolved → String
  | .text raw => raw
  | .mainPid => render .mainPid

def resolveRaw (arg : Arg) (context : RenderContext) : Except RenderError String :=
  (resolve arg context).map Resolved.raw

def renderEnvironment (context : RenderContext) (entry : String × Arg) : Except RenderError String :=
  (resolveRaw entry.2 context).map fun raw => render (.environment entry.1 raw)

/-- The values of the lines that carry arguments. -/
structure ArgumentLines where
  execStart : String
  execReload : Option String
  workingDirectory : Option String
  environment : List String
  deriving DecidableEq

/-- Renders what may be absent. -/
def optional {α : Type} (renderSome : α → Except RenderError String) (value : Option α) :
    Except RenderError (Option String) :=
  value.elim (.ok none) fun a => (renderSome a).map some

def argumentLines (unit : UnitTemplate) (context : RenderContext) : Except RenderError ArgumentLines := do
  let execStart ← renderArgs unit.execStart context
  let execReload ← optional (renderArgs · context) unit.execReload
  let workingDirectory ← optional (renderArg · context) unit.workingDirectory
  let environment ← Checks.collect (renderEnvironment context) unit.environment
  .ok { execStart, execReload, workingDirectory, environment }

def directive (name value : String) : String := name ++ "=" ++ value

def flag (name : String) (set : Bool) : List String := if set then [directive name "yes"] else []

/-- The capability lines: the bounding set is written even when it is empty. -/
def capabilityLines (capabilities : List Capability) : List String :=
  let spelled := join " " (capabilities.map capabilityStr)
  (if capabilities.isEmpty then [] else [directive "AmbientCapabilities" spelled]) ++
    [directive "CapabilityBoundingSet" spelled]

def groupLines (groups : List SupplementaryGroup) : List String :=
  if groups.isEmpty then [] else [directive "SupplementaryGroups" (join " " (groups.map groupStr))]

/-- The account of the `User=` line: a unit that declares `run_as` has none. -/
def account (privileges : Privileges) (context : RenderContext) : Option ServiceAccount :=
  if privileges.runAs.isNone then context.serviceAccount else none

def unitSection (unit : UnitTemplate) : List String :=
  "[Unit]" :: directive "Description" (render (.description unit.description)) ::
    unit.after.map (fun target => directive "After" (targetStr target)) ++
    unit.wants.map fun target => directive "Wants" (targetStr target)

def serviceSection (unit : UnitTemplate) (privileges : Privileges) (account : Option ServiceAccount)
    (lines : ArgumentLines) : List String :=
  "[Service]" :: account.toList.map (fun account => directive "User" account.asStr) ++
    groupLines privileges.supplementaryGroups ++ privileges.capabilities.elim [] capabilityLines ++
    [directive "ExecStart" lines.execStart] ++ lines.execReload.toList.map (directive "ExecReload") ++
    lines.workingDirectory.toList.map (directive "WorkingDirectory") ++ lines.environment.map (directive "Environment") ++
    [directive "Restart" (restartStr unit.restart), directive "RestartSec" (toString unit.restartSec.toNat)] ++
    unit.limitNofile.toList.map (fun limit => directive "LimitNOFILE" (toString limit.toNat)) ++
    privileges.limitMemlock.toList.map (fun limit => directive "LimitMEMLOCK" (memlockStr limit)) ++
    flag "ProtectHome" unit.protectHome ++ flag "PrivateTmp" unit.privateTmp ++
    flag "NoNewPrivileges" unit.noNewPrivileges

def installSection (unit : UnitTemplate) : List String :=
  "[Install]" :: unit.wantedBy.map fun target => directive "WantedBy" (targetStr target)

def unitLines (unit : UnitTemplate) (privileges : Privileges) (account : Option ServiceAccount) (lines : ArgumentLines) :
    List String :=
  unitSection unit ++ [""] ++ serviceSection unit privileges account lines ++ [""] ++ installSection unit

def renderText (unit : UnitTemplate) (privileges : Privileges) (context : RenderContext) : Except RenderError String :=
  if !privileges.supplementaryGroups.isEmpty && (account privileges context).isNone then
    .error .supplementaryGroupsWithoutUser
  else
    (argumentLines unit context).map fun lines =>
      join "\n" (unitLines unit privileges (account privileges context) lines) ++ "\n"

/-- The unit of a validated template. -/
def renderTemplate (unit : UnitTemplate) (context : RenderContext) : Except RenderError RenderedUnit := do
  let privileges ← resolvePrivileges unit context
  let fileName ← unitFileName context
  let text ← renderText unit privileges context
  .ok { fileName, text }

def renderUnit (spec : ModuleSpec) (context : RenderContext) : Except RenderError (Option RenderedUnit) := do
  (spec.validate context.component context.kind).mapError .invalidSpec
  match spec.unit with
  | none => .ok none
  | some unit => (renderTemplate unit context).map some

end UnitFile
end DeployCore
