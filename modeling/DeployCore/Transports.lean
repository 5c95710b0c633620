import DeployCore.Elevation
import DeployCore.RemoteStatus

/-! # What each transport spawns (`src/executor.rs`)

The calls of `Executor` that start a command, and the invocation `LocalExecutor`, `SshExecutor` and `InDaemonExecutor`
resolve each to. `sudo` is found by its own name; the overrides tests have of it are left out. -/

namespace DeployCore

/-! ### Calls -/

/-- A call, with its caller's words and paths. -/
inductive ExecutorCall
  | run (identity : Identity) (command : Bytes) (args : List Bytes)
  | runIn (identity : Identity) (dir command : Bytes) (args : List Bytes)
  | putFile (dest : Bytes) (fileMeta : FileMeta)
  | hardLinkOver (source dest : Bytes)
  | makeDir (dest : Bytes) (fileMeta : FileMeta)
  | runWithInput (identity : Identity) (command : Bytes) (args : List Bytes) (timeout : Nat)
  | openChannel (identity : Identity) (command : Bytes) (args : List Bytes)
  deriving DecidableEq

/-- `Path::to_string_lossy`. -/
def toStringLossy (path : Bytes) : Bytes := asBytes (.ofList (fromUtf8Lossy path))

/-- The option every shell is given its script with. -/
def dashC : Bytes := asBytes "-c"

/-- The arguments for `sh` that run a command in a directory. -/
def wrapInDir (dir command : Bytes) (args : List Bytes) : List Bytes :=
  [dashC, CD_EXEC_SCRIPT, asBytes "_", toStringLossy dir, command] ++ args

def landingArgv (dest : Bytes) (fileMeta : FileMeta) : List Bytes :=
  [dashC, PUT_FILE_SCRIPT, asBytes "_", toStringLossy dest, fileMeta.owner.asArg, fileMeta.group.asArg,
    fileMeta.modeArg]

def linkAsideArgv (source dest : Bytes) : List Bytes :=
  [dashC, LINK_ASIDE_SCRIPT, asBytes "_", toStringLossy source, toStringLossy dest]

def makeDirArgv (dest : Bytes) (fileMeta : FileMeta) : List Bytes :=
  let policy := if fileMeta.isServiceWritable then asBytes "verify" else asBytes "correct"
  [dashC, MAKE_DIR_SCRIPT, asBytes "_", toStringLossy dest, fileMeta.owner.asArg, fileMeta.group.asArg,
    fileMeta.modeArg, policy]

/-- The supervisor's script of a bounded run. -/
def boundedScript (auth : SudoAuth) (identity : Identity) (timeout : Nat) (draws : Draws) : Bytes :=
  supervisorScript (timeoutMarker draws.timeout) timeout (passwordHandoff auth identity draws)

/-! ### The local transport -/

/-- A local invocation: the words spawned, the program first, what goes ahead on standard input, and whether `sudo`
started it. -/
structure Resolved where
  argv : List Bytes
  preamble : Option Bytes
  elevated : Bool
  deriving DecidableEq

structure LocalExecutor where
  host : String
  auth : SudoAuth

/-- The options `sudo` authenticates by. -/
def SudoAuth.flags : SudoAuth → List Bytes
  | .nonInteractive => [asBytes "-n"]
  | .password _ => [asBytes "-S", asBytes "-p", []]

def SudoAuth.preamble (handoff : Option Handoff) : SudoAuth → Option Bytes
  | .nonInteractive => none
  | .password secret => some (passwordPreamble secret handoff)

/-- The words that select the account. -/
def Elevation.words : Elevation → List Bytes
  | .elevate => []
  | .descend account => [asBytes "-u", account.asStr]

namespace LocalExecutor

def resolveThrough (e : LocalExecutor) (identity : Identity) (shell script : Bytes) (handoff : Option Handoff)
    (command : Bytes) (args : List Bytes) : Except ExecutorRefusal Resolved :=
  match Elevation.of identity with
  | none => .ok ⟨command :: args, none, false⟩
  | some elevation => do
    checkSudoWords command args
    .ok ⟨[SUDO] ++ e.auth.flags ++ elevation.words ++ [shell, dashC, script, command] ++ args, e.auth.preamble handoff,
      true⟩

def resolve (e : LocalExecutor) (draws : Draws) (identity : Identity) (command : Bytes) (args : List Bytes) :
    Except ExecutorRefusal Resolved :=
  let handoff := passwordHandoff e.auth identity draws
  e.resolveThrough identity SH (sudoSentinelScript handoff) handoff command args

def invocation (e : LocalExecutor) (draws : Draws) : ExecutorCall → Except ExecutorRefusal Resolved
  | .run identity command args => e.resolve draws identity command args
  | .runIn identity dir command args => e.resolve draws identity SH (wrapInDir dir command args)
  | .putFile dest fileMeta => e.resolve draws .root SH (landingArgv dest fileMeta)
  | .hardLinkOver source dest => e.resolve draws .root SH (linkAsideArgv source dest)
  | .makeDir dest fileMeta => e.resolve draws .root SH (makeDirArgv dest fileMeta)
  | .runWithInput identity command args timeout => do
    checkCommand command
    e.resolveThrough identity SUPERVISOR_SHELL (boundedScript e.auth identity timeout draws)
      (passwordHandoff e.auth identity draws) command args
  | .openChannel identity command args => do
    checkCommand command
    e.resolveThrough identity START_SHELL (startScript draws.handoff) none command args

end LocalExecutor

/-! ### The SSH transport -/

/-- Single quotes around the argument; each quote in it closes them, stands behind a backslash and opens them again. -/
def shellQuote (arg : Bytes) : Bytes :=
  [39] ++ arg.flatMap (fun b => if b = 39 then [39, 92, 39, 39] else [b]) ++ [39]

def shellJoin (words : List Bytes) : Bytes := [32].intercalate (words.map shellQuote)

/-- The remote line that runs `remote` and then reports its status. -/
def wrapWithRcMarker (remote : Bytes) : Bytes :=
  remote ++ asBytes "; printf '\\n" ++ RC_MARKER ++ asBytes "%d\\n' \"$?\" >&2"

/-- A remote invocation: the command line, what goes ahead on standard input, and whether `sudo` starts it. -/
structure ResolvedRemote where
  remote : Bytes
  preamble : Option Bytes
  elevated : Bool
  deriving DecidableEq

namespace SshExecutor

def resolveThrough (e : SshExecutor) (identity : Identity) (shell script : Bytes) (handoff : Option Handoff)
    (operatorScript : Option Bytes) (command : Bytes) (args : List Bytes) : Except ExecutorRefusal ResolvedRemote :=
  match Elevation.of identity with
  | none =>
    let remote := match operatorScript with
      | some wrapper => shellJoin ([shell, dashC, wrapper, command] ++ args)
      | none => shellJoin (command :: args)
    .ok ⟨remote, none, false⟩
  | some elevation => do
    checkSudoWords command args
    let descent := match elevation with
      | .elevate => []
      | .descend account => asBytes " -u " ++ shellQuote account.asStr
    let (flags, preamble) := match e.auth with
      | .nonInteractive => (asBytes "-n", none)
      | .password password => (asBytes "-S -p ''", some (passwordPreamble password handoff))
    .ok ⟨SUDO ++ asBytes " " ++ flags ++ descent ++ asBytes " " ++ shellJoin ([shell, dashC, script, command] ++ args),
      preamble, true⟩

def resolve (e : SshExecutor) (draws : Draws) (identity : Identity) (command : Bytes) (args : List Bytes) :
    Except ExecutorRefusal ResolvedRemote :=
  let handoff := passwordHandoff e.auth identity draws
  e.resolveThrough identity SH (sudoSentinelScript handoff) handoff none command args

def invocation (e : SshExecutor) (draws : Draws) : ExecutorCall → Except ExecutorRefusal ResolvedRemote
  | .run identity command args => e.resolve draws identity command args
  | .runIn identity dir command args => e.resolve draws identity SH (wrapInDir dir command args)
  | .putFile dest fileMeta => e.resolve draws .root SH (landingArgv dest fileMeta)
  | .hardLinkOver source dest => e.resolve draws .root SH (linkAsideArgv source dest)
  | .makeDir dest fileMeta => e.resolve draws .root SH (makeDirArgv dest fileMeta)
  | .runWithInput identity command args timeout => do
    checkCommand command
    let script := boundedScript e.auth identity timeout draws
    e.resolveThrough identity SUPERVISOR_SHELL script (passwordHandoff e.auth identity draws) (some script) command args
  | .openChannel identity command args => do
    checkCommand command
    let script := startScript draws.handoff
    e.resolveThrough identity START_SHELL script none (some script) command args

end SshExecutor

/-! ### The transport inside the root daemon -/

structure OperatorIds where
  uid : Nat
  gid : Nat
  uid_descends : uid ≠ 0 ∧ uid < 2 ^ 32 - 1
  gid_descends : gid ≠ 0 ∧ gid < 2 ^ 32 - 1

inductive Descent
  | service (account : ServiceAccount)
  | operator (ids : OperatorIds)

structure InDaemonExecutor where
  host : String

namespace InDaemonExecutor

/-- `sudo` and the words that select who is descended to. -/
def sudoDescent : Descent → List Bytes
  | .service account => [SUDO, asBytes "-u", account.asStr]
  | .operator ids =>
    [SUDO, asBytes "-u", asBytes "#" ++ Decimal.write ids.uid, asBytes "-g", asBytes "#" ++ Decimal.write ids.gid]

def resolveThrough (e : InDaemonExecutor) (identity : Identity) (shell script command : Bytes) (args : List Bytes) :
    Except ExecutorRefusal Resolved :=
  match identity with
  | .operator => .error (.noOperatorIdentity e.host)
  | .root => .ok ⟨command :: args, none, false⟩
  | .service account => do
    checkSudoWords command args
    .ok ⟨sudoDescent (.service account) ++ [shell, dashC, script, command] ++ args, none, true⟩

def resolve (e : InDaemonExecutor) (identity : Identity) (command : Bytes) (args : List Bytes) :
    Except ExecutorRefusal Resolved :=
  e.resolveThrough identity SH (sudoSentinelScript none) command args

/-- What a call spawns; a file is written and linked by direct system calls. -/
def invocation (e : InDaemonExecutor) (draws : Draws) : ExecutorCall → Except ExecutorRefusal (Option Resolved)
  | .run identity command args => (e.resolve identity command args).map some
  | .runIn identity dir command args => (e.resolve identity SH (wrapInDir dir command args)).map some
  | .putFile _ _ => .ok none
  | .hardLinkOver _ _ => .ok none
  | .makeDir dest fileMeta => (e.resolve .root SH (makeDirArgv dest fileMeta)).map some
  | .runWithInput identity command args timeout => do
    checkCommand command
    (e.resolveThrough identity SUPERVISOR_SHELL (supervisorScript (timeoutMarker draws.timeout) timeout none) command
      args).map some
  | .openChannel _ _ _ => .error .unsupported

end InDaemonExecutor

end DeployCore
