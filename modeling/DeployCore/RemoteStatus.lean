import DeployCore.ExecutorOutput

/-! # The three readers of a remote exit status

`SshExecutor::run`, its bounded sibling `run_with_input` and `Channel::wait` each settle how an `ssh` process ended
and what stood on its standard error. -/

namespace DeployCore

structure RunLimits where
  maxStdout : Nat
  maxStderr : Nat
  timeout : Nat

inductive OutputStream
  | stdout
  | stderr
  deriving DecidableEq

inductive RunWithInputError
  | outputLimit (command : String) (stream : OutputStream) (limit : Nat)
  | timedOut (command : String) (timeout : Nat)
  | executor (error : ExecutorError)
  deriving DecidableEq

/-- How the engine's run ended. -/
inductive Ended
  | exited (output : CommandOutput)
  | abandoned (output : CommandOutput)
  | breach (stream : OutputStream)
  | timedOut
  deriving DecidableEq

def RunLimits.breach (limits : RunLimits) (command : String) : OutputStream → RunWithInputError
  | .stdout => .outputLimit command .stdout limits.maxStdout
  | .stderr => .outputLimit command .stderr limits.maxStderr

/-- The transport's own bytes removed from a supervised run's standard error: what precedes the sentinel. -/
def dropTransport (stderr : Bytes) : Bytes :=
  match Occurs.first SUDO_OK_SENTINEL stderr with
  | some pos => stderr.drop pos
  | none => stderr

/-- The limits held against what is left of a settled output. -/
def RunLimits.hold (limits : RunLimits) (command : String) (output : CommandOutput) :
    Except RunWithInputError CommandOutput :=
  if limits.maxStdout < output.stdout.length then .error (limits.breach command .stdout)
  else if limits.maxStderr < output.stderr.length then .error (limits.breach command .stderr)
  else .ok output

/-- `bounded::finish` of an output, under the supervisor's timeout marker where there is one. -/
def finishOutput (command : String) (limits : RunLimits) (timeoutMarker : Option Bytes)
    (settle : CommandOutput → Except ExecutorError CommandOutput) (output : CommandOutput) :
    Except RunWithInputError CommandOutput :=
  let settled (output : CommandOutput) := do
    let output ← (settle output).mapError .executor
    limits.hold command output
  match timeoutMarker with
  | some marker =>
    if holds output.stderr marker then .error (.timedOut command limits.timeout)
    else settled { output with stderr := dropTransport output.stderr }
  | none => settled output

def finish (command : String) (limits : RunLimits) (timeoutMarker : Option Bytes)
    (settle : CommandOutput → Except ExecutorError CommandOutput) : Ended → Except RunWithInputError CommandOutput
  | .exited output => finishOutput command limits timeoutMarker settle output
  | .abandoned output => finishOutput command limits timeoutMarker settle output
  | .breach stream => .error (limits.breach command stream)
  | .timedOut => .error (.timedOut command limits.timeout)

/-- An SSH transport. -/
structure SshExecutor where
  host : String
  auth : SudoAuth

namespace SshExecutor

/-- `run_resolved` once `ssh` has ended. -/
def run (ssh : SshExecutor) (elevated : Bool) (status : ProcessStatus) (stdout stderr : Bytes) :
    Except ExecutorError CommandOutput := do
  let output ← settleRemoteCode ssh.host ⟨status, stdout, stderr⟩
  if elevated then classifyElevation output (some ssh.auth) ssh.host else .ok output

/-- What `run_with_input` settles an output into. -/
def settleBounded (ssh : SshExecutor) (elevated : Bool) (output : CommandOutput) :
    Except ExecutorError CommandOutput := do
  let output ← settleRemoteCode ssh.host output
  if elevated then classifyElevation output (some ssh.auth) ssh.host
  else .ok { output with stderr := (takeSudoSentinel output.stderr).1 }

/-- `run_with_input` once `ssh` has ended within its deadline and limits. -/
def runWithInput (ssh : SshExecutor) (elevated : Bool) (command : String) (limits : RunLimits) (timeoutMarker : Bytes)
    (status : ProcessStatus) (stdout stderr : Bytes) : Except RunWithInputError CommandOutput :=
  finish command limits (some timeoutMarker) (ssh.settleBounded elevated) (.exited ⟨status, stdout, stderr⟩)

end SshExecutor

/-- How much of the end of a channel's standard error is held back. -/
def STATUS_HOLD : Nat := 512

/-- Where a channel's standard error goes. -/
structure Sink where
  max : Nat
  kept : Bytes
  truncated : Bool
  hold : Nat
  held : Bytes
  deriving DecidableEq

structure Drained where
  stderr : Bytes
  truncated : Bool
  ended : Bool
  remoteCode : Option Int
  tail : Bytes

/-- The exit-status line at the very end of a text: where it starts, and its code. -/
def splitStatusLine (tail : Bytes) : Option (Nat × Int) := do
  guard (tail.getLast? = some 10)
  let body := tail.dropLast
  let pos ← Occurs.last RC_MARKER body
  let digits := body.drop (pos + RC_MARKER.length)
  guard (digits ≠ [] ∧ ∀ byte ∈ digits, 48 ≤ byte.toNat ∧ byte.toNat ≤ 57)
  let code ← parseI32 digits
  some (if 0 < pos ∧ body[pos - 1]? = some 10 then pos - 1 else pos, code)

namespace Sink

def new (max hold : Nat) : Sink := ⟨max, [], false, hold, []⟩

def keepBytes (s : Sink) (bytes : Bytes) : Sink :=
  let room := s.max - s.kept.length
  { s with kept := s.kept ++ bytes.take room, truncated := s.truncated || decide (room < bytes.length) }

def push (s : Sink) (bytes : Bytes) : Sink :=
  if s.hold = 0 then s.keepBytes bytes
  else
    let held := s.held ++ bytes
    let excess := held.length - s.hold
    if 0 < excess then { s.keepBytes (held.take excess) with held := held.drop excess } else { s with held }

def finish (s : Sink) (ended : Bool) : Drained :=
  let (own, remoteCode) := match splitStatusLine s.held with
    | some (cut, code) => (s.held.take cut, some code)
    | none => (s.held, none)
  let kept := s.keepBytes own
  ⟨kept.kept, kept.truncated, ended, remoteCode, s.held⟩

end Sink

structure ChannelExit where
  code : Option Int
  stderr : Bytes
  stderrTruncated : Bool

/-- A channel whose transport ended without a status that counts, with what its reason tells: how the transport
exited, whether standard error ended on a status line, whether it ended at all, and its last bytes. -/
inductive ChannelError
  | exitUnknown (host program : String) (status : ProcessStatus) (onStatusLine ended : Bool) (tail : Bytes)
  deriving DecidableEq

/-- `Channel::wait` once the transport has exited and the drain has stopped: of an SSH channel, or of a local one. -/
def channelWait (program : String) (remoteHost : Option String) (status : ProcessStatus) (drained : Drained) :
    Except ChannelError ChannelExit :=
  let exit (code : Option Int) : ChannelExit := ⟨code, drained.stderr, drained.truncated || !drained.ended⟩
  match remoteHost, drained.remoteCode with
  | none, _ => .ok (exit status)
  | some host, some code =>
    if status.success then .ok (exit (some code))
    else .error (.exitUnknown host program status true drained.ended drained.tail)
  | some host, none => .error (.exitUnknown host program status false drained.ended drained.tail)

/-- A remote channel whose standard error arrived in the given pieces. -/
def channelExit (program host : String) (maxStderr : Nat) (status : ProcessStatus) (pieces : List Bytes)
    (ended : Bool) : Except ChannelError ChannelExit :=
  channelWait program (some host) status ((pieces.foldl Sink.push (.new maxStderr STATUS_HOLD)).finish ended)

end DeployCore
