import DeployCore.Strings
import DeployCore.Lib.Decimal
import DeployCore.Lib.Occurs

/-! # What a command run over SSH leaves (`src/executor.rs`, `src/executor/bounded.rs`)

The exit status of a remote command travels on its standard error, behind the marker the wrapper prints; the marker
of a started `sudo` and of a run past its deadline travel there too. -/

namespace DeployCore

def RC_MARKER : Bytes := asBytes "__BOOTLER_RC__:"
def SUDO_OK_SENTINEL : Bytes := asBytes "__BOOTLER_SUDO_OK__"
def SSH_KEX_ALGORITHMS : String := "mlkem768x25519-sha256,sntrup761x25519-sha512"
def SSH_KEX_NO_MATCH : String := "no matching key exchange method found"

/-- The exit code a process ended with, unless a signal ended it. -/
abbrev ProcessStatus := Option Int

def ProcessStatus.success (status : ProcessStatus) : Bool := status == some 0

structure CommandOutput where
  code : Option Int
  stdout : Bytes
  stderr : Bytes
  deriving DecidableEq

/-- The errors a finished process is settled into. -/
inductive ExecutorError
  | connection (host reason : String)
  | kexUnsupportedLocally (host allowed reason : String)
  | kexRefusedByHost (host allowed reason : String)
  | elevation (host : String)
  | sudoRefused (host reason : String)
  deriving DecidableEq

/-- `String::from_utf8_lossy(..).trim()`. -/
def lossyTrim (bytes : Bytes) : String :=
  .ofList (((fromUtf8Lossy bytes).dropWhile isWhitespace).reverse.dropWhile isWhitespace).reverse

/-- Whether a text holds another. -/
def holds (text : Bytes) (word : Bytes) : Bool := (Occurs.first word text).isSome

/-- `str::parse::<i32>`: digits behind at most one sign, within the type. -/
def parseI32 : Bytes → Option Int
  | [] => none
  | [43] => none
  | [45] => none
  | 43 :: digits => (Decimal.read (2 ^ 31) 0 digits).map Int.ofNat
  | 45 :: digits => (Decimal.read (2 ^ 31 + 1) 0 digits).map fun n => -Int.ofNat n
  | digits => (Decimal.read (2 ^ 31) 0 digits).map Int.ofNat

/-- Where the last marker stands and the code behind it, up to the end of its line. -/
def extractRemoteCode (stderr : Bytes) : Option (Nat × Int) := do
  let pos ← Occurs.last RC_MARKER stderr
  let after := stderr.drop (pos + RC_MARKER.length)
  let code ← parseI32 (after.takeWhile (· ≠ 10))
  some (pos, code)

def transportFailure (host : String) (stderr : Bytes) : ExecutorError :=
  if holds stderr (asBytes "Bad SSH2 KexAlgorithms '" ++ asBytes SSH_KEX_ALGORITHMS ++ asBytes "'") then
    .kexUnsupportedLocally host SSH_KEX_ALGORITHMS (lossyTrim stderr)
  else if holds stderr (asBytes SSH_KEX_NO_MATCH) then .kexRefusedByHost host SSH_KEX_ALGORITHMS (lossyTrim stderr)
  else .connection host (lossyTrim stderr)

/-- The remote command's own output: its code, and its standard error before the marker line. -/
def settleRemoteCode (host : String) (output : CommandOutput) : Except ExecutorError CommandOutput :=
  match extractRemoteCode output.stderr with
  | none => .error (transportFailure host output.stderr)
  | some (pos, code) =>
    let cut := if 0 < pos ∧ output.stderr[pos - 1]? = some 10 then pos - 1 else pos
    .ok { output with code := some code, stderr := output.stderr.take cut }

/-- Everything up to and including the first sentinel removed, and whether there was one. -/
def takeSudoSentinel (stderr : Bytes) : Bytes × Bool :=
  match Occurs.first SUDO_OK_SENTINEL stderr with
  | some pos => (stderr.drop (pos + SUDO_OK_SENTINEL.length), true)
  | none => (stderr, false)

def sudoNeedsPassword (stderr : Bytes) : Bool :=
  holds stderr (asBytes "a password is required") || holds stderr (asBytes "interactive authentication is required") ||
    holds stderr (asBytes "terminal is required") || holds stderr (asBytes "no askpass") ||
    holds stderr (asBytes "no tty present")

/-- How `sudo` authenticates. -/
inductive SudoAuth
  | nonInteractive
  | password (secret : String)
  deriving DecidableEq

def elevationRefusal (stderr : Bytes) (auth : Option SudoAuth) (host : String) : ExecutorError :=
  if auth = some .nonInteractive ∧ sudoNeedsPassword stderr then .elevation host
  else .sudoRefused host (lossyTrim stderr)

def classifyElevation (output : CommandOutput) (auth : Option SudoAuth) (host : String) :
    Except ExecutorError CommandOutput :=
  match takeSudoSentinel output.stderr with
  | (stderr, true) => .ok { output with stderr }
  | (stderr, false) => .error (elevationRefusal stderr auth host)

end DeployCore
