import DeployCore.Lib.Checks
import DeployCore.Scripts

/-! # Identities, and what an elevated invocation runs (`src/executor.rs`, `src/executor/`)

Words are the bytes a process is handed: a `&str`'s UTF-8, or a path's own. -/

namespace DeployCore

def SUDO : Bytes := asBytes "sudo"
def SH : Bytes := asBytes "sh"
def SUPERVISOR_SHELL : Bytes := asBytes "/bin/sh"
def START_SHELL : Bytes := SUPERVISOR_SHELL
def ENV : Bytes := asBytes "/usr/bin/env"
def SLEEP : Bytes := asBytes "/bin/sleep"
def MAX_SLEEP_SECS : Nat := 2147483647
def NO_WORKING_DIRECTORY_MARKER : Bytes := asBytes "__BOOTLER_NO_WORKING_DIRECTORY__"
def DESCENT_ARG0 : Bytes := asBytes "bootler-descent"

/-! ### Accounts -/

inductive ServiceAccount
  | security
  | insight
  | roxyd
  deriving DecidableEq

def ServiceAccount.asStr : ServiceAccount → Bytes
  | .security => asBytes "clumit-security"
  | .insight => asBytes "clumit-insight"
  | .roxyd => asBytes "clumit-roxyd"

inductive ContainerAccount
  | securityPki
  | securityPkiDb
  | securityWeb
  | securityWebDb
  | insightPki
  | insightPkiDb
  | insightWeb
  | insightWebDb
  | insightTransit
  | insightKeycloakTls
  deriving DecidableEq

def ContainerAccount.asStr : ContainerAccount → Bytes
  | .securityPki => asBytes "clumit-security-pki"
  | .securityPkiDb => asBytes "clumit-security-pkidb"
  | .securityWeb => asBytes "clumit-security-web"
  | .securityWebDb => asBytes "clumit-security-webdb"
  | .insightPki => asBytes "clumit-insight-pki"
  | .insightPkiDb => asBytes "clumit-insight-pkidb"
  | .insightWeb => asBytes "clumit-insight-web"
  | .insightWebDb => asBytes "clumit-insight-webdb"
  | .insightTransit => asBytes "clumit-insight-transit"
  | .insightKeycloakTls => asBytes "clumit-insight-keycloak-tls"

inductive Principal
  | root
  | service (account : ServiceAccount)
  | container (account : ContainerAccount)
  deriving DecidableEq

def Principal.asArg : Principal → Bytes
  | .root => asBytes "root"
  | .service account => account.asStr
  | .container account => account.asStr

structure FileMeta where
  owner : Principal
  group : Principal
  mode : Nat
  deriving DecidableEq

/-- `{:04o}`. -/
def FileMeta.modeArg (m : FileMeta) : Bytes :=
  let digits := (Nat.toDigits 8 m.mode).map fun c => UInt8.ofNat c.toNat
  List.replicate (4 - digits.length) 48 ++ digits

def FileMeta.isServiceWritable (m : FileMeta) : Bool :=
  match m.owner with
  | .service _ | .container _ => true
  | .root => false

inductive Identity
  | operator
  | root
  | service (account : ServiceAccount)
  deriving DecidableEq

/-- How an identity reaches its account where the transport is not already root. -/
inductive Elevation
  | elevate
  | descend (account : ServiceAccount)
  deriving DecidableEq

def Elevation.of : Identity → Option Elevation
  | .operator => none
  | .root => some .elevate
  | .service account => some (.descend account)

/-! ### What the scripts print -/

/-- Two lowercase hexadecimal digits for each byte. -/
def hexOf (nonce : Bytes) : Bytes := asBytes (toHex nonce)

theorem hexOf_cons (byte : UInt8) (nonce : Bytes) :
    hexOf (byte :: nonce) = UInt8.ofNat (Nat.digitChar (byte.toNat / 16)).toNat ::
      UInt8.ofNat (Nat.digitChar (byte.toNat % 16)).toNat :: hexOf nonce := by
  have hascii : ∀ n < 16, (Nat.digitChar n).toNat < 0x80 := by decide
  have hbyte := byte.toNat_lt
  simp only [hexOf, asBytes_eq_encode, toHex, String.toList_ofList, List.flatMap_cons]
  rw [List.cons_append, List.cons_append, List.nil_append, Utf8.encode_cons, Utf8.encode_cons,
    Utf8.encodeChar_ascii (hascii _ (by omega)), Utf8.encodeChar_ascii (hascii _ (by omega))]
  rfl

@[simp] theorem length_hexOf (nonce : Bytes) : (hexOf nonce).length = 2 * nonce.length := by
  induction nonce with
  | nil => rfl
  | cons byte nonce ih =>
    rw [hexOf_cons, List.length_cons, List.length_cons, ih, List.length_cons]
    omega

theorem mem_hexOf {nonce : Bytes} {digit : UInt8} (h : digit ∈ hexOf nonce) :
    48 ≤ digit.toNat ∧ digit.toNat ≤ 57 ∨ 97 ≤ digit.toNat ∧ digit.toNat ≤ 102 := by
  have hdigit : ∀ n < 16, 48 ≤ (UInt8.ofNat (Nat.digitChar n).toNat).toNat ∧ (UInt8.ofNat (Nat.digitChar n).toNat).toNat ≤ 57 ∨
      97 ≤ (UInt8.ofNat (Nat.digitChar n).toNat).toNat ∧ (UInt8.ofNat (Nat.digitChar n).toNat).toNat ≤ 102 := by decide
  induction nonce with
  | nil => cases h
  | cons byte nonce ih =>
    have hbyte := byte.toNat_lt
    rw [hexOf_cons, List.mem_cons, List.mem_cons] at h
    rcases h with rfl | rfl | h
    · exact hdigit _ (by omega)
    · exact hdigit _ (by omega)
    · exact ih h

/-- The random bytes one invocation draws. -/
structure Draws where
  handoff : Vector UInt8 16
  timeout : Vector UInt8 16

/-- The line a script run under `sudo -S` discards standard input up to. -/
structure Handoff where
  line : Bytes
  deriving DecidableEq

def Handoff.new (nonce : Vector UInt8 16) : Handoff :=
  ⟨asBytes "__BOOTLER_STDIN_" ++ hexOf nonce.toList ++ asBytes "__"⟩

def Handoff.discard (handoff : Handoff) : Bytes :=
  asBytes "while :; do IFS= read -r line || exit 1; [ \"$line\" = '" ++ handoff.line ++ asBytes "' ] && break; done"

/-- A shell command that prints a word from two halves. -/
def printSplit (word : Bytes) (fd : Nat) : Bytes :=
  let (head, tail) := word.splitAt (word.length / 2)
  asBytes "printf '%s%s' '" ++ head ++ asBytes "' '" ++ tail ++ asBytes "' >&" ++ Decimal.write fd

def sudoSentinelScript (handoff : Option Handoff) : Bytes :=
  let discard := handoff.elim [] fun handoff => handoff.discard ++ asBytes "; "
  printSplit SUDO_OK_SENTINEL 2 ++ asBytes "; " ++ discard ++ asBytes "exec \"$0\" \"$@\""

def descentScript : Bytes :=
  asBytes "cd -- \"$1\" 2>/dev/null || \x7b " ++ printSplit NO_WORKING_DIRECTORY_MARKER 2 ++
    asBytes "; exit 1; \x7d; shift; " ++ printSplit SUDO_OK_SENTINEL 2 ++ asBytes "; exec " ++ ENV ++ asBytes " -i \"$@\""

/-- The start script of a channel. -/
def startScript (nonce : Vector UInt8 16) : Bytes :=
  printSplit SUDO_OK_SENTINEL 2 ++ asBytes "; " ++ (Handoff.new nonce).discard ++ asBytes "; exec " ++ ENV ++
    asBytes " -i \"$0\" \"$@\""

def timeoutMarker (nonce : Vector UInt8 16) : Bytes :=
  asBytes "__BOOTLER_TIMEOUT_" ++ hexOf nonce.toList ++ asBytes "__"

/-- A timeout of so many nanoseconds, rounded up to a whole second. -/
def sleepSeconds (timeout : Nat) : Nat :=
  min (timeout / 10 ^ 9 + if 0 < timeout % 10 ^ 9 then 1 else 0) MAX_SLEEP_SECS

def supervisorScript (marker : Bytes) (timeout : Nat) (handoff : Option Handoff) : Bytes :=
  let discard := handoff.elim [] fun handoff => handoff.discard ++ asBytes "\n"
  asBytes "trap 'kill -KILL 0' TERM HUP INT\n" ++ printSplit SUDO_OK_SENTINEL 2 ++ asBytes "\n" ++ discard ++
    asBytes "exec 3<&0 0</dev/null 4>&2 2>/dev/null\n" ++ SLEEP ++ asBytes " " ++ Decimal.write (sleepSeconds timeout) ++
    asBytes " </dev/null >/dev/null 3<&- 4>&- &
nap=$!
\x7b
  " ++ ENV ++ asBytes " -i \"$0\" \"$@\" 2>&4 4>&-
  status=$?
  kill -KILL \"$nap\"
  exit \"$status\"
\x7d 0<&3 3<&- &
run=$!
exec 3<&-
if wait \"$nap\"; then
  " ++ printSplit marker 4 ++ asBytes "
  kill -KILL 0
fi
wait \"$run\""

/-! ### What is refused before anything is spawned -/

/-- The refusals of a call as made: `ExecutorError::Spawn` of an invalid input, a command that is not absolute and
plain, an identity or a call the transport does not have. -/
inductive ExecutorRefusal
  | invalidInput (command reason : Bytes)
  | invalidCommand (command : Bytes)
  | noOperatorIdentity (host : String)
  | unsupported
  deriving DecidableEq

/-- Which of the caller's words holds the sentinel. -/
def reservedWord (command : Bytes) (args : List Bytes) : Option Bytes :=
  if holds command SUDO_OK_SENTINEL then some (asBytes "the command")
  else (args.findIdx? (holds · SUDO_OK_SENTINEL)).map fun index => asBytes "argument " ++ Decimal.write index

def checkSudoWords (command : Bytes) (args : List Bytes) : Except ExecutorRefusal Unit :=
  match reservedWord command args with
  | none => .ok ()
  | some word =>
    .error (.invalidInput command
      (word ++ asBytes " holds `" ++ SUDO_OK_SENTINEL ++ asBytes "`, which an elevated run reserves"))

/-- An absolute path free of `=`. -/
def isAbsoluteAndPlain (command : Bytes) : Bool := command.head? == some 47 && !command.contains 61

/-- `check_bounded_command` and `channel::check_command`. -/
def checkCommand (command : Bytes) : Except ExecutorRefusal Unit :=
  if isAbsoluteAndPlain command then .ok () else .error (.invalidCommand command)

/-! ### What goes on standard input ahead of the caller's bytes -/

def passwordHandoff (auth : SudoAuth) (identity : Identity) (draws : Draws) : Option Handoff :=
  match auth, Elevation.of identity with
  | .password _, some _ => some (.new draws.handoff)
  | _, _ => none

def passwordPreamble (password : String) (handoff : Option Handoff) : Bytes :=
  asBytes password ++ [10] ++ handoff.elim [] fun handoff => handoff.line ++ [10]

end DeployCore
