import DeployCore.Lib.LineStream
import DeployCore.SshLine

/-! # Standard input behind `sudo -S` (`src/executor/handoff.rs`, `src/executor.rs`, `src/executor/channel.rs`)

One stream carries the password line, the handoff line and the caller's bytes. `sudo` takes so many of its lines, the
script it starts takes the rest up to the handoff line, and what is left is the command's. -/

namespace DeployCore.HandedInput

open LineStream

def LINE_END : UInt8 := 10

/-! ### The discard -/

/-- A shell's `IFS= read -r line`: it takes one line, and its variable holds that line's bytes; what it makes of a NUL
byte is its own. -/
structure LineShell where
  held : Bytes → Bytes
  held_text : ∀ line, 0 ∉ line → held line = line

/-- A shell whose variables drop NUL bytes. -/
def LineShell.droppingNul : LineShell where
  held line := line.filter (· ≠ 0)
  held_text _ h := List.filter_eq_self.mpr fun _ hb => decide_eq_true fun hzero => h (hzero ▸ hb)

/-- What `Handoff.discard` leaves of standard input; `none` is its `exit 1`. -/
def discarded (shell : LineShell) (handoff : Handoff) (stdin : Bytes) : Option Bytes :=
  skipThrough LINE_END (fun line => shell.held line == handoff.line) stdin

/-! ### The scripts -/

/-- What a descriptor of a script stands for. -/
inductive Handle
  | stdin
  | stdout
  | stderr
  | devNull
  deriving DecidableEq

inductive Redirect
  | copy (fd source : Nat)
  | null (fd : Nat)
  | close (fd : Nat)

def Redirect.apply (fds : Nat → Option Handle) : Redirect → Nat → Option Handle
  | .copy fd source => Function.update fds fd (fds source)
  | .null fd => Function.update fds fd (some .devNull)
  | .close fd => Function.update fds fd none

def redirected (fds : Nat → Option Handle) (redirects : List Redirect) : Nat → Option Handle :=
  redirects.foldl Redirect.apply fds

def scriptHandles : Nat → Option Handle
  | 0 => some .stdin
  | 1 => some .stdout
  | 2 => some .stderr
  | _ => none

/-- `exec 3<&0 0</dev/null 4>&2 2>/dev/null`. -/
def supervisorHandles : Nat → Option Handle :=
  redirected scriptHandles [.copy 3 0, .null 0, .copy 4 2, .null 2]

/-- `0<&3 3<&-`, and then `2>&4 4>&-`. -/
def boundedHandles : Nat → Option Handle :=
  redirected supervisorHandles [.copy 0 3, .close 3, .copy 2 4, .close 4]

/-- What is read from a descriptor, where the script has left so much of its standard input. -/
def Handle.contents (stdin : Bytes) : Option Handle → Bytes
  | some .stdin => stdin
  | _ => []

/-- A script that `sudo` starts. -/
inductive ElevatedScript
  | sentinel (handoff : Option Handoff)
  | supervisor (marker : Bytes) (timeout : Nat) (handoff : Option Handoff)
  | start (nonce : Vector UInt8 16)

/-- A command that was started: its words, whether `env -i` cleared its environment, and its standard input. -/
structure Begun where
  argv : List Bytes
  cleared : Bool
  stdin : Bytes
  deriving DecidableEq

namespace ElevatedScript

def text : ElevatedScript → Bytes
  | sentinel handoff => sudoSentinelScript handoff
  | supervisor marker timeout handoff => supervisorScript marker timeout handoff
  | start nonce => startScript nonce

/-- What the script leaves to the command of the standard input that `sudo` left to it. -/
def passes (shell : LineShell) (stdin : Bytes) : ElevatedScript → Option Bytes
  | sentinel handoff => handoff.elim (some stdin) (discarded shell · stdin)
  | supervisor _ _ handoff =>
    (handoff.elim (some stdin) (discarded shell · stdin)).map fun rest => Handle.contents rest (boundedHandles 0)
  | start nonce => discarded shell (.new nonce) stdin

/-- Whether the command starts through `env -i`, or is found as `sudo` set the script up. -/
def clears : ElevatedScript → Bool
  | sentinel _ => false
  | supervisor _ _ _ | start _ => true

def run (shell : LineShell) (argv : List Bytes) (stdin : Bytes) (script : ElevatedScript) : Option Begun :=
  (script.passes shell stdin).map fun rest => ⟨argv, script.clears, rest⟩

end ElevatedScript

/-- The file that a started `PUT_FILE_SCRIPT` stages and lands: what its `cat` reads, the one command of the script that
reads standard input. -/
def Begun.lands (begun : Begun) : Option Bytes :=
  if [SH, dashC, PUT_FILE_SCRIPT] <+: begun.argv then some begun.stdin else none

/-! ### What is fed -/

/-- What is written on standard input: at once, and, where it stays open, once the start is announced. -/
structure Feed where
  ahead : Bytes
  announced : Option Bytes

/-- The feed of `spawn_resolved` and `run_resolved`. -/
def feedOf (preamble payload : Option Bytes) : Option Bytes :=
  match preamble, payload with
  | some line, some bytes => some (line ++ bytes)
  | some line, none => some line
  | none, some bytes => some bytes
  | none, none => none

/-- What a call writes, of the bytes its caller gives it. Without a feed standard input is empty. -/
def fed (draws : Draws) (call : ExecutorCall) (preamble : Option Bytes) (payload : Bytes) : Feed :=
  match call with
  | .run _ _ _ | .runIn _ _ _ _ | .hardLinkOver _ _ | .makeDir _ _ => ⟨(feedOf preamble none).getD [], none⟩
  | .putFile _ _ => ⟨(feedOf preamble (some payload)).getD [], none⟩
  | .runWithInput _ _ _ _ => ⟨preamble.elim payload (· ++ payload), none⟩
  | .openChannel _ _ _ => ⟨preamble.getD [], some ((Handoff.new draws.handoff).line ++ [LINE_END] ++ payload)⟩

/-- What `sudo` leaves of standard input once it has taken so many lines and grants the start. It grants nothing while it
waits for a line that is written only behind the announcement. -/
def sudoLeaves (taken : Nat) (feed : Feed) : Option Bytes :=
  match feed.announced with
  | none => some (skip LINE_END taken feed.ahead)
  | some later =>
    if taken ≤ feed.ahead.count LINE_END then some (skip LINE_END taken feed.ahead ++ later) else none

/-! ### What is started -/

/-- The script that `sudo` is handed for a call. -/
def elevatedScript (auth : SudoAuth) (draws : Draws) (call : ExecutorCall) : ElevatedScript :=
  match call with
  | .runWithInput identity _ _ timeout =>
    .supervisor (timeoutMarker draws.timeout) timeout (passwordHandoff auth identity draws)
  | .openChannel _ _ _ => .start draws.handoff
  | .run _ _ _ | .runIn _ _ _ _ | .putFile _ _ | .hardLinkOver _ _ | .makeDir _ _ =>
    .sentinel (passwordHandoff auth call.identity draws)

/-- The words behind the options of `sudo`. -/
def afterOptions : List Bytes → List Bytes
  | word :: next :: rest =>
    if word = asBytes "-n" ∨ word = asBytes "-S" then afterOptions (next :: rest)
    else if word = asBytes "-p" ∨ word = asBytes "-u" then afterOptions rest
    else word :: next :: rest
  | words => words

/-- What comes to be started where these words are, and `sudo` takes so many lines of standard input and then grants
them: a shell runs the script it is given by `-c`. -/
def sudoStarts (shell : LineShell) (script : ElevatedScript) (taken : Nat) (feed : Feed) (argv : List Bytes) :
    Option Begun :=
  match argv.head?, afterOptions argv.tail with
  | some program, interpreter :: option :: text :: command :: args =>
    if program = SUDO ∧ (interpreter = SH ∨ interpreter = SUPERVISOR_SHELL) ∧ option = dashC ∧ text = script.text then
      (sudoLeaves taken feed).bind fun stdin => script.run shell (command :: args) stdin
    else none
  | _, _ => none

/-- A transport that elevates. -/
inductive Elevating
  | onHost (host : String)
  | overSsh (host : String)

/-- The first command that the login shell of an SSH host runs. -/
def loginRuns (remote : Bytes) : List Bytes :=
  match PosixShell.runs (fun _ => 0) (wrapWithRcMarker remote) with
  | some (first :: _) => first.argv
  | _ => []

namespace Elevating

/-- The words that a call has run on its host, and what goes ahead on standard input. -/
def spawns (t : Elevating) (auth : SudoAuth) (draws : Draws) (call : ExecutorCall) :
    Except ExecutorRefusal (List Bytes × Option Bytes) :=
  match t with
  | onHost host => ((LocalExecutor.mk host auth).invocation draws call).map fun r => (r.argv, r.preamble)
  | overSsh host => ((SshExecutor.mk host auth).invocation draws call).map fun r => (loginRuns r.remote, r.preamble)

/-- What a call comes to start, where `sudo` takes so many lines of standard input. -/
def starts (t : Elevating) (shell : LineShell) (auth : SudoAuth) (draws : Draws) (call : ExecutorCall) (payload : Bytes)
    (taken : Nat) : Except ExecutorRefusal (Option Begun) :=
  (t.spawns auth draws call).map fun spawned =>
    sudoStarts shell (elevatedScript auth draws call) taken (fed draws call spawned.2 payload) spawned.1

end Elevating

/-! ### What is meant -/

/-- The command that a call means to start. -/
def commandOf : ExecutorCall → List Bytes
  | .run _ command args | .runWithInput _ command args _ | .openChannel _ command args => command :: args
  | .runIn _ dir command args => SH :: wrapInDir dir command args
  | .putFile dest fileMeta => SH :: landingArgv dest fileMeta
  | .hardLinkOver source dest => SH :: linkAsideArgv source dest
  | .makeDir dest fileMeta => SH :: makeDirArgv dest fileMeta

/-- The bytes that a call means its command to read. -/
def inputOf (payload : Bytes) : ExecutorCall → Bytes
  | .putFile _ _ | .runWithInput _ _ _ _ | .openChannel _ _ _ => payload
  | .run _ _ _ | .runIn _ _ _ _ | .hardLinkOver _ _ | .makeDir _ _ => []

/-- Whether a call starts its command through `env -i`. -/
def clearsOf : ExecutorCall → Bool
  | .runWithInput _ _ _ _ | .openChannel _ _ _ => true
  | .run _ _ _ | .runIn _ _ _ _ | .putFile _ _ | .hardLinkOver _ _ | .makeDir _ _ => false

/-- The nonce occurs in no line of a text as the shell holds it; without NUL bytes, that is nowhere in the text. -/
def Absent (shell : LineShell) (nonce : Vector UInt8 16) (text : Bytes) : Prop :=
  ∀ line ∈ text.splitOn LINE_END, ¬ hexOf nonce.toList <:+: shell.held line

/-- The lines of a password, the one that its newline ends with them. -/
def passwordLines (password : String) : Nat := (asBytes password).count LINE_END + 1

/-- What becomes of the bytes that a call under a password hands its command. -/
structure Delivers (t : Elevating) (shell : LineShell) (draws : Draws) (call : ExecutorCall) (payload : Bytes)
    (password : String) : Prop where
  delivered : ∀ taken ≤ passwordLines password, ∀ spawned, t.spawns (.password password) draws call = .ok spawned →
    t.starts shell (.password password) draws call payload taken =
      .ok (some ⟨commandOf call, clearsOf call, inputOf payload call⟩)
  withheld : ∀ taken > passwordLines password, ∀ spawned, t.spawns (.password password) draws call = .ok spawned →
    t.starts shell (.password password) draws call payload taken = .ok none
  lands : ∀ taken begun, t.starts shell (.password password) draws call payload taken = .ok (some begun) →
    begun.lands = if [SH, dashC, PUT_FILE_SCRIPT] <+: commandOf call then some (inputOf payload call) else none

/-! ### The handoff line -/

section
variable {shell : LineShell} {nonce : Vector UInt8 16} {text payload : Bytes} {n : Nat}

theorem mem_handoff {b : UInt8} (h : b ∈ (Handoff.new nonce).line) : 48 ≤ b.toNat := by
  have hends : ∀ b ∈ asBytes "__BOOTLER_STDIN_" ++ asBytes "__", 48 ≤ b.toNat := by decide +kernel
  simp only [Handoff.new, List.mem_append] at h
  rcases h with (h | h) | h
  · exact hends b (List.mem_append_left _ h)
  · have hdigit := mem_hexOf h
    omega
  · exact hends b (List.mem_append_right _ h)

theorem not_mem_handoff {b : UInt8} (hb : b.toNat < 48) : b ∉ (Handoff.new nonce).line := fun h =>
  absurd (mem_handoff h) (Nat.not_le.mpr hb)

theorem held_handoff : shell.held (Handoff.new nonce).line = (Handoff.new nonce).line :=
  shell.held_text _ (not_mem_handoff (by decide))

/-- A line that holds no nonce is not the handoff line. -/
theorem Absent.line (h : Absent shell nonce text) :
    ∀ line ∈ text.splitOn LINE_END, (shell.held line == (Handoff.new nonce).line) = false := by
  intro line hline
  refine beq_false_of_ne fun heq => h line hline ?_
  rw [heq]
  exact ⟨_, _, rfl⟩

theorem absent_iff (h : 0 ∉ text) : Absent shell nonce text ↔ ¬ hexOf nonce.toList <:+: text := by
  have hnonce : LINE_END ∉ hexOf nonce.toList := fun hmem => by
    have hdigit := mem_hexOf hmem
    have hend : LINE_END.toNat = 10 := rfl
    omega
  have hheld : ∀ line ∈ text.splitOn LINE_END, shell.held line = line := fun line hline =>
    shell.held_text line fun hzero => h ((infix_of_mem_splitOn hline).subset hzero)
  rw [infix_iff_line hnonce, not_exists]
  constructor
  · rintro habsent line ⟨hline, hinfix⟩
    exact habsent line hline (by rwa [hheld line hline])
  · intro habsent line hline hinfix
    exact habsent line ⟨hline, by rwa [hheld line hline] at hinfix⟩

/-- Past a text that is taken in part, the discard stops behind the handoff line. -/
theorem discarded_skip (htext : Absent shell nonce text) (hn : n ≤ text.count LINE_END + 1) :
    discarded shell (.new nonce)
      (skip LINE_END n (text ++ LINE_END :: ((Handoff.new nonce).line ++ LINE_END :: payload))) = some payload :=
  skipThrough_skip (not_mem_handoff (by decide)) (beq_iff_eq.mpr held_handoff) htext.line hn

/-- Once the handoff line is taken, the discard ends with the stream. -/
theorem discarded_past (hpayload : Absent shell nonce payload) (hn : text.count LINE_END + 1 < n) :
    discarded shell (.new nonce)
      (skip LINE_END n (text ++ LINE_END :: ((Handoff.new nonce).line ++ LINE_END :: payload))) = none :=
  skipThrough_skip_past (not_mem_handoff (by decide)) hpayload.line hn

end

/-! ### What is spawned -/

section
variable {t : Elevating} {shell : LineShell} {password : String} {draws : Draws} {call : ExecutorCall} {payload : Bytes}
  {taken : Nat} {spawned : List Bytes × Option Bytes}

/-- The handoff line that goes behind the password at once; a channel's is written later. -/
def aheadHandoff (draws : Draws) : ExecutorCall → Option Handoff
  | .openChannel _ _ _ => none
  | .run _ _ _ | .runIn _ _ _ _ | .putFile _ _ | .hardLinkOver _ _ | .makeDir _ _ | .runWithInput _ _ _ _ =>
    some (.new draws.handoff)

/-- The words of an elevated call, behind those that start `sudo`. -/
def shellWords (auth : SudoAuth) (draws : Draws) (call : ExecutorCall) (interpreter : Bytes) : List Bytes :=
  [interpreter, dashC, (elevatedScript auth draws call).text] ++ commandOf call

theorem passwordHandoff_elevated {identity : Identity} (h : identity ≠ .operator) :
    passwordHandoff (.password password) identity draws = some (.new draws.handoff) := by
  rcases identity with _ | _ | account
  · exact absurd rfl h
  · rfl
  · rfl

theorem resolveThrough_elevated {e : LocalExecutor} {identity : Identity} {interpreter script command : Bytes}
    {handoff : Option Handoff} {args : List Bytes} {resolved : Resolved} (h : identity ≠ .operator)
    (hok : e.resolveThrough identity interpreter script handoff command args = .ok resolved) :
    ∃ elevation : Elevation, resolved =
      ⟨[SUDO] ++ e.auth.flags ++ elevation.words ++ [interpreter, dashC, script, command] ++ args,
        e.auth.preamble handoff, true⟩ := by
  have hsome : ∃ elevation, Elevation.of identity = some elevation := by
    rcases identity with _ | _ | account
    · exact absurd rfl h
    · exact ⟨_, rfl⟩
    · exact ⟨_, rfl⟩
  obtain ⟨elevation, helevation⟩ := hsome
  rw [LocalExecutor.resolveThrough, helevation] at hok
  rcases hwords : checkSudoWords command args with refused | _
  · rw [hwords] at hok
    cases hok
  · rw [hwords] at hok
    exact ⟨elevation, (Except.ok.inj hok).symm⟩

/-- What the local transport spawns for an elevated call. -/
theorem invocation_elevated {auth : SudoAuth} {host : String} {resolved : Resolved} (hcall : call.identity ≠ .operator)
    (hok : (LocalExecutor.mk host auth).invocation draws call = .ok resolved) :
    ∃ (elevation : Elevation) (interpreter : Bytes), interpreter ∈ [SH, SUPERVISOR_SHELL] ∧
      resolved.argv = SUDO :: (auth.flags ++ elevation.words ++ shellWords auth draws call interpreter) ∧
      resolved.preamble = auth.preamble (aheadHandoff draws call) := by
  have hthrough {interpreter script command : Bytes} {handoff : Option Handoff} {args : List Bytes}
      (hmem : interpreter ∈ [SH, SUPERVISOR_SHELL])
      (hscript : script = (elevatedScript auth draws call).text)
      (hcommand : command :: args = commandOf call)
      (hhandoff : auth.preamble handoff = auth.preamble (aheadHandoff draws call))
      (hok : (LocalExecutor.mk host auth).resolveThrough call.identity interpreter script handoff command args =
        .ok resolved) :
      ∃ (elevation : Elevation) (interpreter : Bytes), interpreter ∈ [SH, SUPERVISOR_SHELL] ∧
        resolved.argv = SUDO :: (auth.flags ++ elevation.words ++ shellWords auth draws call interpreter) ∧
        resolved.preamble = auth.preamble (aheadHandoff draws call) := by
    obtain ⟨elevation, rfl⟩ := resolveThrough_elevated hcall hok
    refine ⟨elevation, interpreter, hmem, ?_, hhandoff⟩
    rw [shellWords, ← hcommand, ← hscript]
    simp
  have hhandoff : auth.preamble (passwordHandoff auth call.identity draws) =
      auth.preamble (some (.new draws.handoff)) := by
    rcases auth with _ | password
    · rfl
    · rw [passwordHandoff_elevated hcall]
  cases call with
  | openChannel identity command args =>
    rw [LocalExecutor.invocation] at hok
    rcases hcheck : checkCommand command with refused | _
    · rw [hcheck] at hok
      cases hok
    · rw [hcheck] at hok
      exact hthrough (by simp [START_SHELL]) rfl rfl rfl hok
  | runWithInput identity command args timeout =>
    rw [LocalExecutor.invocation] at hok
    rcases hcheck : checkCommand command with refused | _
    · rw [hcheck] at hok
      cases hok
    · rw [hcheck] at hok
      exact hthrough (by simp) rfl rfl hhandoff hok
  | _ => exact hthrough (by simp) rfl rfl hhandoff hok

/-- The login shell of an SSH host runs what the local transport spawns. -/
theorem loginRuns_remote {remoteHost : String} {auth : SudoAuth} {sent : ResolvedRemote} (localHost : String)
    (hcall : call.identity ≠ .operator) (hok : (SshExecutor.mk remoteHost auth).invocation draws call = .ok sent) :
    ∃ resolved, (LocalExecutor.mk localHost auth).invocation draws call = .ok resolved ∧
      loginRuns sent.remote = resolved.argv ∧ sent.preamble = resolved.preamble := by
  have halike := invocation_sent auth localHost remoteHost draws call
  rcases hlocal : (LocalExecutor.mk localHost auth).invocation draws call with refused | resolved
  · rw [hlocal, hok] at halike
    cases halike
  · rw [hlocal, hok] at halike
    obtain @⟨_, _, hsent⟩ := halike
    have hargv : remoteArgv auth draws call resolved.argv = resolved.argv := by
      rw [remoteArgv]
      rcases hidentity : call.identity with _ | _ | account
      · exact absurd hidentity hcall
      · rfl
      · rfl
    have hbare : ∀ command ∈ call.bareCommand, command ≠ PosixShell.exitName ∧
        command ∉ PosixShell.specialBuiltins := by
      intro command hcommand
      rcases call with ⟨_ | _ | account, name, args⟩ | _ | _ | _ | _ | _ | _
      · exact absurd rfl hcall
      all_goals cases hcommand
    refine ⟨resolved, rfl, ?_, hsent.preamble⟩
    rw [loginRuns, hsent.runs (fun _ => 0) (hsent.starts hlocal hbare), hargv]

/-- What any transport spawns for an elevated call. -/
theorem spawns_elevated {auth : SudoAuth} (hcall : call.identity ≠ .operator)
    (hok : t.spawns auth draws call = .ok spawned) :
    ∃ (elevation : Elevation) (interpreter : Bytes), interpreter ∈ [SH, SUPERVISOR_SHELL] ∧
      spawned.1 = SUDO :: (auth.flags ++ elevation.words ++ shellWords auth draws call interpreter) ∧
      spawned.2 = auth.preamble (aheadHandoff draws call) := by
  rcases t with host | host
  · rcases hlocal : (LocalExecutor.mk host auth).invocation draws call with refused | resolved
    · rw [Elevating.spawns, hlocal] at hok
      cases hok
    · rw [Elevating.spawns, hlocal] at hok
      obtain rfl := Except.ok.inj hok
      exact invocation_elevated hcall hlocal
  · rcases hssh : (SshExecutor.mk host auth).invocation draws call with refused | sent
    · rw [Elevating.spawns, hssh] at hok
      cases hok
    · rw [Elevating.spawns, hssh] at hok
      obtain rfl := Except.ok.inj hok
      obtain ⟨resolved, hlocal, hruns, hpreamble⟩ := loginRuns_remote host hcall hssh
      obtain ⟨elevation, interpreter, hmem, hargv, hahead⟩ := invocation_elevated hcall hlocal
      exact ⟨elevation, interpreter, hmem, hruns.trans hargv, hpreamble.trans hahead⟩

/-- The options of `sudo` end at the shell. -/
theorem afterOptions_flags {auth : SudoAuth} {elevation : Elevation} {interpreter : Bytes} {words : List Bytes}
    (hmem : interpreter ∈ [SH, SUPERVISOR_SHELL]) :
    afterOptions (auth.flags ++ elevation.words ++ interpreter :: dashC :: words) = interpreter :: dashC :: words := by
  have hshell : ∀ name ∈ [SH, SUPERVISOR_SHELL],
      ¬ (name = asBytes "-n" ∨ name = asBytes "-S") ∧ ¬ (name = asBytes "-p" ∨ name = asBytes "-u") := by decide +kernel
  have hlong : ¬ (asBytes "-p" = asBytes "-n" ∨ asBytes "-p" = asBytes "-S") := by decide +kernel
  have hlongUser : ¬ (asBytes "-u" = asBytes "-n" ∨ asBytes "-u" = asBytes "-S") := by decide +kernel
  obtain ⟨hflag, hvalue⟩ := hshell interpreter hmem
  rcases auth <;> rcases elevation with _ | account
  · simp [SudoAuth.flags, Elevation.words, afterOptions, hflag, hvalue]
  · simp [SudoAuth.flags, Elevation.words, afterOptions, hflag, hvalue, hlongUser]
  · simp [SudoAuth.flags, Elevation.words, afterOptions, hflag, hvalue, hlong]
  · simp [SudoAuth.flags, Elevation.words, afterOptions, hflag, hvalue, hlong, hlongUser]

theorem commandOf_ne_nil (call : ExecutorCall) : commandOf call ≠ [] := by
  rcases call with _ | _ | _ | _ | _ | _ | _ <;> exact List.cons_ne_nil _ _

/-- The script that `sudo` starts is run with the command of the call. -/
theorem sudoStarts_elevated {feed : Feed} {elevation : Elevation} {interpreter : Bytes} {auth : SudoAuth}
    (hmem : interpreter ∈ [SH, SUPERVISOR_SHELL]) :
    sudoStarts shell (elevatedScript auth draws call) taken feed
      (SUDO :: (auth.flags ++ elevation.words ++ shellWords auth draws call interpreter)) =
      (sudoLeaves taken feed).bind fun stdin => (elevatedScript auth draws call).run shell (commandOf call) stdin := by
  obtain ⟨command, args, hcommand⟩ := List.exists_cons_of_ne_nil (commandOf_ne_nil call)
  rw [sudoStarts, List.head?_cons, List.tail_cons, shellWords, hcommand, List.cons_append, List.cons_append,
    afterOptions_flags hmem]
  exact if_pos ⟨rfl, by simpa using hmem, rfl, rfl⟩

/-- Under a password every script discards up to the handoff line, and hands on what is behind it. -/
theorem run_elevated {stdin : Bytes} (hcall : call.identity ≠ .operator) :
    (elevatedScript (.password password) draws call).run shell (commandOf call) stdin =
      (discarded shell (.new draws.handoff) stdin).map fun rest => ⟨commandOf call, clearsOf call, rest⟩ := by
  have hhandoff : passwordHandoff (.password password) call.identity draws = some (.new draws.handoff) :=
    passwordHandoff_elevated hcall
  have hhanded (rest : Bytes) : Handle.contents rest (boundedHandles 0) = rest := rfl
  cases call with
  | openChannel identity command args => rfl
  | runWithInput identity command args timeout =>
    have hsupervised : passwordHandoff (.password password) identity draws = some (.new draws.handoff) := hhandoff
    rw [elevatedScript, hsupervised]
    simp [ElevatedScript.run, ElevatedScript.passes, ElevatedScript.clears, clearsOf, hhanded]
  | _ =>
    rw [elevatedScript, hhandoff]
    rfl

/-- The stream of a call: the password, the handoff line, and what the call means its command to read. -/
def stream (password : String) (draws : Draws) (call : ExecutorCall) (payload : Bytes) : Bytes :=
  asBytes password ++ LINE_END :: ((Handoff.new draws.handoff).line ++ LINE_END :: inputOf payload call)

/-- What `sudo` leaves is the stream behind the lines it took; on a channel it cannot take the handoff line. -/
theorem sudoLeaves_fed {preamble : Option Bytes}
    (hpreamble : preamble = some (passwordPreamble password (aheadHandoff draws call))) :
    sudoLeaves taken (fed draws call preamble payload) =
        some (skip LINE_END taken (stream password draws call payload)) ∨
      passwordLines password < taken ∧ sudoLeaves taken (fed draws call preamble payload) = none := by
  subst hpreamble
  have hclosed {ahead : Bytes} (h : ahead = stream password draws call payload) :
      sudoLeaves taken ⟨ahead, none⟩ = some (skip LINE_END taken (stream password draws call payload)) := by
    rw [h]
    rfl
  cases call with
  | openChannel identity command args =>
    have hahead : (passwordPreamble password none).count LINE_END = passwordLines password := by
      simp [passwordPreamble, passwordLines, LINE_END]
    simp only [sudoLeaves, fed, aheadHandoff, Option.getD_some, hahead]
    by_cases htaken : taken ≤ passwordLines password
    · left
      rw [if_pos htaken, ← skip_append (by rwa [hahead])]
      simp [passwordPreamble, stream, inputOf, LINE_END]
    · right
      rw [if_neg htaken]
      exact ⟨Nat.lt_of_not_le htaken, rfl⟩
  | _ => exact .inl (hclosed (by simp [feedOf, passwordPreamble, aheadHandoff, stream, inputOf, LINE_END]))

/-- What an elevated call comes to start, from the stream. -/
theorem starts_elevated (hcall : call.identity ≠ .operator)
    (hok : t.spawns (.password password) draws call = .ok spawned) :
    t.starts shell (.password password) draws call payload taken =
        .ok ((discarded shell (.new draws.handoff) (skip LINE_END taken (stream password draws call payload))).map
          fun rest => ⟨commandOf call, clearsOf call, rest⟩) ∨
      passwordLines password < taken ∧ t.starts shell (.password password) draws call payload taken = .ok none := by
  obtain ⟨elevation, interpreter, hmem, hargv, hpreamble⟩ := spawns_elevated hcall hok
  rw [Elevating.starts, hok, Except.map, hargv, sudoStarts_elevated hmem]
  rcases @sudoLeaves_fed password draws call payload taken spawned.2 hpreamble with hleaves | ⟨htaken, hleaves⟩
  · left
    rw [hleaves, Option.bind_some, run_elevated hcall]
  · right
    rw [hleaves]
    exact ⟨htaken, rfl⟩

theorem starts_delivered (hcall : call.identity ≠ .operator) (hpassword : Absent shell draws.handoff (asBytes password))
    (htaken : taken ≤ passwordLines password) (hok : t.spawns (.password password) draws call = .ok spawned) :
    t.starts shell (.password password) draws call payload taken =
      .ok (some ⟨commandOf call, clearsOf call, inputOf payload call⟩) := by
  rcases @starts_elevated t shell password draws call payload taken spawned hcall hok with hstarts | ⟨hpast, -⟩
  · rw [hstarts, stream, discarded_skip hpassword htaken]
    rfl
  · omega

theorem absent_inputOf (h : Absent shell draws.handoff payload) : Absent shell draws.handoff (inputOf payload call) := by
  have hnone : Absent shell draws.handoff [] := by
    rw [absent_iff List.not_mem_nil, List.infix_nil, ← List.length_eq_zero_iff, length_hexOf, Vector.length_toList]
    decide
  rcases call with _ | _ | _ | _ | _ | _ | _
  · exact hnone
  · exact hnone
  · exact h
  · exact hnone
  · exact hnone
  · exact h
  · exact h

theorem starts_withheld (hcall : call.identity ≠ .operator) (hpayload : Absent shell draws.handoff payload)
    (htaken : passwordLines password < taken) (hok : t.spawns (.password password) draws call = .ok spawned) :
    t.starts shell (.password password) draws call payload taken = .ok none := by
  rcases @starts_elevated t shell password draws call payload taken spawned hcall hok with hstarts | ⟨-, hstarts⟩
  · rw [hstarts, stream, discarded_past (absent_inputOf hpayload) htaken]
    rfl
  · exact hstarts

theorem passwordHandoff_password (identity : Identity) (password password' : String) :
    passwordHandoff (.password password') identity draws = passwordHandoff (.password password) identity draws := by
  rcases identity with _ | _ | account <;> rfl

/-- No word that is spawned on this host depends on the password. -/
theorem invocation_argv (host : String) (password' : String) :
    ((LocalExecutor.mk host (.password password')).invocation draws call).map Resolved.argv =
      ((LocalExecutor.mk host (.password password)).invocation draws call).map Resolved.argv := by
  have hthrough (identity : Identity) (interpreter script : Bytes) (handoff : Option Handoff) (command : Bytes)
      (args : List Bytes) :
      ((LocalExecutor.mk host (.password password')).resolveThrough identity interpreter script handoff command
          args).map Resolved.argv =
        ((LocalExecutor.mk host (.password password)).resolveThrough identity interpreter script handoff command
          args).map Resolved.argv := by
    unfold LocalExecutor.resolveThrough
    rcases Elevation.of identity with _ | elevation
    · rfl
    · rcases checkSudoWords command args <;> rfl
  have hchecked (command : Bytes) {spawns spawns' : Except ExecutorRefusal Resolved}
      (h : spawns'.map Resolved.argv = spawns.map Resolved.argv) :
      (checkCommand command >>= fun _ => spawns').map Resolved.argv =
        (checkCommand command >>= fun _ => spawns).map Resolved.argv := by
    rcases checkCommand command with refused | _
    · rfl
    · exact h
  cases call with
  | runWithInput identity command args timeout =>
    simp only [LocalExecutor.invocation, boundedScript, passwordHandoff_password identity password password']
    exact hchecked command (hthrough _ _ _ _ _ _)
  | openChannel identity command args =>
    simp only [LocalExecutor.invocation]
    exact hchecked command (hthrough _ _ _ _ _ _)
  | _ =>
    simp only [LocalExecutor.invocation, LocalExecutor.resolve, passwordHandoff_password _ password password']
    exact hthrough _ _ _ _ _ _

/-- No byte of the line that an SSH host is sent depends on the password. -/
theorem invocation_remote (host : String) (password' : String) :
    ((SshExecutor.mk host (.password password')).invocation draws call).map ResolvedRemote.remote =
      ((SshExecutor.mk host (.password password)).invocation draws call).map ResolvedRemote.remote := by
  have hthrough (identity : Identity) (interpreter script : Bytes) (handoff : Option Handoff)
      (operatorScript : Option Bytes) (command : Bytes) (args : List Bytes) :
      ((SshExecutor.mk host (.password password')).resolveThrough identity interpreter script handoff operatorScript
          command args).map ResolvedRemote.remote =
        ((SshExecutor.mk host (.password password)).resolveThrough identity interpreter script handoff operatorScript
          command args).map ResolvedRemote.remote := by
    unfold SshExecutor.resolveThrough
    rcases Elevation.of identity with _ | elevation
    · rfl
    · rcases checkSudoWords command args <;> rfl
  have hchecked (command : Bytes) {spawns spawns' : Except ExecutorRefusal ResolvedRemote}
      (h : spawns'.map ResolvedRemote.remote = spawns.map ResolvedRemote.remote) :
      (checkCommand command >>= fun _ => spawns').map ResolvedRemote.remote =
        (checkCommand command >>= fun _ => spawns).map ResolvedRemote.remote := by
    rcases checkCommand command with refused | _
    · rfl
    · exact h
  cases call with
  | runWithInput identity command args timeout =>
    simp only [SshExecutor.invocation, boundedScript, passwordHandoff_password identity password password']
    exact hchecked command (hthrough _ _ _ _ _ _ _)
  | openChannel identity command args =>
    simp only [SshExecutor.invocation]
    exact hchecked command (hthrough _ _ _ _ _ _ _)
  | _ =>
    simp only [SshExecutor.invocation, SshExecutor.resolve, passwordHandoff_password _ password password']
    exact hthrough _ _ _ _ _ _ _

theorem spawns_words (t : Elevating) (draws : Draws) (call : ExecutorCall) (password password' : String) :
    (t.spawns (.password password') draws call).map Prod.fst =
      (t.spawns (.password password) draws call).map Prod.fst := by
  have hlocal (invoked : Except ExecutorRefusal Resolved) :
      (invoked.map fun r => (r.argv, r.preamble)).map Prod.fst = invoked.map Resolved.argv := by
    rcases invoked <;> rfl
  have hssh (invoked : Except ExecutorRefusal ResolvedRemote) :
      (invoked.map fun r => (loginRuns r.remote, r.preamble)).map Prod.fst =
        (invoked.map ResolvedRemote.remote).map loginRuns := by
    rcases invoked <;> rfl
  rcases t with host | host
  · simp only [Elevating.spawns, hlocal]
    exact invocation_argv host password'
  · simp only [Elevating.spawns, hssh]
    rw [invocation_remote host password']

end

/-- Under a password, whatever `sudo` takes of standard input: if no more than the lines of the password, what an
elevated call starts is its own command and reads the bytes the call hands it, from the first to the last; if the
handoff line too, the call starts nothing. Whatever the password, what is spawned, started, read and landed is the
same. -/
theorem handedInput_delivers (t : Elevating) (shell : LineShell) (draws : Draws) (call : ExecutorCall) (payload : Bytes)
    (password : String) (hcall : call.identity ≠ .operator) (hpassword : Absent shell draws.handoff (asBytes password))
    (hpayload : Absent shell draws.handoff payload) :
    Delivers t shell draws call payload password ∧
      ∀ password', (t.spawns (.password password') draws call).map Prod.fst =
          (t.spawns (.password password) draws call).map Prod.fst ∧
        (Absent shell draws.handoff (asBytes password') →
          ∀ taken ≤ passwordLines password, ∀ taken' ≤ passwordLines password',
            t.starts shell (.password password') draws call payload taken' =
              t.starts shell (.password password) draws call payload taken) := by
  have hbegun {taken : Nat} {begun : Begun} {spawned : List Bytes × Option Bytes}
      (hok : t.spawns (.password password) draws call = .ok spawned)
      (hstarts : t.starts shell (.password password) draws call payload taken = .ok (some begun)) :
      begun = ⟨commandOf call, clearsOf call, inputOf payload call⟩ := by
    rcases Nat.lt_or_ge (passwordLines password) taken with hpast | htaken
    · rw [starts_withheld hcall hpayload hpast hok] at hstarts
      cases hstarts
    · rw [starts_delivered hcall hpassword htaken hok] at hstarts
      exact (Option.some.inj (Except.ok.inj hstarts)).symm
  refine ⟨⟨fun taken htaken spawned hok => starts_delivered hcall hpassword htaken hok,
    fun taken htaken spawned hok => starts_withheld hcall hpayload htaken hok, ?_⟩, ?_⟩
  · intro taken begun hstarts
    rcases hspawned : t.spawns (.password password) draws call with refusal | spawned
    · rw [Elevating.starts, hspawned] at hstarts
      cases hstarts
    · rw [hbegun hspawned hstarts]
      rfl
  · intro password'
    refine ⟨spawns_words t draws call password password', ?_⟩
    intro hpassword' taken htaken taken' htaken'
    have hwords := spawns_words t draws call password password'
    rcases hspawned : t.spawns (.password password) draws call with refusal | spawned <;>
    rcases hspawned' : t.spawns (.password password') draws call with refusal' | spawned' <;>
    rw [hspawned, hspawned'] at hwords
    · rw [Elevating.starts, Elevating.starts, hspawned, hspawned', Except.error.inj hwords]
      rfl
    · cases hwords
    · cases hwords
    · rw [starts_delivered hcall hpassword htaken hspawned, starts_delivered hcall hpassword' htaken' hspawned']

/-- A password of two lines, of which `sudo` takes one, and input that begins with a NUL byte. -/
theorem handedInput_delivers_twoLines :
    Delivers (.onHost "seat") .droppingNul ⟨.replicate 16 0, .replicate 16 0⟩
        (.runWithInput .root (asBytes "/bin/cat") [] (10 ^ 9)) [0, 10, 10] "two\nlines" ∧
      (Elevating.onHost "seat").starts .droppingNul (.password "two\nlines") ⟨.replicate 16 0, .replicate 16 0⟩
        (.runWithInput .root (asBytes "/bin/cat") [] (10 ^ 9)) [0, 10, 10] 1 =
          .ok (some ⟨[asBytes "/bin/cat"], true, [0, 10, 10]⟩) := by
  have hdelivers := (handedInput_delivers (.onHost "seat") .droppingNul ⟨.replicate 16 0, .replicate 16 0⟩
    (.runWithInput .root (asBytes "/bin/cat") [] (10 ^ 9)) [0, 10, 10] "two\nlines" (by decide)
    ((absent_iff (by decide +kernel)).mpr (by decide +kernel)) (by unfold Absent; decide +kernel)).1
  have hok : ((Elevating.onHost "seat").spawns (.password "two\nlines") ⟨.replicate 16 0, .replicate 16 0⟩
      (.runWithInput .root (asBytes "/bin/cat") [] (10 ^ 9))).isOk = true := by decide +kernel
  rcases hspawned : (Elevating.onHost "seat").spawns (.password "two\nlines") ⟨.replicate 16 0, .replicate 16 0⟩
      (.runWithInput .root (asBytes "/bin/cat") [] (10 ^ 9)) with refusal | spawned
  · rw [hspawned] at hok
    cases hok
  · exact ⟨hdelivers, hdelivers.delivered 1 (by decide +kernel) spawned hspawned⟩

end DeployCore.HandedInput
