import DeployCore.Lib.PosixShell
import DeployCore.Transports

/-! # The line an SSH login shell reads (`src/executor.rs`)

`SshExecutor` sends one line for what `LocalExecutor` spawns as a vector. A POSIX shell reads it back as two simple
commands: the words of that vector, each of the caller's between single quotes, and the printer of the status. -/

namespace DeployCore

open PosixShell (Word SimpleCommand Invocation Mode Token)

/-- The script that the remote side runs for the operator, and its shell; `LocalExecutor` spawns the bare command. -/
def operatorScript (auth : SudoAuth) (draws : Draws) : ExecutorCall → Option (Bytes × Bytes)
  | .runWithInput identity _ _ timeout => some (SUPERVISOR_SHELL, boundedScript auth identity timeout draws)
  | .openChannel _ _ _ => some (START_SHELL, startScript draws.handoff)
  | _ => none

def ExecutorCall.identity : ExecutorCall → Identity
  | .run identity _ _ | .runIn identity _ _ _ | .runWithInput identity _ _ _ | .openChannel identity _ _ => identity
  | .putFile _ _ | .hardLinkOver _ _ | .makeDir _ _ => .root

/-- The argument vector that the remote side is to run, where `argv` is what is spawned locally. -/
def remoteArgv (auth : SudoAuth) (draws : Draws) (call : ExecutorCall) (argv : List Bytes) : List Bytes :=
  match call.identity, operatorScript auth draws call with
  | .operator, some (shell, script) => [shell, dashC, script] ++ argv
  | _, _ => argv

def STATUS_FORMAT : Bytes := asBytes "\\n" ++ RC_MARKER ++ asBytes "%d\\n"

/-- The command that prints the status. -/
def statusPrinter : SimpleCommand where
  words := [Word.bare (asBytes "printf"), Word.single STATUS_FORMAT, [.parameter 63 .double]]
  redirects := [(asBytes ">&", Word.bare (asBytes "2"))]

/-- What the printer runs behind a status. -/
def statusPrint (status : Nat) : Invocation where
  argv := [asBytes "printf", STATUS_FORMAT, Decimal.write status]
  redirects := [(asBytes ">&", asBytes "2")]

/-- The words ahead of the shell that `sudo` starts, its own fixed text. -/
def sudoWords (auth : SudoAuth) (elevation : Elevation) : List Word :=
  [Word.bare SUDO] ++
    (match auth with
      | .nonInteractive => [Word.bare (asBytes "-n")]
      | .password _ => [Word.bare (asBytes "-S"), Word.bare (asBytes "-p"), []]) ++
    match elevation with
      | .elevate => []
      | .descend account => [Word.bare (asBytes "-u"), Word.single account.asStr]

/-- The words that come first on the line for an identity. -/
def leadingWords (auth : SudoAuth) (identity : Identity) : List Word :=
  (Elevation.of identity).elim [] (sudoWords auth)

/-! ### Quoting -/

section
variable {w : Word} {text : Bytes} {texts : List Bytes}

theorem scan_quoteBody : PosixShell.scan (.single w) (text.flatMap fun b => if b = 39 then [39, 92, 39, 39] else [b]) =
    some ([], .single (w ++ Word.quoted text)) := by
  induction text generalizing w with
  | nil => simp [PosixShell.scan, Word.quoted]
  | cons b text ih =>
    have hbyte : PosixShell.scan (.single w) (if b = 39 then [39, 92, 39, 39] else [b]) =
        some ([], .single (w ++ [.byte b (if b = 39 then .escaped else .single)])) := by
      by_cases hb : b = 39
      · subst hb
        rfl
      · simp [PosixShell.scan, PosixShell.step, hb]
    have hquoted : Word.quoted (b :: text) = [.byte b (if b = 39 then .escaped else .single)] ++ Word.quoted text := rfl
    rw [List.flatMap_cons, hquoted, ← List.append_assoc]
    exact PosixShell.scan_append hbyte ih

/-- Quoted, a text is read as one word, from its first byte to its last. -/
theorem scan_shellQuote : PosixShell.scan .between (shellQuote text) = some ([], .bare (Word.quoted text)) := by
  have hopen : PosixShell.scan .between [39] = some ([], .single []) := rfl
  have hclose (w : Word) : PosixShell.scan (.single w) [39] = some ([], .bare w) := rfl
  exact PosixShell.scan_append (PosixShell.scan_append hopen scan_quoteBody) (hclose _)

/-- Joined, texts are read as their words, up to the operator behind them. -/
theorem scan_shellJoin (h : texts ≠ []) :
    PosixShell.scan .between (shellJoin texts ++ [59]) =
      some (texts.map fun text => .word (Word.quoted text), .operator [59]) := by
  induction texts with
  | nil => exact absurd rfl h
  | cons text texts ih =>
    rcases texts with _ | ⟨next, texts⟩
    · have hend : PosixShell.scan (.bare (Word.quoted text)) [59] =
          some ([.word (Word.quoted text)], .operator [59]) := rfl
      have hjoin : shellJoin [text] = shellQuote text := by simp [shellJoin]
      rw [hjoin]
      exact PosixShell.scan_append scan_shellQuote hend
    · have hblank : PosixShell.scan (.bare (Word.quoted text)) [32] = some ([.word (Word.quoted text)], .between) := rfl
      have hjoin : shellJoin (text :: next :: texts) = shellQuote text ++ ([32] ++ shellJoin (next :: texts)) := by
        simp [shellJoin, List.intercalate_cons_cons]
      rw [hjoin, List.append_assoc, List.append_assoc]
      exact PosixShell.scan_append scan_shellQuote (PosixShell.scan_append hblank (ih (List.cons_ne_nil _ _)))

end

/-! ### The line -/

theorem scan_leadingWords (auth : SudoAuth) (elevation : Elevation) :
    PosixShell.scan .between
      (SUDO ++ asBytes " " ++ (match auth with | .nonInteractive => asBytes "-n" | .password _ => asBytes "-S -p ''") ++
        (match elevation with | .elevate => [] | .descend account => asBytes " -u " ++ shellQuote account.asStr) ++
        asBytes " ") = some ((sudoWords auth elevation).map .word, .between) := by
  rcases elevation with _ | account
  · rcases auth with _ | password
    · decide +kernel
    · exact (by decide +kernel : PosixShell.scan .between (SUDO ++ asBytes " " ++ asBytes "-S -p ''" ++ [] ++ asBytes " ") =
        some ((sudoWords (.password "") .elevate).map .word, .between))
  · rcases auth with _ | password
    · rcases account <;> decide +kernel
    · have h : PosixShell.scan .between (SUDO ++ asBytes " " ++ asBytes "-S -p ''" ++
          (asBytes " -u " ++ shellQuote account.asStr) ++ asBytes " ") =
            some ((sudoWords (.password "") (.descend account)).map .word, .between) := by
        rcases account <;> decide +kernel
      exact h

/-- The tokens of the text that prints the status. -/
def printerTokens : List Token :=
  statusPrinter.words.map .word ++ [.operator (asBytes ">&"), .word (Word.bare (asBytes "2"))]

/-- A command line and the printer behind it are two commands. -/
theorem read_wrapped {lead : List Word} {front : Bytes} {texts : List Bytes}
    (hlead : PosixShell.scan .between front = some (lead.map .word, .between))
    (hfirst : ∀ w ∈ lead.head?, w.isReserved = false ∧ w.isAssignment = false) (htexts : texts ≠ []) :
    PosixShell.read (wrapWithRcMarker (front ++ shellJoin texts)) =
      some [⟨lead ++ texts.map Word.quoted, []⟩, statusPrinter] := by
  have hprinter : PosixShell.scan (.operator [59]) (asBytes " printf '\\n" ++ RC_MARKER ++ asBytes "%d\\n' \"$?\" >&2") =
      some (.operator [59] :: printerTokens.dropLast, .bare (Word.bare (asBytes "2"))) := by decide +kernel
  have hline : wrapWithRcMarker (front ++ shellJoin texts) = front ++ (shellJoin texts ++ [59]) ++
      (asBytes " printf '\\n" ++ RC_MARKER ++ asBytes "%d\\n' \"$?\" >&2") := by
    have hsplit : asBytes "; printf '\\n" = [59] ++ asBytes " printf '\\n" := by decide +kernel
    rw [wrapWithRcMarker, hsplit]
    simp only [List.append_assoc]
  have hscan := PosixShell.scan_append (PosixShell.scan_append hlead (scan_shellJoin htexts)) hprinter
  have htokens := PosixShell.tokens_of_scan hscan rfl
  have hsecond : PosixShell.commandsFrom ⟨[], []⟩ printerTokens = some [statusPrinter] := by decide +kernel
  have hjoined : lead.map Token.word ++ texts.map (fun text => .word (Word.quoted text)) ++
      .operator [59] :: printerTokens.dropLast ++ [.word (Word.bare (asBytes "2"))] =
        (lead ++ texts.map Word.quoted).map .word ++ .operator [59] :: printerTokens := by
    have hlast : printerTokens = printerTokens.dropLast ++ [.word (Word.bare (asBytes "2"))] := by decide +kernel
    conv_rhs => rw [hlast]
    simp
  have hhead : ∀ w ∈ (lead ++ texts.map Word.quoted).head?, w.isReserved = false ∧ w.isAssignment = false := by
    rcases lead with _ | ⟨w, lead⟩
    · obtain ⟨text, texts, rfl⟩ := List.exists_cons_of_ne_nil htexts
      rintro w hw
      obtain rfl : Word.quoted text = w := Option.some.inj hw
      exact ⟨Word.isReserved_quoted, Word.isAssignment_quoted⟩
    · exact hfirst
  obtain ⟨w, ws, hwords⟩ : ∃ w ws, lead ++ texts.map Word.quoted = w :: ws :=
    List.exists_cons_of_ne_nil (by simp [htexts])
  rw [hwords] at hhead hjoined
  obtain ⟨hreserved, hassign⟩ := hhead w rfl
  rw [PosixShell.read, hline, htokens, Option.bind_some, hjoined, PosixShell.commandsFrom_first hreserved hassign,
    PosixShell.commandsFrom_semicolon (by simp), hsecond, hwords]
  rfl

/-! ### The two transports -/

/-- The vector's words that start `sudo`. -/
def leadingArgv (auth : SudoAuth) (identity : Identity) : List Bytes :=
  (Elevation.of identity).elim [] fun elevation => [SUDO] ++ auth.flags ++ elevation.words

/-- What the words that start `sudo` expand to. -/
theorem fields_leadingWords (auth : SudoAuth) (identity : Identity) (status : Nat) :
    (leadingWords auth identity).mapM (Word.field status) = some (leadingArgv auth identity) := by
  have hsudo (elevation : Elevation) : (sudoWords auth elevation).mapM (Word.field status) =
      some ([SUDO] ++ auth.flags ++ elevation.words) := by
    rcases elevation with _ | account
    · rcases auth <;> rfl
    · rcases auth <;> rcases account <;> rfl
  unfold leadingWords leadingArgv
  rcases Elevation.of identity with _ | elevation
  · rfl
  · exact hsudo elevation

theorem invocation_statusPrinter (status : Nat) : statusPrinter.invocation status = some (statusPrint status) := by
  have hstatus : Word.field status [.parameter 63 .double] = some (Decimal.write status) := by
    simp [Word.field, PosixShell.Piece.text]
  have hname : Word.field status (Word.bare (asBytes "printf")) = some (asBytes "printf") := rfl
  have hformat : Word.field status (Word.single STATUS_FORMAT) = some STATUS_FORMAT := rfl
  have hdescriptor : Word.field status (Word.bare (asBytes "2")) = some (asBytes "2") := rfl
  simp [SimpleCommand.invocation, statusPrinter, statusPrint, hstatus, hname, hformat, hdescriptor]

/-- The command of a call that the operator's shell runs by its bare name. -/
def ExecutorCall.bareCommand : ExecutorCall → Option Bytes
  | .run .operator command _ => some command
  | _ => none

/-- What an SSH transport sends for what a local one spawns. -/
structure SentAs (auth : SudoAuth) (draws : Draws) (call : ExecutorCall) (spawned : Resolved) (sent : ResolvedRemote) :
    Prop where
  preamble : sent.preamble = spawned.preamble
  elevated : sent.elevated = spawned.elevated
  line : ∃ texts, texts ≠ [] ∧ remoteArgv auth draws call spawned.argv = leadingArgv auth call.identity ++ texts ∧
    PosixShell.read (wrapWithRcMarker sent.remote) =
      some [⟨leadingWords auth call.identity ++ texts.map Word.quoted, []⟩, statusPrinter]

/-- Either both transports refuse a call, for the same reason, or the one sends what the other spawns. -/
inductive SentAlike (auth : SudoAuth) (draws : Draws) (call : ExecutorCall) :
    Except ExecutorRefusal Resolved → Except ExecutorRefusal ResolvedRemote → Prop
  | sent {spawned : Resolved} {sent : ResolvedRemote} (h : SentAs auth draws call spawned sent) :
    SentAlike auth draws call (.ok spawned) (.ok sent)
  | refused (refusal : ExecutorRefusal) : SentAlike auth draws call (.error refusal) (.error refusal)

/-- Both transports resolve an invocation through the same words, or refuse it alike. -/
theorem resolveThrough_sent (auth : SudoAuth) (localHost remoteHost : String) (identity : Identity)
    (shell script : Bytes) (handoff : Option Handoff) (operatorScript : Option Bytes) (command : Bytes)
    (args : List Bytes) :
    match (LocalExecutor.mk localHost auth).resolveThrough identity shell script handoff command args,
      (SshExecutor.mk remoteHost auth).resolveThrough identity shell script handoff operatorScript command args with
    | .ok spawned, .ok sent => sent.preamble = spawned.preamble ∧ sent.elevated = spawned.elevated ∧
      ∃ texts, texts ≠ [] ∧
        (match identity, operatorScript with
          | .operator, some script => [shell, dashC, script] ++ spawned.argv
          | _, _ => spawned.argv) = leadingArgv auth identity ++ texts ∧
        PosixShell.read (wrapWithRcMarker sent.remote) =
          some [⟨leadingWords auth identity ++ texts.map Word.quoted, []⟩, statusPrinter]
    | .error refused, .error refused' => refused = refused'
    | _, _ => False := by
  have hoperator {texts : List Bytes} (h : texts ≠ []) : PosixShell.read (wrapWithRcMarker (shellJoin texts)) =
      some [⟨texts.map Word.quoted, []⟩, statusPrinter] :=
    @read_wrapped [] [] texts rfl (fun _ h => nomatch h) h
  have hsudo (elevation : Elevation) := @read_wrapped (sudoWords auth elevation) _ ([shell, dashC, script, command] ++ args)
    (scan_leadingWords auth elevation) (by
      rintro w hw
      obtain rfl : Word.bare SUDO = w := Option.some.inj hw
      decide +kernel) (List.cons_ne_nil _ _)
  rcases identity with _ | _ | account
  · rcases operatorScript with _ | wrapper
    · exact ⟨rfl, rfl, _, List.cons_ne_nil _ _, rfl, hoperator (List.cons_ne_nil _ _)⟩
    · exact ⟨rfl, rfl, _, List.cons_ne_nil _ _, rfl, hoperator (List.cons_ne_nil _ _)⟩
  · have hsent := hsudo .elevate
    unfold LocalExecutor.resolveThrough SshExecutor.resolveThrough
    rcases checkSudoWords command args with refused | _
    · simp only [Elevation.of]
      rfl
    · simp only [Elevation.of]
      rcases auth with _ | password
      · exact ⟨rfl, rfl, _, List.cons_ne_nil _ _, rfl, hsent⟩
      · exact ⟨rfl, rfl, _, List.cons_ne_nil _ _, rfl, hsent⟩
  · have hsent := hsudo (.descend account)
    unfold LocalExecutor.resolveThrough SshExecutor.resolveThrough
    rcases checkSudoWords command args with refused | _
    · simp only [Elevation.of]
      rfl
    · simp only [Elevation.of]
      rcases auth with _ | password
      · exact ⟨rfl, rfl, _, List.cons_ne_nil _ _, rfl, hsent⟩
      · exact ⟨rfl, rfl, _, List.cons_ne_nil _ _, rfl, hsent⟩

/-- What a call is sent as, where it resolves through the given words. -/
theorem SentAs.of_resolveThrough {auth : SudoAuth} {draws : Draws} {call : ExecutorCall} {shell script command : Bytes}
    {handoff : Option Handoff} {wrapper : Option Bytes} {args : List Bytes} (localHost remoteHost : String)
    (hscript : operatorScript auth draws call = wrapper.map (shell, ·)) :
    SentAlike auth draws call
      ((LocalExecutor.mk localHost auth).resolveThrough call.identity shell script handoff command args)
      ((SshExecutor.mk remoteHost auth).resolveThrough call.identity shell script handoff wrapper command args) := by
  have hresolved := resolveThrough_sent auth localHost remoteHost call.identity shell script handoff wrapper command args
  rcases hlocal : (LocalExecutor.mk localHost auth).resolveThrough call.identity shell script handoff command args
    with refused | spawned <;>
  rcases hsent : (SshExecutor.mk remoteHost auth).resolveThrough call.identity shell script handoff wrapper command args
    with refused' | sent <;> rw [hlocal, hsent] at hresolved
  · obtain rfl : refused = refused' := hresolved
    exact .refused refused
  · exact hresolved.elim
  · exact hresolved.elim
  · obtain ⟨hpreamble, helevated, texts, htexts, hargv, hread⟩ := hresolved
    refine .sent ⟨hpreamble, helevated, texts, htexts, ?_, hread⟩
    rw [← hargv, remoteArgv, hscript]
    rcases call.identity <;> rcases wrapper <;> rfl

/-- What a call is sent as. -/
theorem invocation_sent (auth : SudoAuth) (localHost remoteHost : String) (draws : Draws) (call : ExecutorCall) :
    SentAlike auth draws call ((LocalExecutor.mk localHost auth).invocation draws call)
      ((SshExecutor.mk remoteHost auth).invocation draws call) := by
  have hbehind {shell script command : Bytes} {handoff : Option Handoff} {wrapper : Option Bytes} {args : List Bytes}
      (hscript : operatorScript auth draws call = wrapper.map (shell, ·)) :
      SentAlike auth draws call
        (do
          checkCommand command
          (LocalExecutor.mk localHost auth).resolveThrough call.identity shell script handoff command args)
        (do
          checkCommand command
          (SshExecutor.mk remoteHost auth).resolveThrough call.identity shell script handoff wrapper command args) := by
    rcases checkCommand command with refused | _
    · exact .refused refused
    · exact SentAs.of_resolveThrough localHost remoteHost hscript
  have hresolve {identity : Identity} (hidentity : call.identity = identity) (command : Bytes) (args : List Bytes)
      (hscript : operatorScript auth draws call = none) :
      SentAlike auth draws call ((LocalExecutor.mk localHost auth).resolve draws identity command args)
        ((SshExecutor.mk remoteHost auth).resolve draws identity command args) := by
    subst hidentity
    exact @SentAs.of_resolveThrough auth draws call SH _ command _ none args localHost remoteHost hscript
  rcases call with ⟨identity, command, args⟩ | ⟨identity, dir, command, args⟩ | ⟨dest, fileMeta⟩ | ⟨source, dest⟩ |
    ⟨dest, fileMeta⟩ | ⟨identity, command, args, timeout⟩ | ⟨identity, command, args⟩ <;>
  rw [LocalExecutor.invocation, SshExecutor.invocation]
  · exact hresolve rfl command args rfl
  · exact hresolve rfl SH (wrapInDir dir command args) rfl
  · exact hresolve rfl SH (landingArgv dest fileMeta) rfl
  · exact hresolve rfl SH (linkAsideArgv source dest) rfl
  · exact hresolve rfl SH (makeDirArgv dest fileMeta) rfl
  · exact @hbehind SUPERVISOR_SHELL _ command _ (some _) args rfl
  · exact @hbehind START_SHELL _ command none (some _) args rfl

/-- Nothing runs but the vector and the printer of the status it left, unless the operator's bare command names what the
shell does itself. -/
theorem SentAs.runs {auth : SudoAuth} {draws : Draws} {call : ExecutorCall} {spawned : Resolved} {sent : ResolvedRemote}
    (h : SentAs auth draws call spawned sent) (outcome : List Bytes → Nat)
    (hname : ∀ name ∈ (remoteArgv auth draws call spawned.argv).head?,
      name ≠ PosixShell.exitName ∧ name ∉ PosixShell.specialBuiltins) :
    PosixShell.runs outcome (wrapWithRcMarker sent.remote) = some [⟨remoteArgv auth draws call spawned.argv, []⟩,
      statusPrint (outcome (remoteArgv auth draws call spawned.argv))] := by
  obtain ⟨texts, htexts, hargv, hread⟩ := h.line
  have hfirst : SimpleCommand.invocation 0 ⟨leadingWords auth call.identity ++ texts.map Word.quoted, []⟩ =
      some ⟨remoteArgv auth draws call spawned.argv, []⟩ := by
    simp only [SimpleCommand.invocation, List.mapM_append, fields_leadingWords, PosixShell.fields_quoted, hargv]
    rfl
  obtain ⟨name, more, hcons⟩ : ∃ name more, remoteArgv auth draws call spawned.argv = name :: more := by
    rw [hargv]
    exact List.exists_cons_of_ne_nil (by simp [htexts])
  have hprintf : asBytes "printf" ≠ PosixShell.exitName ∧ asBytes "printf" ∉ PosixShell.specialBuiltins := by
    decide +kernel
  rw [PosixShell.runs, hread, Option.bind_some, PosixShell.runFrom_cons hfirst (by rw [hcons]; rfl)
    (hname name (by rw [hcons]; rfl)), PosixShell.runFrom_cons (invocation_statusPrinter _) rfl hprintf]
  rfl

/-- The first word names a program, but for the operator's bare command. -/
theorem SentAs.starts {auth : SudoAuth} {draws : Draws} {call : ExecutorCall} {localHost : String} {spawned : Resolved}
    {sent : ResolvedRemote} (h : SentAs auth draws call spawned sent)
    (hspawned : (LocalExecutor.mk localHost auth).invocation draws call = .ok spawned)
    (hbare : ∀ command ∈ call.bareCommand, command ≠ PosixShell.exitName ∧ command ∉ PosixShell.specialBuiltins) :
    ∀ name ∈ (remoteArgv auth draws call spawned.argv).head?,
      name ≠ PosixShell.exitName ∧ name ∉ PosixShell.specialBuiltins := by
  have hsudo (hidentity : call.identity ≠ .operator) :
      (remoteArgv auth draws call spawned.argv).head? = some SUDO := by
    obtain ⟨texts, -, hargv, -⟩ := h.line
    rw [hargv, leadingArgv]
    rcases hid : call.identity with _ | _ | account
    · exact absurd hid hidentity
    · rfl
    · rfl
  have hfixed : ∀ name ∈ [SUDO, SH, SUPERVISOR_SHELL],
      name ≠ PosixShell.exitName ∧ name ∉ PosixShell.specialBuiltins := by decide +kernel
  intro name hname
  by_cases hidentity : call.identity = .operator
  · rcases call with ⟨identity, command, args⟩ | ⟨identity, dir, command, args⟩ | ⟨dest, fileMeta⟩ | ⟨source, dest⟩ |
      ⟨dest, fileMeta⟩ | ⟨identity, command, args, timeout⟩ | ⟨identity, command, args⟩
    · obtain rfl : identity = .operator := hidentity
      obtain rfl := Except.ok.inj hspawned
      exact hbare name hname
    · obtain rfl : identity = .operator := hidentity
      obtain rfl := Except.ok.inj hspawned
      obtain rfl : SH = name := Option.some.inj hname
      exact hfixed _ (by simp)
    · cases hidentity
    · cases hidentity
    · cases hidentity
    · obtain rfl : identity = .operator := hidentity
      obtain rfl : SUPERVISOR_SHELL = name := Option.some.inj hname
      exact hfixed _ (by simp)
    · obtain rfl : identity = .operator := hidentity
      obtain rfl : SUPERVISOR_SHELL = name := Option.some.inj hname
      exact hfixed _ (by simp)
  · rw [hsudo hidentity] at hname
    obtain rfl : SUDO = name := Option.some.inj hname
    exact hfixed _ (by simp)

/-- For every call, both transports refuse it alike, or what the SSH one sends is read by a POSIX shell as two commands:
the vector that the local one spawns, behind the operator's script where the remote side runs one, and the printer of the
status. Of the first, every word behind those that start `sudo` stands between single quotes, each quote of its own
behind a backslash. These two are all that runs, unless the operator's bare command is one that the shell itself acts
on. -/
theorem sshLine_runs (auth : SudoAuth) (localHost remoteHost : String) (draws : Draws) (call : ExecutorCall) :
    let spawns := (LocalExecutor.mk localHost auth).invocation draws call
    let sends := (SshExecutor.mk remoteHost auth).invocation draws call
    (∀ refusal, spawns = .error refusal ↔ sends = .error refusal) ∧
      ∀ spawned sent, spawns = .ok spawned → sends = .ok sent →
        sent.preamble = spawned.preamble ∧ sent.elevated = spawned.elevated ∧
        (∃ texts, remoteArgv auth draws call spawned.argv = leadingArgv auth call.identity ++ texts ∧
          (∀ status, (leadingWords auth call.identity).mapM (Word.field status) =
            some (leadingArgv auth call.identity)) ∧
          PosixShell.read (wrapWithRcMarker sent.remote) =
            some [⟨leadingWords auth call.identity ++ texts.map Word.quoted, []⟩, statusPrinter]) ∧
        ((∀ command ∈ call.bareCommand, command ≠ PosixShell.exitName ∧ command ∉ PosixShell.specialBuiltins) →
          ∀ outcome, PosixShell.runs outcome (wrapWithRcMarker sent.remote) =
            some [⟨remoteArgv auth draws call spawned.argv, []⟩,
              statusPrint (outcome (remoteArgv auth draws call spawned.argv))]) := by
  intro spawns sends
  have halike : SentAlike auth draws call spawns sends := invocation_sent auth localHost remoteHost draws call
  obtain ⟨hspawns, hsends⟩ : (LocalExecutor.mk localHost auth).invocation draws call = spawns ∧
    (SshExecutor.mk remoteHost auth).invocation draws call = sends := ⟨rfl, rfl⟩
  clear_value spawns sends
  rcases halike with h | refusal
  · refine ⟨fun refusal => ⟨nofun, nofun⟩, ?_⟩
    rintro spawned sent ⟨⟩ ⟨⟩
    obtain ⟨texts, -, hargv, hread⟩ := h.line
    exact ⟨h.preamble, h.elevated, ⟨texts, hargv, fields_leadingWords auth call.identity, hread⟩,
      fun hbare outcome => h.runs outcome (h.starts hspawns hbare)⟩
  · exact ⟨fun _ => ⟨fun h => congrArg _ (Except.error.inj h), fun h => congrArg _ (Except.error.inj h)⟩, nofun⟩

/-- A quote of the operator's is read outside single quotes, and an `exit` ends the shell before the printer. -/
theorem sshLine_operator :
    let ssh : SshExecutor := ⟨"node", .nonInteractive⟩
    let draws : Draws := ⟨.replicate 16 0, .replicate 16 0⟩
    (∃ sent, ssh.invocation draws (.run .operator (asBytes "echo") [asBytes "'"]) = .ok sent ∧
      PosixShell.read (wrapWithRcMarker sent.remote) =
        some [⟨[Word.single (asBytes "echo"), [.byte 39 .escaped]], []⟩, statusPrinter]) ∧
    ∃ sent, ssh.invocation draws (.run .operator (asBytes "exit") []) = .ok sent ∧
      PosixShell.runs (fun _ => 0) (wrapWithRcMarker sent.remote) = some [] := by
  refine ⟨⟨_, rfl, ?_⟩, ⟨_, rfl, ?_⟩⟩
  · decide +kernel
  · decide +kernel

end DeployCore
