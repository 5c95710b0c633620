import DeployCore.Lib.ShellScript
import DeployCore.RemoteVerdict
import DeployCore.Transports

/-! # A command in a directory (`src/executor.rs`, `src/bootroot_cmd.rs`)

`run_in` is `run` of a shell that is given `CD_EXEC_SCRIPT`. The script does not look at how `cd` ended: where the
directory cannot be entered, the command starts wherever the shell stands. -/

namespace DeployCore

/-! ### Where a command runs -/

inductive RunEnding
  | exited (code : UInt8)
  | killed (signal : Fin 128)
  deriving DecidableEq

/-- The code a parent is told of. -/
def RunEnding.code : RunEnding → ProcessStatus
  | .exited code => some code.toNat
  | .killed _ => none

/-- `$?` behind a command that ended so. -/
def RunEnding.shellStatus : RunEnding → Nat
  | .exited code => code.toNat
  | .killed signal => 128 + signal.val

/-- What a command leaves. -/
structure Finished where
  ending : RunEnding
  stdout : Bytes
  stderr : Bytes
  deriving DecidableEq

/-- A program that was not started: whether it was found, and what a shell complains of. -/
structure Unstarted where
  found : Bool
  complaint : Bytes
  deriving DecidableEq

/-- How a shell ends that could not start a program in its place. -/
def Unstarted.finished (unstarted : Unstarted) : Finished :=
  ⟨.exited (if unstarted.found then 126 else 127), [], unstarted.complaint⟩

/-- A host as an identity finds it: the directories that paths name and it can enter, what `cd` of an operand comes to,
and what a vector of words does as a program started in a directory. A `cd` that fails says so. -/
structure Site (Dir : Type) where
  directory : Bytes → Option Dir
  cd : Dir → Bytes → Except Bytes Dir
  program : Dir → List Bytes → Except Unstarted Finished
  cd_complains : ∀ cwd path complaint, cd cwd path = .error complaint → complaint ≠ []

/-- A command started, where and with which words. -/
abbrev Start (Dir : Type) := Dir × List Bytes

variable {Dir : Type}

namespace Site

/-- A program started in a directory. -/
def spawn (site : Site Dir) (cwd : Dir) (argv : List Bytes) : Except Unstarted (List (Start Dir) × Finished) :=
  (site.program cwd argv).map fun finished => ([(cwd, argv)], finished)

/-- A program that takes a shell's place. -/
def exec (site : Site Dir) (cwd : Dir) (argv : List Bytes) (stderr : Bytes) : List (Start Dir) × Finished :=
  let (starts, finished) := match site.spawn cwd argv with
    | .ok started => started
    | .error unstarted => ([], unstarted.finished)
  (starts, { finished with stderr := stderr ++ finished.stderr })

/-- `sh` with these arguments, started in a directory; a text that is no script ends it. -/
def shell (site : Site Dir) (cwd : Dir) : List Bytes → List (Start Dir) × Finished
  | _ :: script :: _ :: params =>
    match PosixShell.runScript site.cd cwd script params with
    | some (.becomes cwd argv stderr) => site.exec cwd argv stderr
    | some (.ends status stderr) => ([], ⟨.exited status.toUInt8, [], stderr⟩)
    | none => ([], ⟨.exited 2, [], []⟩)
  | _ => ([], ⟨.exited 2, [], []⟩)

end Site

/-! ### What a transport reports -/

/-- A transport. -/
inductive Transport
  | onHost (e : LocalExecutor)
  | overSsh (e : SshExecutor)
  | inDaemon (e : InDaemonExecutor)

/-- What `run` fails with. -/
inductive RunFailure
  | refused (refusal : ExecutorRefusal)
  | spawn (command : Bytes)
  | executor (error : ExecutorError)
  deriving DecidableEq

/-- What a process leaves that `sudo` started, behind the sentinel its script prints. -/
def Finished.elevated (finished : Finished) : CommandOutput :=
  ⟨finished.ending.code, finished.stdout, SUDO_OK_SENTINEL ++ finished.stderr⟩

def Finished.output (finished : Finished) : CommandOutput :=
  ⟨finished.ending.code, finished.stdout, finished.stderr⟩

/-- A process that is waited for: it is spawned as it is, or `sudo` starts it through a shell. -/
def spawnResolved (elevated : Bool) (auth : Option SudoAuth) (host : String) (command : Bytes)
    (started : Except Unstarted (List (Start Dir) × Finished)) :
    List (Start Dir) × Except RunFailure CommandOutput :=
  if elevated then
    let (starts, finished) := match started with
      | .ok started => started
      | .error unstarted => ([], unstarted.finished)
    (starts, (classifyElevation finished.elevated auth host).mapError .executor)
  else
    match started with
    | .ok (starts, finished) => (starts, .ok finished.output)
    | .error _ => ([], .error (.spawn command))

/-- A remote command line that is waited for, the printer of its status behind it. -/
def runResolved (ssh : SshExecutor) (elevated : Bool) (started : Except Unstarted (List (Start Dir) × Finished)) :
    List (Start Dir) × Except RunFailure CommandOutput :=
  let (starts, finished) := match started with
    | .ok started => started
    | .error unstarted => ([], unstarted.finished)
  let own := if elevated then SUDO_OK_SENTINEL ++ finished.stderr else finished.stderr
  (starts, (ssh.run elevated (some 0) finished.stdout
    (own ++ statusLine finished.ending.shellStatus)).mapError .executor)

namespace Transport

/-- `Executor::run` of words that do on the host what `started` says: what was started, and the result. -/
def carry (draws : Draws) (identity : Identity) (command : Bytes) (args : List Bytes)
    (started : Except Unstarted (List (Start Dir) × Finished)) :
    Transport → List (Start Dir) × Except RunFailure CommandOutput
  | .onHost e =>
    match e.resolve draws identity command args with
    | .ok resolved => spawnResolved resolved.elevated (some e.auth) e.host command started
    | .error refusal => ([], .error (.refused refusal))
  | .overSsh e =>
    match e.resolve draws identity command args with
    | .ok resolved => runResolved e resolved.elevated started
    | .error refusal => ([], .error (.refused refusal))
  | .inDaemon e =>
    match e.resolve identity command args with
    | .ok resolved => spawnResolved resolved.elevated none e.host command started
    | .error refusal => ([], .error (.refused refusal))

/-- `run` of a command, from where its process starts. -/
def run (t : Transport) (site : Site Dir) (cwd : Dir) (draws : Draws) (identity : Identity) (command : Bytes)
    (args : List Bytes) : List (Start Dir) × Except RunFailure CommandOutput :=
  t.carry draws identity command args (site.spawn cwd (command :: args))

/-- `run_in`: a `run` of `sh`, which is always there. -/
def runIn (t : Transport) (site : Site Dir) (cwd : Dir) (draws : Draws) (identity : Identity) (dir command : Bytes)
    (args : List Bytes) : List (Start Dir) × Except RunFailure CommandOutput :=
  t.carry draws identity SH (wrapInDir dir command args) (.ok (site.shell cwd (wrapInDir dir command args)))

end Transport

/-! ### What is meant -/

/-- What a `run_in` is to do: start the command in the directory alone, with the given words, and report what `run`
would report of it there; and where the directory cannot be entered, start nothing and not succeed. -/
def RunsInDirectory (t : Transport) (site : Site Dir) (cwd : Dir) (draws : Draws) (identity : Identity)
    (dir command : Bytes) (args : List Bytes) : Prop :=
  let ran := t.runIn site cwd draws identity dir command args
  match site.directory dir with
  | some d => (∀ start ∈ ran.1, start = (d, command :: args)) ∧
    (ran.1 ≠ [] → ran.2 = (t.run site d draws identity command args).2)
  | none => ran.1 = [] ∧ ∀ output, ran.2 = .ok output → output.code ≠ some 0

/-- Whether a transport refuses the words of a `run`. -/
def Transport.Refuses (t : Transport) (draws : Draws) (identity : Identity) (command : Bytes) (args : List Bytes) : Prop :=
  match t with
  | .onHost e => ∃ refusal, e.resolve draws identity command args = .error refusal
  | .overSsh e => ∃ refusal, e.resolve draws identity command args = .error refusal
  | .inDaemon e => ∃ refusal, e.resolve identity command args = .error refusal

/-- Where the shell stands once it has tried to change its directory. -/
def Site.standsIn (site : Site Dir) (cwd : Dir) (dir : Bytes) : Dir :=
  match site.cd cwd (toStringLossy dir) with
  | .ok d => d
  | .error _ => cwd

/-! ### The script -/

section Script
variable {site : Site Dir} {cwd : Dir} {dir command : Bytes} {args : List Bytes}

/-- What a `cd` that failed wrote. -/
def Site.complaint (site : Site Dir) (cwd : Dir) (dir : Bytes) : Bytes :=
  match site.cd cwd (toStringLossy dir) with
  | .ok _ => []
  | .error complaint => complaint

theorem complaint_eq_nil : site.complaint cwd dir = [] ↔
    site.cd cwd (toStringLossy dir) = .ok (site.standsIn cwd dir) := by
  unfold Site.complaint Site.standsIn
  rcases hcd : site.cd cwd (toStringLossy dir) with complaint | d
  · simpa using site.cd_complains _ _ _ hcd
  · simp

theorem read_cdExecScript : PosixShell.read CD_EXEC_SCRIPT = some
    [⟨[PosixShell.Word.bare PosixShell.cdName, [.parameter 49 .double]], []⟩,
      ⟨[PosixShell.Word.bare PosixShell.shiftName], []⟩,
      ⟨[PosixShell.Word.bare PosixShell.execName, [.parameter 64 .double]], []⟩] := by
  decide +kernel

/-- Whatever `cd` comes to, the command takes the shell's place. -/
theorem shell_wrapInDir : site.shell cwd (wrapInDir dir command args) =
    site.exec (site.standsIn cwd dir) (command :: args) (site.complaint cwd dir) := by
  have hcd (shell : PosixShell.Shell Dir) :
      shell.fields [PosixShell.Word.bare PosixShell.cdName, [.parameter 49 .double]] =
        some [PosixShell.cdName, shell.params.getD 0 []] := rfl
  have hshift (shell : PosixShell.Shell Dir) :
      shell.fields [PosixShell.Word.bare PosixShell.shiftName] = some [PosixShell.shiftName] := rfl
  have hexec (shell : PosixShell.Shell Dir) :
      shell.fields [PosixShell.Word.bare PosixShell.execName, [.parameter 64 .double]] =
        some (PosixShell.execName :: (shell.params ++ [])) := rfl
  have hnames : PosixShell.shiftName ≠ PosixShell.cdName ∧ PosixShell.execName ≠ PosixShell.cdName ∧
    PosixShell.execName ≠ PosixShell.shiftName := by decide
  have hscript : PosixShell.runScript site.cd cwd CD_EXEC_SCRIPT (toStringLossy dir :: command :: args) =
      some (.becomes (site.standsIn cwd dir) (command :: args) (site.complaint cwd dir)) := by
    rw [PosixShell.runScript, read_cdExecScript, Option.bind_some]
    simp only [PosixShell.Shell.run, hcd, hshift, hexec, hnames, List.append_nil, List.getD_cons_zero, if_true, if_false]
    unfold Site.standsIn Site.complaint
    rcases site.cd cwd (toStringLossy dir) with complaint | d
    · simp
    · simp
  have hwords : wrapInDir dir command args =
      dashC :: CD_EXEC_SCRIPT :: asBytes "_" :: toStringLossy dir :: command :: args := rfl
  rw [hwords, Site.shell, hscript]

end Script

/-! ### The reports -/

section Report
variable {t : Transport} {draws : Draws} {identity : Identity} {command : Bytes} {args : List Bytes}

/-- The code that a transport reports of an ending. -/
def Transport.codeOf : Transport → RunEnding → Option Int
  | .overSsh _, ending => some ending.shellStatus
  | _, ending => ending.code

/-- Nothing reports a success of what was not started. -/
theorem codeOf_unstarted (t : Transport) (unstarted : Unstarted) : t.codeOf unstarted.finished.ending ≠ some 0 := by
  rcases unstarted with ⟨_ | _, complaint⟩
  · rcases t <;> simp [Transport.codeOf, Unstarted.finished, RunEnding.code, RunEnding.shellStatus]
  · rcases t <;> simp [Transport.codeOf, Unstarted.finished, RunEnding.code, RunEnding.shellStatus]

theorem shellStatus_le (ending : RunEnding) : ending.shellStatus ≤ 255 := by
  rcases ending with code | signal
  · exact Nat.lt_succ_iff.mp code.toNat_lt
  · have := signal.isLt
    show 128 + signal.val ≤ 255
    omega

theorem classifyElevation_sentinel {code : Option Int} {stdout stderr : Bytes} {auth : Option SudoAuth} {host : String} :
    classifyElevation ⟨code, stdout, SUDO_OK_SENTINEL ++ stderr⟩ auth host = .ok ⟨code, stdout, stderr⟩ := by
  have hfirst : Occurs.first SUDO_OK_SENTINEL (SUDO_OK_SENTINEL ++ stderr) = some 0 := by
    obtain ⟨b, rest, hcons⟩ : ∃ b rest, SUDO_OK_SENTINEL = b :: rest :=
      List.exists_cons_of_ne_nil (by decide +kernel)
    rw [hcons]
    exact if_pos (List.prefix_append (b :: rest) stderr)
  rw [classifyElevation, takeSudoSentinel, hfirst]
  simp

/-- What precedes the status line is the command's own. -/
theorem settleRemoteCode_statusLine {host : String} {status : ProcessStatus} {stdout own : Bytes} {code : Nat}
    (h : code ≤ 255) : settleRemoteCode host ⟨status, stdout, own ++ statusLine code⟩ = .ok ⟨some code, stdout, own⟩ := by
  have hnewline : (own ++ statusLine code)[own.length]? = some 10 := by
    rw [List.getElem?_append_right le_rfl, Nat.sub_self]
    rfl
  rw [settleRemoteCode, extractRemoteCode_statusLine h]
  simp only [Nat.add_sub_cancel, hnewline, and_true, Nat.succ_pos, if_true, List.take_left]

/-- What is not refused reports whatever the process leaves. -/
theorem carry_eq (hrefused : ¬ t.Refuses draws identity command args) (starts : List (Start Dir)) (finished : Finished) :
    t.carry draws identity command args (.ok (starts, finished)) =
      (starts, .ok ⟨t.codeOf finished.ending, finished.stdout, finished.stderr⟩) := by
  have hspawned (elevated : Bool) (auth : Option SudoAuth) (host : String) :
      spawnResolved elevated auth host command (.ok (starts, finished)) =
        (starts, .ok ⟨finished.ending.code, finished.stdout, finished.stderr⟩) := by
    unfold spawnResolved
    rcases elevated with _ | _
    · rfl
    · simp only [if_true, Finished.elevated, classifyElevation_sentinel]
      rfl
  have hsent (ssh : SshExecutor) (elevated : Bool) : runResolved ssh elevated (.ok (starts, finished)) =
      (starts, .ok ⟨some finished.ending.shellStatus, finished.stdout, finished.stderr⟩) := by
    unfold runResolved SshExecutor.run
    simp only [settleRemoteCode_statusLine (shellStatus_le finished.ending)]
    rcases elevated with _ | _
    · rfl
    · have hsudo : classifyElevation ⟨some finished.ending.shellStatus, finished.stdout, SUDO_OK_SENTINEL ++ finished.stderr⟩
          (some ssh.auth) ssh.host = .ok ⟨some finished.ending.shellStatus, finished.stdout, finished.stderr⟩ :=
        classifyElevation_sentinel
      exact congrArg (fun result => (starts, result.mapError RunFailure.executor)) hsudo
  unfold Transport.Refuses at hrefused
  unfold Transport.carry
  rcases t with e | e | e
  · dsimp only at hrefused ⊢
    rcases hresolved : e.resolve draws identity command args with refusal | resolved
    · exact absurd ⟨refusal, hresolved⟩ hrefused
    · exact hspawned ..
  · dsimp only at hrefused ⊢
    rcases hresolved : e.resolve draws identity command args with refusal | resolved
    · exact absurd ⟨refusal, hresolved⟩ hrefused
    · exact hsent ..
  · dsimp only at hrefused ⊢
    rcases hresolved : e.resolve identity command args with refusal | resolved
    · exact absurd ⟨refusal, hresolved⟩ hrefused
    · exact hspawned ..

/-- What is refused starts nothing. -/
theorem carry_refused (hrefused : t.Refuses draws identity command args)
    (started : Except Unstarted (List (Start Dir) × Finished)) :
    ∃ failure, t.carry draws identity command args started = ([], .error failure) := by
  unfold Transport.Refuses at hrefused
  unfold Transport.carry
  rcases t with e | e | e
  · obtain ⟨refusal, hrefusal⟩ := hrefused
    exact ⟨.refused refusal, by simp only [hrefusal]⟩
  · obtain ⟨refusal, hrefusal⟩ := hrefused
    exact ⟨.refused refusal, by simp only [hrefusal]⟩
  · obtain ⟨refusal, hrefusal⟩ := hrefused
    exact ⟨.refused refusal, by simp only [hrefusal]⟩

theorem checkSudoWords_eq_ok : checkSudoWords command args = .ok () ↔
    holds command SUDO_OK_SENTINEL = false ∧ ∀ arg ∈ args, holds arg SUDO_OK_SENTINEL = false := by
  have hargs : args.findIdx? (holds · SUDO_OK_SENTINEL) = none ↔ ∀ arg ∈ args, holds arg SUDO_OK_SENTINEL = false :=
    List.findIdx?_eq_none_iff
  unfold checkSudoWords reservedWord
  rcases hcommand : holds command SUDO_OK_SENTINEL with _ | _
  · rw [if_neg (by decide)]
    rcases hfound : args.findIdx? (holds · SUDO_OK_SENTINEL) with _ | index
    · simpa using hargs.mp hfound
    · have hnot : ¬∀ arg ∈ args, holds arg SUDO_OK_SENTINEL = false := fun hall => by
        rw [hargs.mpr hall] at hfound
        cases hfound
      simpa using hnot
  · simp

/-- A command that `run_in` is not refused for is one that `run` is not. -/
theorem not_refuses_run {dir : Bytes} (hrefused : ¬ t.Refuses draws identity SH (wrapInDir dir command args)) :
    ¬ t.Refuses draws identity command args := by
  have hwords {refusal : ExecutorRefusal} (h : checkSudoWords command args = .error refusal) :
      ∃ refusal', checkSudoWords SH (wrapInDir dir command args) = .error refusal' := by
    rcases hwrapped : checkSudoWords SH (wrapInDir dir command args) with refusal' | ⟨⟩
    · exact ⟨refusal', rfl⟩
    · obtain ⟨-, hall⟩ := checkSudoWords_eq_ok.mp hwrapped
      have hok : checkSudoWords command args = .ok () :=
        checkSudoWords_eq_ok.mpr ⟨hall _ (by simp [wrapInDir]), fun arg harg => hall arg (by simp [wrapInDir, harg])⟩
      rw [hok] at h
      cases h
  have hbehind {α : Type} (resolved resolved' : α) {refusal : ExecutorRefusal}
      (h : (do checkSudoWords command args; .ok resolved : Except ExecutorRefusal α) = .error refusal) :
      ∃ refusal', (do checkSudoWords SH (wrapInDir dir command args); .ok resolved' : Except ExecutorRefusal α) =
        .error refusal' := by
    rcases hsudo : checkSudoWords command args with refusal' | ⟨⟩
    · obtain ⟨refusal'', hwrapped⟩ := hwords hsudo
      exact ⟨refusal'', by rw [hwrapped]; rfl⟩
    · rw [hsudo] at h
      cases h
  refine fun h => hrefused ?_
  unfold Transport.Refuses at h ⊢
  rcases t with e | e | e
  · obtain ⟨refusal, h⟩ := h
    rcases identity with _ | _ | account
    · cases h
    · exact hbehind _ _ h
    · exact hbehind _ _ h
  · obtain ⟨refusal, h⟩ := h
    rcases identity with _ | _ | account
    · cases h
    · exact hbehind _ _ h
    · exact hbehind _ _ h
  · obtain ⟨refusal, h⟩ := h
    rcases identity with _ | _ | account
    · exact ⟨_, rfl⟩
    · cases h
    · exact hbehind _ _ h

end Report

/-! ### The directory -/

/-- A `run_in` does what is meant exactly when it is refused, or the command cannot be started where the shell stands
behind `cd`, or the path names a directory that the identity can enter and `cd` of its text comes to it. -/
theorem runIn_iff (t : Transport) (site : Site Dir) (cwd : Dir) (draws : Draws) (identity : Identity)
    (dir command : Bytes) (args : List Bytes) :
    RunsInDirectory t site cwd draws identity dir command args ↔
      t.Refuses draws identity SH (wrapInDir dir command args) ∨
      (∃ unstarted, site.program (site.standsIn cwd dir) (command :: args) = .error unstarted) ∨
      ∃ d, site.directory dir = some d ∧ site.cd cwd (toStringLossy dir) = .ok d := by
  by_cases hrefused : t.Refuses draws identity SH (wrapInDir dir command args)
  · obtain ⟨failure, hcarry⟩ := carry_refused hrefused (.ok (site.shell cwd (wrapInDir dir command args)))
    have hran : t.runIn site cwd draws identity dir command args = ([], .error failure) := hcarry
    have hmeets : RunsInDirectory t site cwd draws identity dir command args := by
      unfold RunsInDirectory
      rcases site.directory dir with _ | d
      · simp [hran]
      · simp [hran]
    exact iff_of_true hmeets (.inl hrefused)
  · have hran : t.runIn site cwd draws identity dir command args =
        t.carry draws identity SH (wrapInDir dir command args)
          (.ok (site.exec (site.standsIn cwd dir) (command :: args) (site.complaint cwd dir))) := by
      rw [Transport.runIn, shell_wrapInDir]
    rcases hprogram : site.program (site.standsIn cwd dir) (command :: args) with unstarted | finished
    · have hexec : site.exec (site.standsIn cwd dir) (command :: args) (site.complaint cwd dir) =
          ([], { unstarted.finished with stderr := site.complaint cwd dir ++ unstarted.complaint }) := by
        simp only [Site.exec, Site.spawn, hprogram]
        rfl
      rw [hexec, carry_eq hrefused] at hran
      have hfails := codeOf_unstarted t unstarted
      have hmeets : RunsInDirectory t site cwd draws identity dir command args := by
        unfold RunsInDirectory
        rcases site.directory dir with _ | d
        · simpa [hran] using hfails
        · simp [hran]
      exact iff_of_true hmeets (.inr (.inl ⟨unstarted, rfl⟩))
    · have hexec : site.exec (site.standsIn cwd dir) (command :: args) (site.complaint cwd dir) =
          ([(site.standsIn cwd dir, command :: args)],
            { finished with stderr := site.complaint cwd dir ++ finished.stderr }) := by
        simp only [Site.exec, Site.spawn, hprogram]
        rfl
      rw [hexec, carry_eq hrefused] at hran
      have hstartable : ¬∃ unstarted, (Except.ok finished : Except Unstarted Finished) = .error unstarted := nofun
      rw [or_iff_right hrefused, or_iff_right hstartable]
      unfold RunsInDirectory
      rcases hdir : site.directory dir with _ | d
      · simp [hran]
      · have hthere (hd : site.standsIn cwd dir = d) : (t.run site d draws identity command args).2 =
            .ok ⟨t.codeOf finished.ending, finished.stdout, finished.stderr⟩ := by
          rw [hd] at hprogram
          rw [Transport.run, Site.spawn, hprogram]
          exact congrArg Prod.snd (carry_eq (not_refuses_run hrefused) _ finished)
        simp only [hran, List.mem_singleton, forall_eq, Prod.mk.injEq, and_true]
        constructor
        · rintro ⟨hd, hreports⟩
          have hsame := (hreports (List.cons_ne_nil _ _)).trans (hthere hd)
          have hsilent : site.complaint cwd dir = [] := by
            simpa using hsame
          exact ⟨d, rfl, hd ▸ complaint_eq_nil.mp hsilent⟩
        · rintro ⟨d', hd', hcd⟩
          obtain rfl := Option.some.inj hd'
          have hd : site.standsIn cwd dir = d := by rw [Site.standsIn, hcd]
          have hsilent : site.complaint cwd dir = [] := complaint_eq_nil.mpr (hd.symm ▸ hcd)
          refine ⟨hd, fun _ => ?_⟩
          rw [hthere hd, hsilent]
          rfl

/-- A host with one directory, which no path names, and a program that succeeds. -/
def bareSite : Site Unit where
  directory _ := none
  cd _ _ := .error (asBytes "no such directory\n")
  program _ _ := .ok ⟨.exited 0, [], []⟩
  cd_complains := by
    rintro _ _ complaint ⟨⟩
    decide +kernel

/-- In a directory that is not there, the command runs where the shell stood, and is reported to have succeeded. -/
theorem runIn_absent :
    let draws : Draws := ⟨.replicate 16 0, .replicate 16 0⟩
    let host : Transport := .onHost ⟨"node", .nonInteractive⟩
    host.runIn bareSite () draws .operator (asBytes "/absent") (asBytes "/usr/bin/bootroot") [asBytes "init"] =
      ([((), [asBytes "/usr/bin/bootroot", asBytes "init"])], .ok ⟨some 0, [], asBytes "no such directory\n"⟩) ∧
    ¬ RunsInDirectory host bareSite () draws .operator (asBytes "/absent") (asBytes "/usr/bin/bootroot")
      [asBytes "init"] := by
  intro draws host
  have hran : host.runIn bareSite () draws .operator (asBytes "/absent") (asBytes "/usr/bin/bootroot")
      [asBytes "init"] =
      ([((), [asBytes "/usr/bin/bootroot", asBytes "init"])], .ok ⟨some 0, [], asBytes "no such directory\n"⟩) := by
    rw [Transport.runIn, shell_wrapInDir]
    rfl
  refine ⟨hran, fun ⟨hstarts, _⟩ => ?_⟩
  rw [hran] at hstarts
  cases hstarts

end DeployCore
