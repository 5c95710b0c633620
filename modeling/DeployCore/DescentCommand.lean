import DeployCore.Lib.EnvUtility
import DeployCore.Lib.ShellCompound
import DeployCore.SettleDescent

/-! # Building a descent (`src/executor.rs`)

The command that descends from the root daemon to an identity: `sudo` and a shell that is given the descent script, with
the profile's directory and pairs, the command and its arguments in one flat list of words behind it. What the list is
checked for is what makes the script and `env` read it back as what it was put together from. -/

namespace DeployCore

structure DescentProfile where
  env : List (Bytes × Bytes)
  cwd : Bytes

inductive DescentError
  | invalidCommand (command : Bytes)
  | invalidArgument (index : Nat)
  | invalidEnvironment (name : Bytes) (reason : String)
  | invalidWorkingDirectory (cwd : Bytes)
  deriving DecidableEq

/-- Whether a word holds one that a descent reports its outcome with. -/
def holdsOutcomeWord (word : Bytes) : Bool := [SUDO_OK_SENTINEL, NO_WORKING_DIRECTORY_MARKER].any (holds word)

def isAlphabeticByte (b : UInt8) : Bool := (65 ≤ b && b ≤ 90) || (97 ≤ b && b ≤ 122)

def isAlphanumericByte (b : UInt8) : Bool := isAlphabeticByte b || (48 ≤ b && b ≤ 57)

/-- `[A-Za-z_][A-Za-z0-9_]*`. -/
def isEnvName : Bytes → Bool
  | [] => false
  | first :: rest => (isAlphabeticByte first || first = 95) && rest.all fun b => isAlphanumericByte b || b = 95

def checkEnvName (entry : Bytes × Bytes) : Except DescentError Unit :=
  if isEnvName entry.1 then .ok ()
  else .error (.invalidEnvironment entry.1 "is not a name of the form [A-Za-z_][A-Za-z0-9_]*")

def checkEnvValue (entry : Bytes × Bytes) : Except DescentError Unit :=
  if entry.2.contains 0 then .error (.invalidEnvironment entry.1 "has a value containing a NUL byte")
  else if holdsOutcomeWord entry.1 || holdsOutcomeWord entry.2 then
    .error (.invalidEnvironment entry.1 "holds a word the descent reports its outcome with")
  else .ok ()

/-- The entries in turn: each one's name, whether it was given before, and then its value. -/
def checkDescentEnv (env : List (Bytes × Bytes)) : Except DescentError (List Unit) :=
  Checks.collectDistinct Prod.fst checkEnvName (fun entry => .invalidEnvironment entry.1 "is given more than once")
    checkEnvValue [] env

/-- What is refused before anything is built. -/
def checkDescent (command : Bytes) (args : List Bytes) (profile : DescentProfile) : Except DescentError Unit :=
  if !isAbsoluteAndPlain command || holdsOutcomeWord command then .error (.invalidCommand command)
  else
    (args.findIdx? holdsOutcomeWord).elim
      (do
        let _ ← checkDescentEnv profile.env
        if profile.cwd.head? ≠ some 47 ∨ profile.cwd.contains 0 ∨ holdsOutcomeWord profile.cwd then
          .error (.invalidWorkingDirectory profile.cwd)
        else .ok ())
      fun index => .error (.invalidArgument index)

/-- The words behind the script's name: the directory, the pairs, the command and its arguments. -/
def descentOperands (command : Bytes) (args : List Bytes) (profile : DescentProfile) : List Bytes :=
  profile.cwd :: (profile.env.map (fun pair => pair.1 ++ 61 :: pair.2) ++ command :: args)

/-- A command that is built and not spawned. -/
structure BuiltCommand where
  argv : List Bytes
  currentDir : Bytes
  deriving DecidableEq

def InDaemonExecutor.descentCommand (who : Descent) (command : Bytes) (args : List Bytes) (profile : DescentProfile) :
    Except DescentError BuiltCommand :=
  (checkDescent command args profile).map fun _ =>
    ⟨sudoDescent who ++ [SUPERVISOR_SHELL, dashC, descentScript, DESCENT_ARG0] ++ descentOperands command args profile,
      asBytes "/"⟩

/-! ### What the words come to -/

/-- Where a descent ends up: the utility `env` starts in a directory, or the end of the script. -/
inductive Landing (Dir : Type)
  | started (cwd : Dir) (call : EnvUtility.Call) (stderr : Bytes)
  | ended (status : Nat) (stderr : Bytes)

variable {Dir : Type}

/-- The script run with words behind its name, by a shell that stands in `cwd` and has inherited an environment; `enter`
is what the identity's change into an absolute path comes to. -/
def descend (enter : Bytes → Except Bytes Dir) (cwd : Dir) (inherited : List (Bytes × Bytes)) (operands : List Bytes) :
    Option (Landing Dir) := do
  match ← PosixShell.performScript enter cwd descentScript operands with
  | .becomes cwd (program :: words) stderr =>
    if program = ENV then (EnvUtility.call inherited words).map fun call => .started cwd call stderr else none
  | .becomes _ [] _ => none
  | .ends status stderr => some (.ended status stderr)

/-- What a descent is for: in the profile's directory the command is started, as the file it names, with the arguments
and with the profile's pairs as its whole environment; where the directory cannot be entered nothing is started. -/
def Descends (command : Bytes) (args : List Bytes) (profile : DescentProfile) (operands : List Bytes) : Prop :=
  EnvUtility.Call.file ⟨profile.env, command, args⟩ = some command ∧
  ∀ (Dir : Type) (enter : Bytes → Except Bytes Dir) (cwd : Dir) (inherited : List (Bytes × Bytes)),
    descend enter cwd inherited operands =
      some (match enter profile.cwd with
        | .ok dir => .started dir ⟨profile.env, command, args⟩ SUDO_OK_SENTINEL
        | .error _ => .ended 1 NO_WORKING_DIRECTORY_MARKER)

/-! ### The script -/

section Script
open PosixShell
variable {enter : Bytes → Except Bytes Dir} {cwd : Dir} {path word : Bytes} {rest : List Bytes}

/-- The command that prints a word on standard error from its halves. -/
def reporting (word : Bytes) : Compound :=
  .simple [Word.bare printfName, Word.single (asBytes "%s%s"), Word.single (word.splitAt (word.length / 2)).1,
    Word.single (word.splitAt (word.length / 2)).2] [⟨none, [62, 38], Word.bare [50]⟩]

theorem readScript_descentScript : readScript descentScript = some
    (.andThen
      (.orElse
        (.simple [Word.bare cdName, Word.bare endOfOptions, [.parameter 49 .double]]
          [⟨some [50], [62], Word.bare (asBytes "/dev/null")⟩])
        (.group (.andThen (reporting NO_WORKING_DIRECTORY_MARKER) (.simple [Word.bare exitName, Word.bare [49]] []))))
      (.andThen (.simple [Word.bare shiftName] [])
        (.andThen (reporting SUDO_OK_SENTINEL)
          (.simple [Word.bare execName, Word.bare ENV, Word.bare [45, 105], [.parameter 64 .double]] [])))) := by
  decide +kernel

theorem perform_reporting (shell : Shell Dir) (word : Bytes) : shell.perform enter (reporting word) =
    some (.running { shell with status := 0, stderr := shell.stderr ++ word }) := by
  have hsinks : [⟨none, [62, 38], Word.bare [50]⟩].foldlM Sinks.redirect ⟨.output, .error⟩ = some ⟨.error, .error⟩ := rfl
  have hformat : formatted (asBytes "%s%s") [word.take (word.length / 2), word.drop (word.length / 2)] = some word := by
    have hbytes : asBytes "%s%s" = [37, 115, 37, 115] := by decide +kernel
    simp [hbytes, formatted]
  have hfields : shell.fields [Word.bare printfName, Word.single (asBytes "%s%s"),
      Word.single (word.splitAt (word.length / 2)).1, Word.single (word.splitAt (word.length / 2)).2] =
      some [printfName, asBytes "%s%s", word.take (word.length / 2), word.drop (word.length / 2)] := by
    have hname : shell.expand (Word.bare printfName) = some [printfName] := rfl
    simp [Shell.fields, hname, expand_single, List.splitAt_eq]
  have hname : printfName ≠ execName := by decide
  exact (perform_simple hsinks hfields fun h => absurd h hname).trans (builtin_printf hformat rfl)

/-- The end of the script: the rest of the words is handed to `env`. -/
theorem perform_exec (shell : Shell Dir) :
    shell.perform enter (.simple [Word.bare execName, Word.bare ENV, Word.bare [45, 105], [.parameter 64 .double]] []) =
      some (.over (.becomes shell.cwd (ENV :: [45, 105] :: shell.params) shell.stderr)) := by
  have hname : shell.expand (Word.bare execName) = some [execName] := rfl
  have henv : shell.expand (Word.bare ENV) = some [ENV] := expand_bare (by decide +kernel)
  have hoption : shell.expand (Word.bare [45, 105]) = some [[45, 105]] := rfl
  have hparams : shell.expand [.parameter 64 .double] = some shell.params := rfl
  have hfields : shell.fields [Word.bare execName, Word.bare ENV, Word.bare [45, 105], [.parameter 64 .double]] =
      some (execName :: ENV :: [45, 105] :: shell.params) := by
    simp [Shell.fields, hname, henv, hoption, hparams]
  exact (perform_simple rfl hfields fun _ => rfl).trans (builtin_exec (List.cons_ne_nil _ _))

/-- The script enters the directory it is handed and hands `env` the rest, or reports the directory and ends. -/
theorem performScript_descent (hpath : path.head? = some 47) :
    performScript enter cwd descentScript (path :: rest) = some (match enter path with
      | .ok dir => .becomes dir (ENV :: [45, 105] :: rest) SUDO_OK_SENTINEL
      | .error _ => .ends 1 NO_WORKING_DIRECTORY_MARKER) := by
  have hcd (shell : Shell Dir) : shell.fields [Word.bare cdName, Word.bare endOfOptions, [.parameter 49 .double]] =
      some [cdName, endOfOptions, shell.params.getD 0 []] := rfl
  have hquiet : [⟨some [50], [62], Word.bare (asBytes "/dev/null")⟩].foldlM Sinks.redirect ⟨.output, .error⟩ =
      some ⟨.output, .nowhere⟩ := by decide +kernel
  have hname : cdName ≠ execName := by decide
  have hfirst := @perform_simple Dir enter ⟨cwd, path :: rest, 0, []⟩ _ _ _ _ _ hquiet (hcd _) fun h => absurd h hname
  rw [performScript, readScript_descentScript, Option.bind_eq_bind, Option.bind_some]
  rcases henter : enter path with complaint | dir
  · have hfailed := hfirst.trans (builtin_cd_quiet hpath henter rfl)
    have hexit := @perform_simple Dir enter ⟨cwd, path :: rest, 0, [] ++ NO_WORKING_DIRECTORY_MARKER⟩ ⟨.output, .error⟩
      [Word.bare exitName, Word.bare [49]] [] exitName [[49]] rfl rfl fun _ => rfl
    have hreporting := @perform_reporting Dir enter ⟨cwd, path :: rest, 1, []⟩ NO_WORKING_DIRECTORY_MARKER
    have hreported := (perform_group _).trans
      ((perform_andThen_running hreporting).trans (hexit.trans (builtin_exit (by decide) rfl)))
    rw [perform_andThen_over ((perform_orElse_failed hfailed Nat.one_ne_zero).trans hreported)]
    rfl
  · have hentered := hfirst.trans (builtin_cd hpath henter)
    have hshift := @perform_simple Dir enter ⟨dir, path :: rest, 0, []⟩ ⟨.output, .error⟩ [Word.bare shiftName] []
      shiftName [] rfl rfl fun _ => rfl
    rw [perform_andThen_running (perform_orElse_done hentered rfl),
      perform_andThen_running (hshift.trans (builtin_shift rfl)), perform_andThen_running (perform_reporting _ _),
      perform_exec]
    rfl

end Script

/-! ### What the checks leave -/

section Checks
variable {command name : Bytes} {args : List Bytes} {profile : DescentProfile}

/-- What a descent's words are once they passed. -/
structure Checked (command : Bytes) (profile : DescentProfile) : Prop where
  command_absolute : command.head? = some 47
  command_plain : 61 ∉ command
  names : ∀ pair ∈ profile.env, isEnvName pair.1
  distinct : (profile.env.map Prod.fst).Nodup
  cwd_absolute : profile.cwd.head? = some 47

theorem checked_of_checkDescent (h : checkDescent command args profile = .ok ()) : Checked command profile := by
  unfold checkDescent at h
  split at h
  · cases h
  rename_i hcommand
  simp only [isAbsoluteAndPlain, Bool.or_eq_true, Bool.not_eq_true', not_or, Bool.and_eq_false_iff, Bool.not_eq_true,
    Bool.not_eq_false', beq_eq_false_iff_ne, ne_eq] at hcommand
  obtain ⟨⟨habsolute, hplain⟩, -⟩ := hcommand
  rcases hargs : args.findIdx? holdsOutcomeWord with _ | index
  · rw [hargs, Option.elim_none] at h
    obtain ⟨units, henv, h⟩ := Checks.bind_ok h
    obtain ⟨hnames, -, hdistinct, -⟩ := Checks.collectDistinct_ok henv
    split at h
    · cases h
    · rename_i hcwd
      refine ⟨by simpa using habsolute, by simpa using hplain, fun pair hpair => ?_, hdistinct, ?_⟩
      · have hname := hnames pair hpair
        unfold checkEnvName at hname
        by_contra hnot
        rw [if_neg hnot] at hname
        cases hname
      · by_contra hnot
        exact hcwd (.inl hnot)
  · rw [hargs] at h
    cases h

theorem mem_envName {b : UInt8} (h : isEnvName name) (hb : b ∈ name) : isAlphanumericByte b ∨ b = 95 := by
  rcases name with _ | ⟨first, rest⟩
  · cases hb
  · simp only [isEnvName, Bool.and_eq_true, Bool.or_eq_true, decide_eq_true_eq, List.all_eq_true] at h
    rcases List.mem_cons.mp hb with rfl | hb
    · rcases h.1 with hfirst | hfirst
      · exact .inl (by simp [isAlphanumericByte, hfirst])
      · exact .inr hfirst
    · exact h.2 b hb

theorem envName_plain (h : isEnvName name) : 61 ∉ name := by
  intro hb
  exact absurd (mem_envName h hb) (by decide)

theorem envName_ne_nil (h : isEnvName name) : name ≠ [] := by
  rintro rfl
  cases h

/-- Behind the directory, the words begin with no option. -/
theorem head?_operands (h : Checked command profile) (args : List Bytes) :
    (profile.env.map (fun pair => pair.1 ++ 61 :: pair.2) ++ command :: args).head?.bind List.head? ≠ some 45 := by
  rcases henv : profile.env with _ | ⟨pair, pairs⟩
  · simp [h.command_absolute]
  · have hname := h.names pair (henv ▸ List.mem_cons_self)
    obtain ⟨first, rest, hcons⟩ := List.exists_cons_of_ne_nil (envName_ne_nil hname)
    intro hdash
    simp only [List.map_cons, List.cons_append, List.head?_cons, Option.bind_some, hcons, Option.some.injEq] at hdash
    subst hdash
    have hmem : 45 ∈ pair.1 := by simp [hcons]
    exact absurd (mem_envName hname hmem) (by decide)

/-- `env` takes the words for what they were put together from. -/
theorem call_descent (h : Checked command profile) (inherited : List (Bytes × Bytes)) :
    EnvUtility.call inherited
        ([45, 105] :: (profile.env.map (fun pair => pair.1 ++ 61 :: pair.2) ++ command :: args)) =
      some ⟨profile.env, command, args⟩ := by
  have hoption : EnvUtility.call inherited
      ([45, 105] :: (profile.env.map (fun pair => pair.1 ++ 61 :: pair.2) ++ command :: args)) =
      EnvUtility.call [] (profile.env.map (fun pair => pair.1 ++ 61 :: pair.2) ++ command :: args) := rfl
  have hoperands : EnvUtility.call [] (profile.env.map (fun pair => pair.1 ++ 61 :: pair.2) ++ command :: args) =
      EnvUtility.operands [] (profile.env.map (fun pair => pair.1 ++ 61 :: pair.2) ++ command :: args) := by
    have hhead := head?_operands h args
    generalize profile.env.map (fun pair => pair.1 ++ 61 :: pair.2) ++ command :: args = words at hhead ⊢
    rcases words with _ | ⟨word, words⟩
    · rfl
    · exact EnvUtility.call_operands hhead
  have hnames : ∀ pair ∈ profile.env, 61 ∉ pair.1 := fun pair hpair => envName_plain (h.names pair hpair)
  rw [hoption, hoperands, EnvUtility.operands_pairs hnames (by simpa using h.distinct),
    EnvUtility.operands_utility h.command_plain, List.nil_append]

theorem Checked.descends (h : Checked command profile) (args : List Bytes) :
    Descends command args profile (descentOperands command args profile) := by
  refine ⟨if_pos (List.mem_of_mem_head? h.command_absolute), fun Dir enter cwd inherited => ?_⟩
  rw [descend, descentOperands, performScript_descent h.cwd_absolute, Option.bind_eq_bind, Option.bind_some]
  rcases enter profile.cwd with complaint | dir
  · rfl
  · simp only [if_true, call_descent h]
    rfl

end Checks

/-- Every descent that is built has its words read back as what it was asked for; and where the words would be read as
anything else, nothing is built. -/
theorem descentCommand_descends (who : Descent) (command : Bytes) (args : List Bytes) (profile : DescentProfile) :
    (∀ built, InDaemonExecutor.descentCommand who command args profile = .ok built →
      built.argv = InDaemonExecutor.sudoDescent who ++ [SUPERVISOR_SHELL, dashC, descentScript, DESCENT_ARG0] ++
        descentOperands command args profile ∧
      Descends command args profile (descentOperands command args profile)) ∧
    (¬Descends command args profile (descentOperands command args profile) →
      ∃ refusal, InDaemonExecutor.descentCommand who command args profile = .error refusal) := by
  rcases hchecked : checkDescent command args profile with refusal | ⟨⟩
  · have hrefused : InDaemonExecutor.descentCommand who command args profile = .error refusal := by
      rw [InDaemonExecutor.descentCommand, hchecked]
      rfl
    exact ⟨fun built hbuilt => absurd (hrefused.symm.trans hbuilt) nofun, fun _ => ⟨refusal, hrefused⟩⟩
  · have hdescends := (checked_of_checkDescent hchecked).descends args
    refine ⟨fun built hbuilt => ?_, fun hnot => absurd hdescends hnot⟩
    rw [InDaemonExecutor.descentCommand, hchecked] at hbuilt
    obtain rfl := Except.ok.inj hbuilt
    exact ⟨rfl, hdescends⟩

/-- A service's own command, in its own directory. -/
def sampleProfile : DescentProfile where
  env := [(asBytes "HOME", asBytes "/var/lib/clumit"), (asBytes "OPTS", asBytes "-a=b")]
  cwd := asBytes "/var/lib/clumit"

theorem descentCommand_descends_sample :
    Descends (asBytes "/usr/bin/report") [asBytes "A=b"] sampleProfile
      (descentOperands (asBytes "/usr/bin/report") [asBytes "A=b"] sampleProfile) :=
  ((descentCommand_descends (.service .security) (asBytes "/usr/bin/report") [asBytes "A=b"] sampleProfile).1
    ⟨[SUDO, asBytes "-u", asBytes "clumit-security", SUPERVISOR_SHELL, dashC, descentScript, DESCENT_ARG0,
      asBytes "/var/lib/clumit", asBytes "HOME=/var/lib/clumit", asBytes "OPTS=-a=b", asBytes "/usr/bin/report",
      asBytes "A=b"], asBytes "/"⟩ (by decide +kernel)).2

end DeployCore
