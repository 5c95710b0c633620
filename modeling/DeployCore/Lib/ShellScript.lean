import DeployCore.Lib.PosixShell

/-! # Running a script as a POSIX shell does

A script of simple commands, run one after the other: `cd`, `shift` and `exec`, which act on the shell itself. What `cd`
of an operand comes to is a parameter. A script with any other command is refused, never misrun. -/

namespace PosixShell

/-- A shell that runs a script: where it stands, its positional parameters, the last status, and what its commands
wrote to standard error. -/
structure Shell (Dir : Type) where
  cwd : Dir
  params : List Text
  status : Nat
  stderr : Text

/-- What becomes of a shell: another program in its place, or its end. -/
inductive Fate (Dir : Type)
  | becomes (cwd : Dir) (argv : List Text) (stderr : Text)
  | ends (status : Nat) (stderr : Text)

def cdName : Text := [99, 100]
def shiftName : Text := [115, 104, 105, 102, 116]
def execName : Text := [101, 120, 101, 99]

variable {Dir : Type}

/-- The fields of a word: every parameter of a quoted `$@`, one of a quoted `$1` to `$9`. -/
def Shell.expand (shell : Shell Dir) : Word → Option (List Text)
  | [.parameter 64 .double] => some shell.params
  | [.parameter n .double] =>
    if 49 ≤ n ∧ n ≤ 57 then some [shell.params.getD (n.toNat - 49) []] else (Word.field shell.status [.parameter n .double]).map ([·])
  | w => (w.field shell.status).map ([·])

def Shell.fields (shell : Shell Dir) (words : List Word) : Option (List Text) :=
  (words.mapM shell.expand).map List.flatten

/-- The rest of a script, from where a shell stands. -/
def Shell.run (cd : Dir → Text → Except Text Dir) (shell : Shell Dir) : List SimpleCommand → Option (Fate Dir)
  | [] => some (.ends shell.status shell.stderr)
  | cmd :: rest =>
    match cmd.redirects, shell.fields cmd.words with
    | [], some (name :: operands) =>
      if name = cdName then
        match operands with
        | [path] =>
          match cd shell.cwd path with
          | .ok cwd => Shell.run cd { shell with cwd, status := 0 } rest
          | .error complaint => Shell.run cd { shell with status := 1, stderr := shell.stderr ++ complaint } rest
        | _ => none
      else if name = shiftName then
        match operands, shell.params with
        | [], _ :: params => Shell.run cd { shell with params, status := 0 } rest
        | _, _ => none
      else if name = execName ∧ operands ≠ [] then some (.becomes shell.cwd operands shell.stderr)
      else none
    | _, _ => none

/-- `sh -c script name params…`. -/
def runScript (cd : Dir → Text → Except Text Dir) (cwd : Dir) (script : Text) (params : List Text) : Option (Fate Dir) :=
  (read script).bind (Shell.run cd ⟨cwd, params, 0, []⟩)

end PosixShell
