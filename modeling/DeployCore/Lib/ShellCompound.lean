import DeployCore.Lib.ShellScript

/-! # Or-lists and groups of a POSIX shell script

Commands one after the other, a command that runs where the one before it failed, and commands in braces; with `printf`
and `exit` among the commands, and with the two redirections that send what is written nowhere, or to standard error. A
script with anything else is refused, never misread or misrun. -/

namespace PosixShell

/-! ### Reading -/

/-- A token, or the digits before a redirection. -/
inductive Lexeme
  | token (t : Token)
  | descriptor (digits : Text)
  deriving DecidableEq

/-- The lexemes a byte ends, and where it leaves the reader. -/
def lexStep (m : Mode) (b : UInt8) : Option (List Lexeme × Mode) :=
  let tokens := (step m b).map fun (out, m) => (out.map Lexeme.token, m)
  match m with
  | .bare w =>
    if w ≠ [] ∧ isIoNumber w b then
      w.plain.map fun digits => ([.descriptor digits], .operator [b])
    else tokens
  | _ => tokens

def lexScan : Mode → Text → Option (List Lexeme)
  | m, [] => m.finish.map fun out => out.map Lexeme.token
  | m, b :: rest => do
    let (out, m) ← lexStep m b
    let more ← lexScan m rest
    some (out ++ more)

def lexemes (script : Text) : Option (List Lexeme) := lexScan .between script

structure Redirect where
  descriptor : Option Text
  operator : Text
  target : Word
  deriving DecidableEq

inductive Compound
  | simple (words : List Word) (redirects : List Redirect)
  | group (body : Compound)
  | orElse (first second : Compound)
  | andThen (first second : Compound)
  deriving DecidableEq

/-- The words and redirections of a simple command, and the lexemes behind it. -/
def readSimple (words : List Word) (redirects : List Redirect) : List Lexeme → Option (Compound × List Lexeme)
  | .token (.word w) :: rest => readSimple (words ++ [w]) redirects rest
  | .descriptor digits :: .token (.operator op) :: .token (.word w) :: rest =>
    if op ∈ redirections then readSimple words (redirects ++ [⟨some digits, op, w⟩]) rest else none
  | .token (.operator op) :: .token (.word w) :: rest =>
    if op ∈ redirections then readSimple words (redirects ++ [⟨none, op, w⟩]) rest
    else some (.simple words redirects, .token (.operator op) :: .token (.word w) :: rest)
  | .descriptor _ :: _ => none
  | rest => some (.simple words redirects, rest)

/-- `;` and the end of a line. -/
def isTerminator (op : Text) : Bool := op = [59] || op = [10]

/-- Whether a list ends here: at the end of the script, or before a closing brace. -/
def endsList : List Lexeme → Bool
  | [] => true
  | .token (.word w) :: _ => w.plain = some [125]
  | _ => false

mutual

/-- A simple command or a group. -/
def readCommand : Nat → List Lexeme → Option (Compound × List Lexeme)
  | fuel + 1, .token (.word w) :: rest =>
    if w.plain = some [123] then do
      let (body, rest) ← readList fuel rest
      match rest with
      | .token (.word close) :: rest => if close.plain = some [125] then some (.group body, rest) else none
      | _ => none
    else if w.isReserved || w.isAssignment then none
    else readSimple [w] [] rest
  | _, _ => none

/-- Commands with `||` between them. -/
def readOr : Nat → List Lexeme → Option (Compound × List Lexeme)
  | fuel + 1, lexemes => do
    let (first, rest) ← readCommand fuel lexemes
    readOrBehind fuel first rest
  | _, _ => none

def readOrBehind : Nat → Compound → List Lexeme → Option (Compound × List Lexeme)
  | fuel + 1, first, .token (.operator [124, 124]) :: rest => do
    let (second, rest) ← readCommand fuel rest
    readOrBehind fuel (.orElse first second) rest
  | _, first, rest => some (first, rest)

/-- Or-lists, each with a terminator behind it, but for the last. -/
def readList : Nat → List Lexeme → Option (Compound × List Lexeme)
  | fuel + 1, lexemes => do
    let (first, rest) ← readOr fuel lexemes
    match rest with
    | .token (.operator op) :: rest =>
      if isTerminator op then
        if endsList rest then some (first, rest)
        else do
          let (more, rest) ← readList fuel rest
          some (.andThen first more, rest)
      else none
    | rest => if endsList rest then some (first, rest) else none
  | _, _ => none

end

/-- The commands of a whole script. -/
def readScript (script : Text) : Option Compound := do
  let lexemes ← lexemes script
  let (body, rest) ← readList (4 * lexemes.length + 4) lexemes
  if rest = [] then some body else none

/-! ### Running -/

/-- Where what is written to a descriptor goes. -/
inductive Sink
  | output
  | error
  | nowhere
  deriving DecidableEq

structure Sinks where
  output : Sink
  error : Sink
  deriving DecidableEq

/-- What a redirection makes of the descriptors: `2>/dev/null`, and `>&2`. -/
def Sinks.redirect (sinks : Sinks) (r : Redirect) : Option Sinks := do
  let target ← r.target.field 0
  if r.descriptor = some [50] ∧ r.operator = [62] ∧ target = [47, 100, 101, 118, 47, 110, 117, 108, 108] then
    some { sinks with error := .nowhere }
  else if r.descriptor = none ∧ r.operator = [62, 38] ∧ target = [50] then some { sinks with output := sinks.error }
  else none

def printfName : Text := [112, 114, 105, 110, 116, 102]
def endOfOptions : Text := [45, 45]

/-- What `printf` writes of a format in which only `%s` converts, and which takes up its operands. -/
def formatted : Text → List Text → Option Text
  | [], [] => some []
  | 37 :: 115 :: format, operand :: operands => (formatted format operands).map (operand ++ ·)
  | b :: format, operands => if b = 37 ∨ b = 92 then none else (formatted format operands).map (b :: ·)
  | [], _ :: _ => none

/-- The directory that the operands of `cd` name; an option, `-` and a path that is not absolute are not described. -/
def cdOperand : List Text → Option Text
  | [path] => if path.head? = some 47 then some path else none
  | [options, path] => if options = endOfOptions ∧ path.head? = some 47 then some path else none
  | _ => none

/-- How a command leaves the shell that runs it. -/
inductive Left (Dir : Type)
  | running (shell : Shell Dir)
  | over (fate : Fate Dir)

variable {Dir : Type}

/-- A shell that wrote to a sink; what goes to standard output is not described. -/
def Shell.write (shell : Shell Dir) (sink : Sink) (text : Text) : Option (Shell Dir) :=
  match sink with
  | .output => none
  | .error => some { shell with stderr := shell.stderr ++ text }
  | .nowhere => some shell

/-- A command of the shell's own, by its fields, where `enter` is what a change into an absolute path comes to. -/
def Shell.builtin (enter : Text → Except Text Dir) (shell : Shell Dir) (sinks : Sinks) (name : Text)
    (operands : List Text) : Option (Left Dir) :=
  if name = cdName then do
    let path ← cdOperand operands
    match enter path with
    | .ok cwd => some (.running { shell with cwd, status := 0 })
    | .error complaint => (Shell.write { shell with status := 1 } sinks.error complaint).map .running
  else if name = printfName then do
    let text ← match operands with
      | format :: operands => formatted format operands
      | [] => none
    (Shell.write { shell with status := 0 } sinks.output text).map .running
  else if name = shiftName then
    match operands, shell.params with
    | [], _ :: params => some (.running { shell with params, status := 0 })
    | _, _ => none
  else if name = exitName then do
    let status ← match operands with
      | [digits] => if digits = [] then none else Decimal.read 256 0 digits
      | _ => none
    some (.over (.ends status shell.stderr))
  else if name = execName ∧ operands ≠ [] then some (.over (.becomes shell.cwd operands shell.stderr))
  else none

@[grind =]
def Shell.perform (enter : Text → Except Text Dir) (shell : Shell Dir) : Compound → Option (Left Dir)
  | .simple words redirects => do
    let sinks ← redirects.foldlM Sinks.redirect ⟨.output, .error⟩
    let fields ← shell.fields words
    match fields with
    | name :: operands =>
      -- a program that takes the shell's place keeps its descriptors
      if name = execName ∧ redirects ≠ [] then none else shell.builtin enter sinks name operands
    | [] => none
  | .group body => shell.perform enter body
  | .orElse first second => do
    match ← shell.perform enter first with
    | .running shell => if shell.status = 0 then some (.running shell) else shell.perform enter second
    | .over fate => some (.over fate)
  | .andThen first second => do
    match ← shell.perform enter first with
    | .running shell => shell.perform enter second
    | .over fate => some (.over fate)

/-- What becomes of the shell of `sh -c script name params…`. -/
def performScript (enter : Text → Except Text Dir) (cwd : Dir) (script : Text) (params : List Text) :
    Option (Fate Dir) := do
  let body ← readScript script
  match ← (Shell.mk cwd params 0 []).perform enter body with
  | .running shell => some (.ends shell.status shell.stderr)
  | .over fate => some fate

/-! ### Fields -/

section
variable {shell : Shell Dir} {how : Quoting} {text : Text} {status : Nat}

/-- Bytes that all stand for themselves are a field. -/
theorem field_map (h : ∀ b ∈ text, Piece.text status (.byte b how) = some [b]) :
    Word.field status (text.map (.byte · how)) = some text := by
  induction text with
  | nil => rfl
  | cons b text ih =>
    obtain ⟨hb, htext⟩ := List.forall_mem_cons.mp h
    obtain ⟨parts, hparts, hflat⟩ := Option.map_eq_some_iff.mp (ih htext)
    rw [List.map_cons, Word.field, List.mapM_cons, hb, hparts]
    simp [hflat]

theorem expand_map (h : ∀ b ∈ text, Piece.text shell.status (.byte b how) = some [b]) :
    shell.expand (text.map (.byte · how)) = some [text] := by
  rcases text with _ | ⟨b, text⟩
  · rfl
  · have hexpand : shell.expand ((b :: text).map (.byte · how)) =
        (Word.field shell.status ((b :: text).map (.byte · how))).map ([·]) := rfl
    rw [hexpand, field_map h]
    rfl

theorem expand_single (shell : Shell Dir) (text : Text) : shell.expand (Word.single text) = some [text] :=
  expand_map fun _ _ => rfl

theorem expand_bare (h : ∀ b ∈ text, b ∉ [42, 63, 91, 123, 125, 126]) : shell.expand (Word.bare text) = some [text] :=
  expand_map fun b hb => if_neg (h b hb)

end

/-! ### Rules -/

section Rules
variable {enter : Text → Except Text Dir} {shell shell' : Shell Dir} {sinks : Sinks} {words : List Word}
  {redirects : List Redirect} {name path text : Text} {operands params : List Text} {first second : Compound}
  {fate : Fate Dir} {cwd : Dir} {status : Nat}

theorem perform_simple (hsinks : redirects.foldlM Sinks.redirect ⟨.output, .error⟩ = some sinks)
    (hfields : shell.fields words = some (name :: operands)) (hexec : name = execName → redirects = []) :
    shell.perform enter (.simple words redirects) = shell.builtin enter sinks name operands := by
  have hkept : ¬(name = execName ∧ redirects ≠ []) := fun h => h.2 (hexec h.1)
  rw [Shell.perform, hsinks, hfields]
  simp only [Option.bind_eq_bind, Option.bind_some, if_neg hkept]

theorem perform_andThen_running (h : shell.perform enter first = some (.running shell')) :
    shell.perform enter (.andThen first second) = shell'.perform enter second := by
  rw [Shell.perform, h]
  rfl

theorem perform_andThen_over (h : shell.perform enter first = some (.over fate)) :
    shell.perform enter (.andThen first second) = some (.over fate) := by
  rw [Shell.perform, h]
  rfl

theorem perform_group (body : Compound) : shell.perform enter (.group body) = shell.perform enter body := by
  rw [Shell.perform]

theorem perform_orElse_done (h : shell.perform enter first = some (.running shell')) (hstatus : shell'.status = 0) :
    shell.perform enter (.orElse first second) = some (.running shell') := by
  rw [Shell.perform, h]
  exact if_pos hstatus

theorem perform_orElse_failed (h : shell.perform enter first = some (.running shell')) (hstatus : shell'.status ≠ 0) :
    shell.perform enter (.orElse first second) = shell'.perform enter second := by
  rw [Shell.perform, h]
  exact if_neg hstatus

attribute [local simp] Shell.builtin Shell.write cdOperand formatted

theorem builtin_cd (hpath : path.head? = some 47) (henter : enter path = .ok cwd) :
    shell.builtin enter sinks cdName [endOfOptions, path] = some (.running { shell with cwd, status := 0 }) := by
  simp [hpath, henter]

/-- A `cd` that fails with its complaint sent nowhere leaves a status alone. -/
theorem builtin_cd_quiet {complaint : Text} (hpath : path.head? = some 47) (henter : enter path = .error complaint)
    (hquiet : sinks.error = .nowhere) :
    shell.builtin enter sinks cdName [endOfOptions, path] = some (.running { shell with status := 1 }) := by
  simp [hpath, henter, hquiet]

theorem builtin_printf {format : Text} (hformat : formatted format operands = some text)
    (herror : sinks.output = .error) :
    shell.builtin enter sinks printfName (format :: operands) =
      some (.running { shell with status := 0, stderr := shell.stderr ++ text }) := by
  have hname : printfName ≠ cdName := by decide
  simp [hname, hformat, herror]

theorem builtin_shift (hparams : shell.params = name :: params) :
    shell.builtin enter sinks shiftName [] = some (.running { shell with params, status := 0 }) := by
  have hnames : shiftName ≠ cdName ∧ shiftName ≠ printfName := by decide
  simp [hnames, hparams]

theorem builtin_exit (hne : text ≠ []) (hstatus : Decimal.read 256 0 text = some status) :
    shell.builtin enter sinks exitName [text] = some (.over (.ends status shell.stderr)) := by
  have hnames : exitName ≠ cdName ∧ exitName ≠ printfName ∧ exitName ≠ shiftName := by decide
  simp [hnames, hne, hstatus]

theorem builtin_exec (hne : operands ≠ []) :
    shell.builtin enter sinks execName operands = some (.over (.becomes shell.cwd operands shell.stderr)) := by
  have hnames : execName ≠ cdName ∧ execName ≠ printfName ∧ execName ≠ shiftName ∧ execName ≠ exitName := by decide
  simp [hnames, hne]

end Rules

end PosixShell
