import DeployCore.Lib.Decimal

/-! # Reading a command line as a POSIX shell does

The tokens of a line, with how each byte of a word was read, the simple commands the tokens make up, and the argument
vectors these expand to. What is outside this part of the language (an expansion other than a special parameter's, a
compound command, a here-document, a line continuation) is refused, never misread. -/

namespace PosixShell

abbrev Text := List UInt8

/-- How a byte of a word was read. -/
inductive Quoting
  | bare
  | escaped
  | single
  | double
  deriving DecidableEq

/-- A part of a word: a byte, or a special parameter to be expanded. -/
inductive Piece
  | byte (b : UInt8) (how : Quoting)
  | parameter (name : UInt8) (how : Quoting)
  deriving DecidableEq

abbrev Word := List Piece

inductive Token
  | word (w : Word)
  | operator (op : Text)
  deriving DecidableEq

/-- The control and the redirection operators, every beginning of one among them. -/
def operators : List Text :=
  [[10], [38], [38, 38], [59], [59, 59], [124], [124, 124], [40], [41], [60], [60, 60], [60, 60, 45], [60, 38],
    [60, 62], [62], [62, 62], [62, 38], [62, 124]]

def isBlank (b : UInt8) : Bool := b = 32 || b = 9

/-- `@ * # ? - $ !` and the digits. -/
def isSpecialParameter (b : UInt8) : Bool := b ∈ [64, 42, 35, 63, 45, 36, 33] || (48 ≤ b && b ≤ 57)

/-- Where the reader is: between tokens, in a comment, in an operator, or in a word read so far. -/
inductive Mode
  | between
  | comment
  | operator (op : Text)
  | bare (w : Word)
  | escape (w : Word)
  | single (w : Word)
  | double (w : Word)
  | dollar (how : Quoting) (w : Word)
  deriving DecidableEq

/-- A byte of a word outside quotes. -/
def wordStep (w : Word) : UInt8 → Option Mode
  | 39 => some (.single w)
  | 34 => some (.double w)
  | 92 => some (.escape w)
  | 36 => some (.dollar .bare w)
  | 96 => none
  | b => some (.bare (w ++ [.byte b .bare]))

/-- A byte where no token has begun. -/
def startStep (b : UInt8) : Option Mode :=
  if isBlank b then some .between
  else if [b] ∈ operators then some (.operator [b])
  else if b = 35 then some .comment
  else wordStep [] b

/-- Digits right before a redirection are its descriptor. -/
def isIoNumber (w : Word) (b : UInt8) : Bool :=
  (b = 60 || b = 62) && w.all fun
    | .byte d .bare => 48 ≤ d && d ≤ 57
    | _ => false

/-- The tokens a byte ends, and where it leaves the reader. -/
def step : Mode → UInt8 → Option (List Token × Mode)
  | .between, b => (startStep b).map ([], ·)
  | .comment, b => some ([], if b = 10 then .operator [10] else .comment)
  | .operator op, b =>
    if op ++ [b] ∈ operators then some ([], .operator (op ++ [b])) else (startStep b).map ([.operator op], ·)
  | .bare w, b =>
    if isBlank b then some ([.word w], .between)
    else if [b] ∈ operators then if isIoNumber w b then none else some ([.word w], .operator [b])
    else (wordStep w b).map ([], ·)
  | .escape w, b => if b = 10 then none else some ([], .bare (w ++ [.byte b .escaped]))
  | .single w, b => some ([], if b = 39 then .bare w else .single (w ++ [.byte b .single]))
  | .double w, b =>
    if b = 34 then some ([], .bare w)
    else if b = 36 then some ([], .dollar .double w)
    else if b = 92 ∨ b = 96 then none
    else some ([], .double (w ++ [.byte b .double]))
  | .dollar how w, b =>
    if isSpecialParameter b then
      let w := w ++ [.parameter b how]
      some ([], if how = .double then .double w else .bare w)
    else none

def scan : Mode → Text → Option (List Token × Mode)
  | m, [] => some ([], m)
  | m, b :: rest => do
    let (out, m) ← step m b
    let (more, m) ← scan m rest
    some (out ++ more, m)

/-- The token the end of the line ends; a quote left open is refused. -/
def Mode.finish : Mode → Option (List Token)
  | .between | .comment => some []
  | .operator op => some [.operator op]
  | .bare w => some [.word w]
  | .escape _ | .single _ | .double _ | .dollar _ _ => none

def tokens (line : Text) : Option (List Token) := do
  let (out, m) ← scan .between line
  let last ← m.finish
  some (out ++ last)

/-! ### Simple commands -/

structure SimpleCommand where
  words : List Word
  redirects : List (Text × Word)
  deriving DecidableEq

namespace Word

/-- The text of a word no byte of which is quoted. -/
def plain (w : Word) : Option Text :=
  w.mapM fun
    | .byte b .bare => some b
    | _ => none

/-- `! { } case do done elif else esac fi for if in then until while`. -/
def reservedWords : List Text :=
  [[33], [123], [125], [99, 97, 115, 101], [100, 111], [100, 111, 110, 101], [101, 108, 105, 102],
    [101, 108, 115, 101], [101, 115, 97, 99], [102, 105], [102, 111, 114], [105, 102], [105, 110],
    [116, 104, 101, 110], [117, 110, 116, 105, 108], [119, 104, 105, 108, 101]]

def isReserved (w : Word) : Bool := w.plain.any (· ∈ reservedWords)

/-- A bare `=` behind bare bytes alone makes a first word an assignment. -/
def isAssignment : Word → Bool
  | [] => false
  | .byte b .bare :: rest => b = 61 || isAssignment rest
  | _ => false

end Word

/-- The redirection operators, but for the here-documents. -/
def redirections : List Text := [[60], [62], [62, 62], [60, 38], [62, 38], [60, 62], [62, 124]]

/-- The commands the tokens make up, behind the words and redirections of the one in hand. A `;` or the end of a line
ends it. -/
def commandsFrom (cmd : SimpleCommand) : List Token → Option (List SimpleCommand)
  | [] => some (if cmd = ⟨[], []⟩ then [] else [cmd])
  | .word w :: rest =>
    if cmd.words = [] ∧ (w.isReserved ∨ w.isAssignment) then none
    else commandsFrom { cmd with words := cmd.words ++ [w] } rest
  | .operator op :: rest =>
    if op = [59] ∨ op = [10] then
      if cmd = ⟨[], []⟩ then if op = [10] then commandsFrom cmd rest else none
      else (commandsFrom ⟨[], []⟩ rest).map (cmd :: ·)
    else if op ∈ redirections then
      match rest with
      | .word w :: rest => commandsFrom { cmd with redirects := cmd.redirects ++ [(op, w)] } rest
      | _ => none
    else none

/-- The simple commands of a line, read one after the other. -/
def read (line : Text) : Option (List SimpleCommand) := (tokens line).bind (commandsFrom ⟨[], []⟩)

/-! ### Running -/

/-- What a piece expands to behind a command of the given status: a byte that would begin a pattern, a tilde prefix or
a brace expansion is refused, and so is every parameter but a quoted `$?`. -/
def Piece.text (status : Nat) : Piece → Option Text
  | .byte b .bare => if b ∈ [42, 63, 91, 123, 125, 126] then none else some [b]
  | .byte b _ => some [b]
  | .parameter 63 .double => some (Decimal.write status)
  | .parameter _ _ => none

/-- The one field a word expands to. -/
def Word.field (status : Nat) (w : Word) : Option Text := (w.mapM (Piece.text status)).map List.flatten

structure Invocation where
  argv : List Text
  redirects : List (Text × Text)
  deriving DecidableEq

def SimpleCommand.invocation (status : Nat) (cmd : SimpleCommand) : Option Invocation := do
  let argv ← cmd.words.mapM (Word.field status)
  let redirects ← cmd.redirects.mapM fun (op, w) => (w.field status).map (op, ·)
  some ⟨argv, redirects⟩

/-- `exit`. -/
def exitName : Text := [101, 120, 105, 116]

/-- `break : continue . eval exec export readonly return set shift times trap unset`: with `exit`, the names that act
on the shell itself and start no program. -/
def specialBuiltins : List Text :=
  [[98, 114, 101, 97, 107], [58], [99, 111, 110, 116, 105, 110, 117, 101], [46], [101, 118, 97, 108],
    [101, 120, 101, 99], [101, 120, 112, 111, 114, 116], [114, 101, 97, 100, 111, 110, 108, 121],
    [114, 101, 116, 117, 114, 110], [115, 101, 116], [115, 104, 105, 102, 116], [116, 105, 109, 101, 115],
    [116, 114, 97, 112], [117, 110, 115, 101, 116]]

/-- The invocations of the commands in turn, each behind the status the one before left; `exit` ends the shell, and
what the other special built-ins do is not described. -/
def runFrom (outcome : List Text → Nat) (status : Nat) : List SimpleCommand → Option (List Invocation)
  | [] => some []
  | cmd :: rest => do
    let call ← cmd.invocation status
    let name ← call.argv.head?
    if name = exitName then some []
    else if name ∈ specialBuiltins then none
    else
      let more ← runFrom outcome (outcome call.argv) rest
      some (call :: more)

/-- What a shell that is handed the line runs, where `outcome` is the status each argument vector ends with. -/
def runs (outcome : List Text → Nat) (line : Text) : Option (List Invocation) :=
  (read line).bind (runFrom outcome 0)

/-! ### Pieces of a line -/

section
variable {m m₁ m₂ : Mode} {a b text : Text} {out more : List Token} {w : Word} {cmd : SimpleCommand} {ws : List Word}
  {rest : List Token} {status : Nat}

theorem scan_cons {c : UInt8} (hstep : step m c = some (out, m₁)) (hrest : scan m₁ text = some (more, m₂)) :
    scan m (c :: text) = some (out ++ more, m₂) := by
  simp [scan, hstep, hrest]

theorem scan_append (ha : scan m a = some (out, m₁)) (hb : scan m₁ b = some (more, m₂)) :
    scan m (a ++ b) = some (out ++ more, m₂) := by
  induction a generalizing m out with
  | nil =>
    obtain ⟨rfl, rfl⟩ := Prod.mk.inj (Option.some.inj ha)
    exact hb
  | cons c a ih =>
    obtain ⟨⟨out₁, m'⟩, hstep, ha⟩ := Option.bind_eq_some_iff.mp ha
    obtain ⟨⟨out₂, m''⟩, hrest, ha⟩ := Option.bind_eq_some_iff.mp ha
    obtain ⟨rfl, rfl⟩ := Prod.mk.inj (Option.some.inj ha)
    rw [List.cons_append, List.append_assoc]
    exact scan_cons hstep (ih hrest)

theorem tokens_of_scan (hscan : scan .between text = some (out, m)) (hlast : m.finish = some more) :
    tokens text = some (out ++ more) := by
  simp [tokens, hscan, hlast]

namespace Word

/-- The word a text is read as outside quotes, where it has nothing to quote. -/
def bare (text : Text) : Word := text.map (.byte · .bare)

/-- The word a text is read as between single quotes, where it has none of its own. -/
def single (text : Text) : Word := text.map (.byte · .single)

/-- The word a text is read as where it stands between single quotes, with a backslash for each quote of its own. -/
def quoted (text : Text) : Word := text.map fun b => .byte b (if b = 39 then .escaped else .single)

theorem isAssignment_quoted : (quoted text).isAssignment = false := by
  cases text with
  | nil => rfl
  | cons c text =>
    rw [quoted, List.map_cons]
    split_ifs <;> rfl

theorem isReserved_quoted : (quoted text).isReserved = false := by
  cases text with
  | nil => rfl
  | cons c text =>
    rw [isReserved, plain, quoted, List.map_cons]
    split_ifs <;> rfl

theorem field_quoted : (quoted text).field status = some text := by
  induction text with
  | nil => rfl
  | cons c text ih =>
    obtain ⟨parts, hparts, hflat⟩ := Option.map_eq_some_iff.mp ih
    have hc : Piece.text status (.byte c (if c = 39 then .escaped else .single)) = some [c] := by split_ifs <;> rfl
    rw [quoted, List.map_cons, field, List.mapM_cons, hc]
    rw [quoted] at hparts
    simp [hparts, hflat]

end Word

theorem fields_quoted {texts : List Text} : (texts.map Word.quoted).mapM (Word.field status) = some texts := by
  induction texts with
  | nil => rfl
  | cons text texts ih => simp [Word.field_quoted, ih]

/-- Behind a first word, words are just words. -/
theorem commandsFrom_words (h : cmd.words ≠ []) :
    commandsFrom cmd (ws.map .word ++ rest) = commandsFrom { cmd with words := cmd.words ++ ws } rest := by
  induction ws generalizing cmd with
  | nil => simp
  | cons w ws ih =>
    rw [List.map_cons, List.cons_append, commandsFrom, if_neg fun hw => h hw.1, ih (by simp), List.append_assoc]
    rfl

theorem commandsFrom_first (hres : w.isReserved = false) (hassign : w.isAssignment = false) :
    commandsFrom ⟨[], []⟩ ((w :: ws).map .word ++ rest) = commandsFrom ⟨w :: ws, []⟩ rest := by
  rw [List.map_cons, List.cons_append, commandsFrom, if_neg (by simp [hres, hassign]), commandsFrom_words (by simp)]
  rfl

/-- A `;` ends the command before it. -/
theorem commandsFrom_semicolon (h : cmd ≠ ⟨[], []⟩) :
    commandsFrom cmd (.operator [59] :: rest) = (commandsFrom ⟨[], []⟩ rest).map (cmd :: ·) := by
  conv_lhs => unfold commandsFrom
  rw [if_pos (.inl rfl), if_neg h]

/-- A command that starts a program is run, and the rest behind the status it left. -/
theorem runFrom_cons {outcome : List Text → Nat} {cmds : List SimpleCommand} {call : Invocation} {name : Text}
    (hcall : cmd.invocation status = some call) (hname : call.argv.head? = some name)
    (hstarts : name ≠ exitName ∧ name ∉ specialBuiltins) : runFrom outcome status (cmd :: cmds) =
      (runFrom outcome (outcome call.argv) cmds).map (call :: ·) := by
  rw [runFrom, hcall]
  simp only [Option.bind_eq_bind, Option.bind_some, hname, if_neg hstarts.1, if_neg hstarts.2]
  rcases runFrom outcome (outcome call.argv) cmds <;> rfl

end

end PosixShell
