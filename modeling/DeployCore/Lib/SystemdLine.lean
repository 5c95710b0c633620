import Mathlib

/-! # Reading the values of a unit file

A unit file's lines assign values to names. A command line is split into words at blanks; quotes and backslash escapes
are removed, a word that is a lone semicolon without either begins a further command, and in what is read a doubled
percent or dollar sign is one. A single one is outside this part of the language, but for the main process id. -/

namespace SystemdLine

/-! ### Lines -/

/-- A line's name and value, where it assigns one. -/
def assignment (line : List Char) : Option (List Char × List Char) :=
  let name := line.takeWhile (· != '=')
  if name.length < line.length then some (name, line.drop (name.length + 1)) else none

/-- The value that a line assigns to `name`. -/
def valueFor (name line : List Char) : Option (List Char) :=
  (assignment line).bind fun a => if a.1 = name then some a.2 else none

/-- The values that the lines of a text assign to a name, in their order. -/
def values (text name : List Char) : List (List Char) := (text.splitOn '\n').filterMap (valueFor name)

variable {name other value line : List Char} {lines : List (List Char)}

theorem assignment_directive (h : '=' ∉ name) : assignment (name ++ '=' :: value) = some (name, value) := by
  have htake : (name ++ '=' :: value).takeWhile (· != '=') = name := by
    rw [List.takeWhile_append_of_pos (fun c hc => bne_iff_ne.mpr (ne_of_mem_of_not_mem hc h))]
    simp
  rw [assignment, htake, if_pos (by simp)]
  simp

theorem valueFor_directive (h : '=' ∉ other) :
    valueFor name (other ++ '=' :: value) = if other = name then some value else none := by
  rw [valueFor, assignment_directive h, Option.bind_some]

theorem valueFor_eq_none (h : '=' ∉ line) : valueFor name line = none := by
  have htake : line.takeWhile (· != '=') = line := by
    rw [List.takeWhile_eq_self_iff]
    exact fun c hc => bne_iff_ne.mpr (ne_of_mem_of_not_mem hc h)
  rw [valueFor, assignment, htake, if_neg (Nat.lt_irrefl _), Option.bind_none]

theorem mem_intercalate {c d : Char} {pieces : List (List Char)} (h : c ∈ List.intercalate [d] pieces) :
    c = d ∨ ∃ piece ∈ pieces, c ∈ piece := by
  induction pieces with
  | nil => cases h
  | cons piece pieces ih =>
    rcases pieces with _ | ⟨next, pieces⟩
    · exact .inr ⟨piece, List.mem_singleton_self piece, by simpa using h⟩
    · rw [List.intercalate_cons_cons, List.mem_append, List.mem_append, List.mem_singleton, or_assoc] at h
      rcases h with h | h | h
      · exact .inr ⟨piece, List.mem_cons_self, h⟩
      · exact .inl h
      · exact (ih h).imp_right fun ⟨piece', hpiece', hc⟩ => ⟨piece', List.mem_cons_of_mem piece hpiece', hc⟩

/-- A text written line by line is split into its lines, and what stands behind the last one. -/
theorem splitOn_lines (hlines : ∀ line ∈ lines, '\n' ∉ line) (hne : lines ≠ []) :
    (List.intercalate ['\n'] lines ++ ['\n']).splitOn '\n' = lines ++ [[]] := by
  have hclosed : List.intercalate ['\n'] lines ++ ['\n'] = List.intercalate ['\n'] (lines ++ [[]]) := by
    clear hlines
    induction lines with
    | nil => exact absurd rfl hne
    | cons line lines ih =>
      rcases lines with _ | ⟨next, lines⟩
      · simp
      · simp only [List.cons_append, List.intercalate_cons_cons, List.append_assoc]
        rw [ih nofun]
        simp
  have hfree : ∀ line ∈ lines ++ [[]], '\n' ∉ line := by
    intro line hline
    rcases List.mem_append.mp hline with hline | hline
    · exact hlines line hline
    · simp_all
  rw [hclosed, List.splitOn_intercalate '\n' hfree (by simp)]

/-- A text written line by line is read line by line. -/
theorem values_lines (hlines : ∀ line ∈ lines, '\n' ∉ line) (hne : lines ≠ []) :
    values (List.intercalate ['\n'] lines ++ ['\n']) name = lines.filterMap (valueFor name) := by
  have hnone : valueFor name [] = none := valueFor_eq_none List.not_mem_nil
  rw [values, splitOn_lines hlines hne, List.filterMap_append]
  simp [hnone]

/-! ### Words -/

/-- A word: whether it stands without quotes and escapes, and what it reads as. -/
structure Word where
  bare : Bool
  text : List Char
  deriving DecidableEq

def isBlank (c : Char) : Bool := c == ' ' || c == '\t' || c == '\n' || c == '\r'

def isQuote (c : Char) : Bool := c == '"' || c.toNat == 0x27

/-- What an escaped character stands for. -/
def unescape (c : Char) : Char :=
  if c = 'n' then '\n' else if c = 't' then '\t' else if c = 'r' then '\r' else if c = 's' then ' ' else c

/-- The word that is being read, with one character more; `bare` tells whether that was neither quoted nor escaped. -/
def push (word : Option Word) (bare : Bool) (c : Char) : Option Word :=
  some ⟨(word.elim true Word.bare) && bare, (word.elim [] Word.text) ++ [c]⟩

/-- The word that is being read, in which a quote begins. -/
def enquote (word : Option Word) : Option Word := some ⟨false, word.elim [] Word.text⟩

/-- Where the reader is: the quotation it is in, whether a backslash is open, the word that is being read, and the words
behind it. -/
structure Reader where
  quote : Option Char
  escaped : Bool
  word : Option Word
  done : List Word
  deriving DecidableEq

def step (r : Reader) (c : Char) : Reader :=
  if r.escaped then { r with escaped := false, word := push r.word false (unescape c) }
  else if c = '\\' then { r with escaped := true }
  else if r.quote = some c then { r with quote := none }
  else if r.quote.isSome then { r with word := push r.word false c }
  else if isBlank c then { r with word := none, done := r.done ++ r.word.toList }
  else if isQuote c then { r with quote := some c, word := enquote r.word }
  else { r with word := push r.word true c }

/-- The words of a line, unless a quotation or an escape is left open. -/
def words (line : List Char) : Option (List Word) :=
  let r := line.foldl step ⟨none, false, none, []⟩
  if r.quote = none ∧ r.escaped = false then some (r.done ++ r.word.toList) else none

/-- What a piece of a line reads as when it stands between blanks. -/
def Reads (written : List Char) (w : Word) : Prop :=
  ∀ done, written.foldl step ⟨none, false, none, done⟩ = ⟨none, false, some w, done⟩

/-- A character that stands for itself without quotes. -/
def isPlain (c : Char) : Bool := !isBlank c && !isQuote c && c != '\\'

variable {c : Char} {text written : List Char} {w : Word} {done : List Word}

theorem step_plain (h : isPlain c) (word : Option Word) :
    step ⟨none, false, word, done⟩ c = ⟨none, false, push word true c, done⟩ := by
  simp only [isPlain, Bool.and_eq_true, Bool.not_eq_true', bne_iff_ne] at h
  obtain ⟨⟨hblank, hquote⟩, hslash⟩ := h
  simp [step, hblank, hquote, hslash]

theorem foldl_plain (h : ∀ c ∈ text, isPlain c) (seen : List Char) :
    text.foldl step ⟨none, false, some ⟨true, seen⟩, done⟩ = ⟨none, false, some ⟨true, seen ++ text⟩, done⟩ := by
  induction text generalizing seen with
  | nil => simp
  | cons c text ih =>
    rw [List.foldl_cons, step_plain (h c List.mem_cons_self), push]
    simpa using ih (fun c hc => h c (List.mem_cons_of_mem _ hc)) (seen ++ [c])

/-- Text without blanks, quotes and backslashes reads as itself. -/
theorem reads_plain (hne : text ≠ []) (h : ∀ c ∈ text, isPlain c) : Reads text ⟨true, text⟩ := by
  intro done
  rcases text with _ | ⟨c, text⟩
  · exact absurd rfl hne
  · rw [List.foldl_cons, step_plain (h c List.mem_cons_self), push]
    simpa using foldl_plain (fun c hc => h c (List.mem_cons_of_mem _ hc)) [c]

/-- Text with backslashes before its backslashes and double quotes. -/
def escaped (text : List Char) : List Char :=
  text.flatMap fun c => if c = '\\' ∨ c = '"' then ['\\', c] else [c]

/-- Text in double quotes. -/
def quoted (text : List Char) : List Char := '"' :: escaped text ++ ['"']

theorem escaped_cons :
    escaped (c :: text) = (if c = '\\' ∨ c = '"' then ['\\', c] else [c]) ++ escaped text := rfl

theorem foldl_escaped (text seen : List Char) :
    (escaped text).foldl step ⟨some '"', false, some ⟨false, seen⟩, done⟩ =
      ⟨some '"', false, some ⟨false, seen ++ text⟩, done⟩ := by
  induction text generalizing seen with
  | nil => simp [escaped]
  | cons c text ih =>
    have hone : (if c = '\\' ∨ c = '"' then ['\\', c] else [c]).foldl step ⟨some '"', false, some ⟨false, seen⟩, done⟩ =
        ⟨some '"', false, some ⟨false, seen ++ [c]⟩, done⟩ := by
      split
      · rename_i hc
        rcases hc with rfl | rfl <;> simp [step, push, unescape]
      · rename_i hc
        have hquote : ¬ '"' = c := fun heq => hc (.inr heq.symm)
        simp [step, push, not_or.mp hc, hquote]
    rw [escaped_cons, List.foldl_append, hone]
    simpa using ih (seen ++ [c])

/-- Quoted text reads as itself, whatever it is. -/
theorem reads_quoted (text : List Char) : Reads (quoted text) ⟨false, text⟩ := by
  intro done
  have hopen : step ⟨none, false, none, done⟩ '"' = ⟨some '"', false, some ⟨false, []⟩, done⟩ := by
    simp [step, isBlank, isQuote, enquote]
  rw [quoted, List.cons_append, List.foldl_cons, hopen, List.foldl_append, foldl_escaped]
  simp [step]

/-- Pieces with blanks between them read as one word each. -/
theorem words_intercalate {pieces : List (List Char)} {ws : List Word} (h : List.Forall₂ Reads pieces ws) :
    words (List.intercalate [' '] pieces) = some ws := by
  have hrun : ∀ done, ∃ read : Reader, (List.intercalate [' '] pieces).foldl step ⟨none, false, none, done⟩ = read ∧
      read.quote = none ∧ read.escaped = false ∧ read.done ++ read.word.toList = done ++ ws := by
    induction h with
    | nil => exact fun done => ⟨⟨none, false, none, done⟩, rfl, rfl, rfl, rfl⟩
    | @cons piece w pieces ws hpiece hpieces ih =>
      intro done
      cases hpieces with
      | nil => exact ⟨⟨none, false, some w, done⟩, by simpa using hpiece done, rfl, rfl, rfl⟩
      | cons =>
        have hblank : step ⟨none, false, some w, done⟩ ' ' = ⟨none, false, none, done ++ [w]⟩ := by
          simp [step, isBlank]
        obtain ⟨read, hread, hquote, hescaped, hws⟩ := ih (done ++ [w])
        refine ⟨read, ?_, hquote, hescaped, by rw [hws, List.append_assoc]; rfl⟩
        rw [List.intercalate_cons_cons, List.append_assoc, List.foldl_append, hpiece done, List.foldl_append,
          List.foldl_cons, hblank]
        exact hread
  obtain ⟨read, hread, hquote, hescaped, hws⟩ := hrun []
  rw [words, hread]
  simpa [hquote, hescaped] using hws

/-! ### Commands -/

/-- A lone semicolon begins a further command. -/
def Word.isSeparator (w : Word) : Bool := w.bare && w.text == [';']

/-- Text in which every `d` is doubled, with single ones. -/
def undouble (d : Char) : List Char → Option (List Char)
  | [] => some []
  | [c] => if c = d then none else some [c]
  | c :: next :: rest =>
    if c = d then if next = d then (undouble d rest).map (d :: ·) else none
    else (undouble d (next :: rest)).map (c :: ·)

def MAINPID : List Char := ['$', 'M', 'A', 'I', 'N', 'P', 'I', 'D']

/-- A word's argument, where the main process id reads `pid`. -/
def argument (pid : List Char) (w : Word) : Option (List Char) :=
  (undouble '%' w.text).bind fun text => if text = MAINPID then some pid else undouble '$' text

/-- The commands of a line, each by its arguments. -/
def commands (pid : List Char) (line : List Char) : Option (List (List (List Char))) :=
  (words line).bind fun ws => (ws.splitOnP Word.isSeparator).mapM fun command => command.mapM (argument pid)

/-- The variables that a line of assignments sets; a dollar sign is one character there. -/
def settings (line : List Char) : Option (List (List Char × List Char)) :=
  (words line).bind fun ws => ws.mapM fun w => (undouble '%' w.text).bind assignment

variable {pid line : List Char} {ws : List Word} {args : List (List Char)} {arg : List Char} {w : Word}

theorem length_of_mapM {α β : Type} {f : α → Option β} {xs : List α} {ys : List β} (h : xs.mapM f = some ys) :
    xs.length = ys.length := by
  induction xs generalizing ys with
  | nil => simp_all
  | cons x xs ih =>
    simp only [List.mapM_cons, Option.bind_eq_bind, Option.bind_eq_some_iff, Option.pure_def, Option.some.injEq] at h
    obtain ⟨y, -, ys, hys, rfl⟩ := h
    simp [ih hys]

/-- A line whose words are these arguments is this one command exactly when none of the words is a lone semicolon. -/
theorem commands_eq_single_iff (hwords : words line = some ws)
    (hargs : List.Forall₂ (fun w arg => argument pid w = some arg) ws args) :
    commands pid line = some [args] ↔ ∀ w ∈ ws, w.isSeparator = false := by
  have hmap : ws.mapM (argument pid) = some args := by
    clear hwords
    induction hargs with
    | nil => rfl
    | cons harg _ ih => simp [List.mapM_cons, harg, ih]
  rw [commands, hwords, Option.bind_some]
  constructor
  · intro hsingle
    by_contra! hsep
    -- what stands before the first semicolon is a command of its own
    obtain ⟨w, hw, hsep⟩ := hsep
    obtain ⟨before, after, rfl⟩ := List.append_of_mem hw
    have htwo := length_of_mapM hsingle
    rw [List.splitOnP_append_cons _ _ (by simpa using hsep), List.length_append] at htwo
    have hbefore := List.length_pos_iff.mpr (List.splitOnP_ne_nil Word.isSeparator before)
    have hafter := List.length_pos_iff.mpr (List.splitOnP_ne_nil Word.isSeparator after)
    simp only [List.length_singleton] at htwo
    omega
  · intro hnone
    rw [List.splitOnP_eq_singleton hnone]
    simp [hmap]

/-- A line of one word that reads as an assignment sets this one variable. -/
theorem settings_single {name value : List Char} (hwords : words line = some [w])
    (htext : undouble '%' w.text = some (name ++ '=' :: value)) (hname : '=' ∉ name) :
    settings line = some [(name, value)] := by
  simp [settings, hwords, htext, assignment_directive hname]

/-- The entries of a line that lists names. -/
def entries (line : List Char) : Option (List (List Char)) := (words line).map fun ws => ws.map Word.text

/-- Names without blanks, quotes and backslashes are listed as they stand. -/
theorem entries_intercalate {names : List (List Char)} (h : ∀ name ∈ names, name ≠ [] ∧ ∀ c ∈ name, isPlain c) :
    entries (List.intercalate [' '] names) = some names := by
  have hreads : List.Forall₂ Reads names (names.map (Word.mk true)) := by
    induction names with
    | nil => exact .nil
    | cons name names ih =>
      obtain ⟨⟨hne, hplain⟩, hnames⟩ := List.forall_mem_cons.mp h
      exact .cons (reads_plain hne hplain) (ih hnames)
  rw [entries, words_intercalate hreads]
  simp [Function.comp_def]

/-! ### Doubling -/

/-- Text with every `d` doubled. -/
def doubled (d : Char) (text : List Char) : List Char := text.flatMap fun c => if c = d then [d, d] else [c]

variable {d : Char}

theorem doubled_cons : doubled d (c :: text) = (if c = d then [d, d] else [c]) ++ doubled d text := rfl

theorem doubled_append (d : Char) (t u : List Char) : doubled d (t ++ u) = doubled d t ++ doubled d u :=
  List.flatMap_append

theorem undouble_cons_of_ne (h : c ≠ d) (rest : List Char) : undouble d (c :: rest) = (undouble d rest).map (c :: ·) := by
  cases rest <;> simp [undouble, h]

theorem undouble_doubled (d : Char) (text : List Char) : undouble d (doubled d text) = some text := by
  induction text with
  | nil => rfl
  | cons c text ih =>
    rw [doubled_cons]
    by_cases hc : c = d
    · simp [hc, undouble, ih]
    · rw [if_neg hc, List.singleton_append, undouble_cons_of_ne hc, ih]
      rfl

theorem doubled_of_not_mem (h : d ∉ text) : doubled d text = text := by
  induction text with
  | nil => rfl
  | cons c text ih =>
    have hc : c ≠ d := fun heq => h (heq ▸ List.mem_cons_self)
    rw [doubled_cons, if_neg hc, ih fun hmem => h (List.mem_cons_of_mem c hmem)]
    rfl

theorem mem_doubled : c ∈ doubled d text ↔ c ∈ text := by
  induction text with
  | nil => simp [doubled]
  | cons c' text ih =>
    rw [doubled_cons, List.mem_append, ih, List.mem_cons]
    split
    · simp_all
    · simp

theorem doubled_comm {d' : Char} (h : d ≠ d') (text : List Char) :
    doubled d (doubled d' text) = doubled d' (doubled d text) := by
  induction text with
  | nil => rfl
  | cons c text ih =>
    simp only [doubled_cons, doubled_append, ih]
    congr 1
    by_cases hc : c = d
    · simp [hc, h, doubled]
    · by_cases hc' : c = d'
      · simp [hc', h.symm, doubled]
      · simp [hc, hc', doubled]

theorem length_le_doubled (d : Char) (text : List Char) : text.length ≤ (doubled d text).length := by
  induction text with
  | nil => exact Nat.le_refl _
  | cons c text ih =>
    rw [doubled_cons, List.length_append]
    split <;> simp <;> omega

theorem length_lt_quoted (text : List Char) : text.length < (quoted text).length := by
  have hescaped : text.length ≤ (escaped text).length := by
    induction text with
    | nil => exact Nat.le_refl _
    | cons c text ih =>
      rw [escaped_cons, List.length_append]
      split <;> simp <;> omega
  rw [quoted, List.length_append, List.length_cons]
  omega

theorem doubled_eq_self_iff : doubled d text = text ↔ d ∉ text := by
  refine ⟨fun h hmem => ?_, doubled_of_not_mem⟩
  obtain ⟨before, after, rfl⟩ := List.append_of_mem hmem
  have hbefore := length_le_doubled d before
  have hafter := length_le_doubled d after
  have hlengths := congrArg List.length h
  rw [doubled_append, doubled_cons, if_pos rfl] at hlengths
  simp only [List.length_append, List.length_cons, List.length_nil] at hlengths
  omega

theorem escaped_doubled (hslash : d ≠ '\\') (hquote : d ≠ '"') (text : List Char) :
    escaped (doubled d text) = doubled d (escaped text) := by
  induction text with
  | nil => rfl
  | cons c text ih =>
    have happend : ∀ t u : List Char, escaped (t ++ u) = escaped t ++ escaped u := fun t u => List.flatMap_append
    rw [doubled_cons, escaped_cons, happend, doubled_append, ih]
    congr 1
    by_cases hc : c = d
    · simp [hc, hslash, hquote, escaped, doubled]
    · by_cases hspecial : c = '\\' ∨ c = '"'
      · simp [hc, hspecial, hslash.symm, escaped, doubled]
      · simp [hc, hspecial, escaped, doubled]

theorem quoted_doubled (hslash : d ≠ '\\') (hquote : d ≠ '"') (text : List Char) :
    quoted (doubled d text) = doubled d (quoted text) := by
  rw [quoted, quoted, escaped_doubled hslash hquote, doubled_append, doubled_cons]
  simp [hquote.symm, doubled]

theorem doubled_intercalate (hd : d ≠ ' ') (pieces : List (List Char)) :
    doubled d (List.intercalate [' '] pieces) = List.intercalate [' '] (pieces.map (doubled d)) := by
  induction pieces with
  | nil => rfl
  | cons piece pieces ih =>
    rcases pieces with _ | ⟨next, pieces⟩
    · simp
    · have hblank : doubled d [' '] = [' '] := by simp [doubled, hd.symm]
      rw [List.intercalate_cons_cons, doubled_append, doubled_append, ih, hblank]
      simp only [List.map_cons, List.intercalate_cons_cons]

/-- Text that is doubled both ways is an argument that stands for itself. -/
theorem argument_doubled (pid : List Char) (bare : Bool) (text : List Char) :
    argument pid ⟨bare, doubled '$' (doubled '%' text)⟩ = some text := by
  have hpid : doubled '$' text ≠ MAINPID := by
    intro heq
    have hread := undouble_doubled '$' text
    rw [heq] at hread
    exact absurd hread (by rw [show undouble '$' MAINPID = none by decide]; simp)
  rw [argument, doubled_comm (by decide), undouble_doubled, Option.bind_some, if_neg hpid, undouble_doubled]

theorem isSeparator_doubled (bare : Bool) (text : List Char) :
    Word.isSeparator ⟨bare, doubled '$' (doubled '%' text)⟩ = (bare && text == [';']) := by
  have hiff : doubled '$' (doubled '%' text) = [';'] ↔ text = [';'] := by
    constructor
    · intro heq
      have hread := argument_doubled [] bare text
      rw [heq] at hread
      exact (Option.some.inj hread).symm
    · rintro rfl
      decide
  rw [Bool.eq_iff_iff]
  simp [Word.isSeparator, hiff]

end SystemdLine
