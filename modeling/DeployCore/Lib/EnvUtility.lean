import Mathlib

/-! # Reading the operands of `env`

Options come first; then every word with an equals sign sets a variable, up to the first word without one, which is the
utility, with its arguments behind it. A variable that is set twice keeps its last value. Options other than `-i` are
outside this part of the utility. -/

namespace EnvUtility

abbrev Text := List UInt8

/-- What `env` starts: a utility, the words it is handed behind its name, and its whole environment. -/
structure Call where
  environment : List (Text × Text)
  utility : Text
  args : List Text
  deriving DecidableEq

/-- `putenv`. -/
def put (environment : List (Text × Text)) (name value : Text) : List (Text × Text) :=
  if environment.any (·.1 = name) then environment.map fun entry => if entry.1 = name then (name, value) else entry
  else environment ++ [(name, value)]

/-- A word's text around its first equals sign. -/
def assignment : Text → Option (Text × Text)
  | [] => none
  | b :: rest => if b = 61 then some ([], rest) else (assignment rest).map fun (name, value) => (b :: name, value)

/-- The operands behind the options, over the environment so far. -/
def operands (environment : List (Text × Text)) : List Text → Option Call
  | [] => none
  | word :: rest =>
    match assignment word with
    | some (name, value) => operands (put environment name value) rest
    | none => some ⟨environment, word, rest⟩

/-- The words behind `env`: a lone `-` is `-i`, and ends the options as `--` does. -/
def call (environment : List (Text × Text)) : List Text → Option Call
  | [] => none
  | word :: rest =>
    if word = [45, 105] then call [] rest
    else if word = [45] then operands [] rest
    else if word = [45, 45] then operands environment rest
    else if word.head? = some 45 then none
    else operands environment (word :: rest)

/-- The file that is run: a utility named without a slash is searched for, in the environment's `PATH`. -/
def Call.file (c : Call) : Option Text := if 47 ∈ c.utility then some c.utility else none

variable {environment pairs : List (Text × Text)} {name value word utility : Text} {args rest : List Text}

theorem assignment_pair (h : 61 ∉ name) : assignment (name ++ 61 :: value) = some (name, value) := by
  induction name with
  | nil => rfl
  | cons b name ih =>
    obtain ⟨hb, hname⟩ := List.ne_and_not_mem_of_not_mem_cons h
    rw [List.cons_append, assignment, if_neg hb.symm, ih hname]
    rfl

theorem assignment_eq_none (h : 61 ∉ word) : assignment word = none := by
  induction word with
  | nil => rfl
  | cons b word ih =>
    obtain ⟨hb, hword⟩ := List.ne_and_not_mem_of_not_mem_cons h
    rw [assignment, if_neg hb.symm, ih hword]
    rfl

theorem put_fresh (h : name ∉ environment.map Prod.fst) :
    put environment name value = environment ++ [(name, value)] := by
  have hany : environment.any (fun entry => decide (entry.1 = name)) = false := by
    rw [List.any_eq_false]
    intro entry hentry heq
    exact h (of_decide_eq_true heq ▸ List.mem_map_of_mem hentry)
  rw [put, if_neg (by simp [hany])]

/-- Pairs of distinct names are set as they are, whatever their values hold. -/
theorem operands_pairs (hnames : ∀ pair ∈ pairs, 61 ∉ pair.1) (hdistinct : ((environment ++ pairs).map Prod.fst).Nodup) :
    operands environment (pairs.map (fun pair => pair.1 ++ 61 :: pair.2) ++ rest) =
      operands (environment ++ pairs) rest := by
  induction pairs generalizing environment with
  | nil => simp
  | cons pair pairs ih =>
    obtain ⟨hname, hnames⟩ := List.forall_mem_cons.mp hnames
    have hfresh : pair.1 ∉ environment.map Prod.fst := by
      rw [List.map_append, List.nodup_append] at hdistinct
      exact fun hmem => hdistinct.2.2 _ hmem _ (by simp) rfl
    have happend : environment ++ pair :: pairs = environment ++ [pair] ++ pairs := by simp
    rw [happend] at hdistinct ⊢
    rw [List.map_cons, List.cons_append, operands, assignment_pair hname]
    dsimp only
    rw [put_fresh hfresh]
    exact ih hnames hdistinct

theorem operands_utility (h : 61 ∉ utility) :
    operands environment (utility :: args) = some ⟨environment, utility, args⟩ := by
  rw [operands, assignment_eq_none h]

/-- Where no option is meant, none is read. -/
theorem call_operands (h : word.head? ≠ some 45) :
    call environment (word :: rest) = operands environment (word :: rest) := by
  have hoption (options : Text) : word ≠ 45 :: options := fun heq => h (heq ▸ rfl)
  rw [call, if_neg (hoption _), if_neg (hoption _), if_neg (hoption _), if_neg h]

end EnvUtility
