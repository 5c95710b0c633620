import DeployCore.Lib.SystemdLine

/-! # Reading a unit file

The level below the values: a line that ends in an odd number of backslashes goes on in the next one, a line that opens
with a bracket heads a section, every other line that is not blank assigns a value to a name, and blanks around names
and values are dropped. -/

namespace SystemdLine

/-! ### Lines that go on -/

/-- Whether a line goes on in the next one. -/
def continues (line : List Char) : Bool := (line.reverse.takeWhile (· == '\\')).length % 2 == 1

/-- Lines, each with those that it goes on in; a blank stands for the backslash. -/
def logical : List (List Char) → List (List Char)
  | [] => []
  | line :: rest =>
    if continues line then
      match logical rest with
      | [] => [line.dropLast ++ [' ']]
      | next :: more => (line.dropLast ++ ' ' :: next) :: more
    else line :: logical rest

variable {c d : Char} {name value line : List Char} {lines : List (List Char)}

@[simp] theorem continues_nil : continues [] = false := rfl

theorem continues_concat (line : List Char) (c : Char) :
    continues (line ++ [c]) = if c = '\\' then !continues line else false := by
  rw [continues, continues, List.reverse_append, List.reverse_singleton, List.singleton_append, List.takeWhile_cons]
  by_cases hc : c = '\\'
  · simp only [hc, beq_self_eq_true, if_true, List.length_cons]
    rcases Nat.mod_two_eq_zero_or_one (line.reverse.takeWhile (· == '\\')).length with heven | hodd
    · simp [heven, Nat.add_mod]
    · simp [hodd, Nat.add_mod]
  · simp [hc]

/-- Only what stands behind the last other character counts. -/
theorem continues_append_cons (hc : c ≠ '\\') (line rest : List Char) :
    continues (line ++ c :: rest) = continues rest := by
  induction rest using List.reverseRecOn with
  | nil => rw [continues_concat, if_neg hc, continues_nil]
  | append_singleton rest last ih =>
    rw [← List.cons_append, ← List.append_assoc, continues_concat, continues_concat, ih]

theorem continues_doubled (hd : d ≠ '\\') (value : List Char) : continues (doubled d value) = continues value := by
  induction value using List.reverseRecOn with
  | nil => rfl
  | append_singleton value last ih =>
    have hlast : doubled d (value ++ [last]) = doubled d value ++ if last = d then [d, d] else [last] := by
      simp [doubled]
    rw [hlast, continues_concat]
    split
    · rename_i heq
      subst heq
      rw [continues_append_cons hd, ← List.nil_append [last], continues_concat, if_neg hd, if_neg hd]
    · rw [continues_concat, ih]

/-- A line that goes on ends in a backslash. -/
theorem exists_of_continues (h : continues line) : ∃ start, line = start ++ ['\\'] := by
  rcases List.eq_nil_or_concat line with rfl | ⟨start, last, rfl⟩
  · cases h
  · rw [List.concat_eq_append, continues_concat] at h
    split at h
    · rename_i hlast
      exact ⟨start, by rw [List.concat_eq_append, hlast]⟩
    · cases h

theorem logical_cons (h : continues line = false) (rest : List (List Char)) :
    logical (line :: rest) = line :: logical rest := by
  rw [logical, h, if_neg Bool.false_ne_true]

theorem logical_cons_cons {next : List Char} (h : continues line) (hnext : continues next = false)
    (rest : List (List Char)) : logical (line :: next :: rest) = (line.dropLast ++ ' ' :: next) :: logical rest := by
  rw [logical, h, if_pos rfl, logical_cons hnext]

theorem logical_eq_self (h : ∀ line ∈ lines, continues line = false) : logical lines = lines := by
  induction lines with
  | nil => rfl
  | cons line lines ih =>
    obtain ⟨hline, hlines⟩ := List.forall_mem_cons.mp h
    rw [logical_cons hline, ih hlines]

/-! ### Blanks -/

/-- Text without the blanks around it. -/
def trim (text : List Char) : List Char := (text.dropWhile isBlank).rdropWhile isBlank

variable {text : List Char}

theorem dropWhile_eq_self (h : ∀ c ∈ text.head?, isBlank c = false) : text.dropWhile isBlank = text := by
  rcases text with _ | ⟨c, text⟩
  · rfl
  · rw [List.dropWhile_cons, h c rfl, if_neg Bool.false_ne_true]

theorem trim_eq_self (hfirst : ∀ c ∈ text.head?, isBlank c = false) (hlast : ∀ c ∈ text.getLast?, isBlank c = false) :
    trim text = text := by
  rw [trim, dropWhile_eq_self hfirst, List.rdropWhile_eq_self_iff]
  intro hne
  simp [hlast _ (List.getLast?_eq_some_getLast hne)]

theorem trim_of_forall (h : ∀ c ∈ text, isBlank c = false) : trim text = text :=
  trim_eq_self (fun c hc => h c (List.mem_of_mem_head? hc)) fun c hc => h c (List.mem_of_mem_getLast? hc)

theorem isBlank_head_trim (h : c ∈ (trim text).head?) : isBlank c = false := by
  obtain ⟨rest, hrest⟩ := List.rdropWhile_prefix isBlank (text.dropWhile isBlank)
  have hhead : (text.dropWhile isBlank).head? = some c := by
    rw [← hrest, List.head?_append, show ((text.dropWhile isBlank).rdropWhile isBlank).head? = some c from h]
    rfl
  simpa [hhead] using List.head?_dropWhile_not isBlank text

theorem dropWhile_doubled (hd : isBlank d = false) (text : List Char) :
    (doubled d text).dropWhile isBlank = doubled d (text.dropWhile isBlank) := by
  induction text with
  | nil => rfl
  | cons c text ih =>
    by_cases hc : isBlank c
    · have hne : c ≠ d := by
        rintro rfl
        simp [hd] at hc
      rw [doubled_cons, if_neg hne, List.singleton_append, List.dropWhile_cons_of_pos hc, ih,
        List.dropWhile_cons_of_pos hc]
    · rw [List.dropWhile_cons_of_neg hc, doubled_cons]
      split
      · rw [List.cons_append, List.dropWhile_cons_of_neg (by simp [hd])]
      · rw [List.cons_append, List.dropWhile_cons_of_neg hc]

theorem reverse_doubled (d : Char) (text : List Char) : (doubled d text).reverse = doubled d text.reverse := by
  rw [doubled, doubled, List.reverse_flatMap]
  congr 1
  funext c
  by_cases hc : c = d <;> simp [hc]

/-- Doubling leaves the blanks where they are. -/
theorem trim_doubled (hd : isBlank d = false) (text : List Char) : trim (doubled d text) = doubled d (trim text) := by
  rw [trim, dropWhile_doubled hd, List.rdropWhile, reverse_doubled, dropWhile_doubled hd, reverse_doubled]
  rfl

/-- What a line that went on reads as is never what was written up to its backslash. -/
theorem trim_joined_ne {start next : List Char} (hnext : '\\' ∉ (next.dropWhile isBlank).head?) :
    trim (start ++ ' ' :: next) ≠ start ++ ['\\'] := by
  intro heq
  have hpre : start ++ ['\\'] <+: (start ++ ' ' :: next).dropWhile isBlank := heq ▸ List.rdropWhile_prefix _ _
  rcases start with _ | ⟨c, start⟩
  · obtain ⟨rest, hrest⟩ := hpre
    rw [List.nil_append, List.nil_append, List.dropWhile_cons, if_pos (by decide)] at hrest
    exact hnext (by rw [← hrest]; rfl)
  · have hc : isBlank c = false := isBlank_head_trim (by rw [heq]; rfl)
    rw [List.cons_append, List.cons_append, List.dropWhile_cons_of_neg (by simp [hc]), ← List.cons_append,
      ← List.cons_append, List.prefix_append_right_inj] at hpre
    simp at hpre

/-! ### Sections -/

/-- A directive: its name and its value. -/
abbrev Directive := List Char × List Char

structure Section where
  name : List Char
  directives : List Directive
  deriving DecidableEq

/-- What a line is. -/
inductive Kind
  | blank
  | header (name : List Char)
  | directive (name value : List Char)
  deriving DecidableEq

/-- The name that a line heads a section with, behind its opening bracket. -/
def headed (rest : List Char) : Option Kind :=
  if (trim rest).getLast? = some ']' then some (.header (trim rest).dropLast) else none

/-- The directive of a line, in whose value a doubled percent sign is one. -/
def directed (line : List Char) : Option Kind :=
  (assignment line).bind fun a => (undouble '%' (trim a.2)).map (.directive (trim a.1))

def kindOf (line : List Char) : Option Kind :=
  match line.dropWhile isBlank with
  | [] => some .blank
  | c :: rest => if c = '[' then headed rest else directed line

/-- A line ahead of the directives and the sections behind it. -/
def Kind.onto (line : Kind) (below : List Directive × List Section) : List Directive × List Section :=
  match line with
  | .blank => below
  | .header name => ([], ⟨name, below.1⟩ :: below.2)
  | .directive name value => ((name, value) :: below.1, below.2)

/-- The directives ahead of the first section, and the sections. -/
def scanLines : List (List Char) → Option (List Directive × List Section)
  | [] => some ([], [])
  | line :: rest => (kindOf line).bind fun kind => (scanLines rest).map kind.onto

/-- The sections of a unit file; a directive that stands in none is an error. -/
def readSections (text : List Char) : Option (List Section) :=
  (scanLines (logical (text.splitOn '\n'))).bind fun below => if below.1 = [] then some below.2 else none

/-! ### Writing -/

/-- A name that can stand on either side of what is around it. -/
def isName (name : List Char) : Bool :=
  !name.isEmpty && name.all fun c => isPlain c && c != '=' && c != '[' && c != ']'

/-- A value that stands for itself on its line. -/
structure Stands (value : List Char) : Prop where
  unbroken : '\n' ∉ value
  trimmed : trim value = value
  ended : continues value = false

def writtenLine (d : Directive) : List Char := d.1 ++ '=' :: doubled '%' d.2

def Section.written (s : Section) : List (List Char) := ('[' :: s.name ++ [']']) :: s.directives.map writtenLine

/-- The lines of sections with a blank line between them. -/
def writtenSections (sections : List Section) : List (List Char) := List.intercalate [[]] (sections.map Section.written)

variable {below : List Directive × List Section} {sections : List Section} {s : Section}

theorem isName_iff : isName name ↔
    name ≠ [] ∧ ∀ c ∈ name, isPlain c ∧ c ≠ '=' ∧ c ≠ '[' ∧ c ≠ ']' := by
  simp [isName, and_assoc]

theorem isBlank_of_isPlain (h : isPlain c) : isBlank c = false := by
  simp only [isPlain, Bool.and_eq_true, Bool.not_eq_true'] at h
  exact h.1.1

theorem trim_name (h : isName name) : trim name = name :=
  trim_of_forall fun c hc => isBlank_of_isPlain ((isName_iff.mp h).2 c hc).1

theorem not_mem_name (h : isName name) : '=' ∉ name :=
  fun hmem => ((isName_iff.mp h).2 _ hmem).2.1 rfl

/-- A line that assigns a value, whatever the value is. -/
theorem kindOf_directive (h : isName name) (value : List Char) :
    kindOf (name ++ '=' :: value) = (undouble '%' (trim value)).map (.directive name) := by
  have hdirected : directed (name ++ '=' :: value) = (undouble '%' (trim value)).map (.directive name) := by
    rw [directed, assignment_directive (not_mem_name h), Option.bind_some, trim_name h]
  obtain ⟨hne, hall⟩ := isName_iff.mp h
  rcases name with _ | ⟨c, name⟩
  · exact absurd rfl hne
  · obtain ⟨hplain, -, hbracket, -⟩ := hall c List.mem_cons_self
    rw [← hdirected, kindOf, List.cons_append, List.dropWhile_cons_of_neg (by simp [isBlank_of_isPlain hplain])]
    exact if_neg hbracket

theorem kindOf_writtenLine {d : Directive} (h : isName d.1) :
    kindOf (writtenLine d) = some (.directive d.1 (trim d.2)) := by
  rw [writtenLine, kindOf_directive h, trim_doubled (by decide), undouble_doubled]
  rfl

theorem kindOf_header (h : isName name) : kindOf ('[' :: name ++ [']']) = some (.header name) := by
  have htrim : trim (name ++ [']']) = name ++ [']'] := by
    refine trim_of_forall fun c hc => ?_
    rcases List.mem_append.mp hc with hc | hc
    · exact isBlank_of_isPlain ((isName_iff.mp h).2 c hc).1
    · rw [List.mem_singleton.mp hc]
      decide
  have hheaded : headed (name ++ [']']) = some (.header name) := by
    rw [headed, htrim]
    simp
  rw [kindOf, List.cons_append, List.dropWhile_cons_of_neg (by decide)]
  exact hheaded

theorem scanLines_cons {kind : Kind} {rest : List (List Char)} (h : kindOf line = some kind) :
    scanLines (line :: rest) = (scanLines rest).map kind.onto := by
  rw [scanLines, h, Option.bind_some]

/-- Text that keeps its place between blanks, and at the end of a line. -/
structure Firm (text : List Char) : Prop where
  ne_nil : text ≠ []
  unbroken : '\n' ∉ text
  first : ∀ c ∈ text.head?, isBlank c = false
  last : ∀ c ∈ text.getLast?, isBlank c = false ∧ c ≠ '\\'

theorem Firm.stands (h : Firm text) : Stands text where
  unbroken := h.unbroken
  trimmed := trim_eq_self h.first fun c hc => (h.last c hc).1
  ended := by
    by_contra hcontinues
    obtain ⟨start, rfl⟩ := exists_of_continues (by simpa using hcontinues)
    exact (h.last _ (by simp)).2 rfl

theorem stands_nil : Stands [] := ⟨List.not_mem_nil, rfl, rfl⟩

theorem firm_plain (hne : text ≠ []) (h : ∀ c ∈ text, isPlain c) : Firm text where
  ne_nil := hne
  unbroken := fun hmem => absurd (isBlank_of_isPlain (h _ hmem)) (by decide)
  first := fun c hc => isBlank_of_isPlain (h c (List.mem_of_mem_head? hc))
  last := fun c hc => ⟨isBlank_of_isPlain (h c (List.mem_of_mem_getLast? hc)), by
    rintro rfl
    exact absurd (h _ (List.mem_of_mem_getLast? hc)) (by decide)⟩

theorem firm_quoted (h : '\n' ∉ text) : Firm (quoted text) where
  ne_nil := by simp [quoted]
  unbroken := by
    have hescaped : '\n' ∉ escaped text := by
      simp only [escaped, List.mem_flatMap, not_exists, not_and]
      intro c hc
      have hne : '\n' ≠ c := fun heq => h (heq ▸ hc)
      split <;> simp [hne]
    simp [quoted, hescaped]
  first := by simp [quoted, isBlank]
  last := by
    rw [quoted, List.getLast?_concat]
    simp [isBlank]

theorem Firm.append {other : List Char} (h : Firm text) (hother : Firm other) : Firm (text ++ ' ' :: other) where
  ne_nil := by simp
  unbroken := by simp [h.unbroken, hother.unbroken]
  first := by simpa [List.head?_append_of_ne_nil _ h.ne_nil] using h.first
  last := by
    rw [← List.singleton_append, ← List.append_assoc, List.getLast?_append_of_ne_nil _ hother.ne_nil]
    exact hother.last

theorem firm_intercalate {pieces : List (List Char)} (hne : pieces ≠ []) (h : ∀ piece ∈ pieces, Firm piece) :
    Firm (List.intercalate [' '] pieces) := by
  induction pieces with
  | nil => exact absurd rfl hne
  | cons piece pieces ih =>
    obtain ⟨hpiece, hpieces⟩ := List.forall_mem_cons.mp h
    rcases pieces with _ | ⟨next, pieces⟩
    · simpa using hpiece
    · rw [List.intercalate_cons_cons, List.append_assoc]
      exact hpiece.append (ih nofun hpieces)

/-- A section that its written lines are read back as. -/
structure Section.Clean (s : Section) : Prop where
  name : isName s.name
  names : ∀ d ∈ s.directives, isName d.1
  values : ∀ d ∈ s.directives, Stands d.2

theorem scanLines_directives {directives : List Directive} {rest : List (List Char)}
    (hnames : ∀ d ∈ directives, isName d.1) (hvalues : ∀ d ∈ directives, trim d.2 = d.2)
    (h : scanLines rest = some below) :
    scanLines (directives.map writtenLine ++ rest) = some (directives ++ below.1, below.2) := by
  induction directives with
  | nil => exact h
  | cons d directives ih =>
    obtain ⟨hname, hnames⟩ := List.forall_mem_cons.mp hnames
    obtain ⟨hvalue, hvalues⟩ := List.forall_mem_cons.mp hvalues
    rw [List.map_cons, List.cons_append, scanLines_cons (kindOf_writtenLine hname), ih hnames hvalues, hvalue]
    rfl

theorem Section.Clean.scanLines {rest : List (List Char)} (hs : s.Clean) (h : scanLines rest = some ([], sections)) :
    scanLines (s.written ++ rest) = some ([], s :: sections) := by
  rw [Section.written, List.cons_append, scanLines_cons (kindOf_header hs.name),
    scanLines_directives hs.names (fun d hd => (hs.values d hd).trimmed) h, List.append_nil]
  rfl

theorem scanLines_blank (h : scanLines lines = some below) : scanLines ([] :: lines) = some below := by
  have hblank : kindOf [] = some .blank := rfl
  rw [scanLines_cons hblank, h]
  rfl

theorem writtenSections_cons_cons (s next : Section) (sections : List Section) :
    writtenSections (s :: next :: sections) = s.written ++ [] :: writtenSections (next :: sections) := by
  rw [writtenSections, List.map_cons, List.map_cons, List.intercalate_cons_cons, List.append_assoc]
  rfl

theorem scanLines_writtenSections (h : ∀ s ∈ sections, s.Clean) :
    scanLines (writtenSections sections ++ [[]]) = some ([], sections) := by
  induction sections with
  | nil => exact scanLines_blank rfl
  | cons s sections ih =>
    obtain ⟨hs, hsections⟩ := List.forall_mem_cons.mp h
    have hrest := ih hsections
    rcases sections with _ | ⟨next, sections⟩
    · simpa [writtenSections] using hs.scanLines (scanLines_blank rfl)
    · rw [writtenSections_cons_cons, List.append_assoc]
      exact hs.scanLines (scanLines_blank hrest)

theorem mem_writtenSections (h : line ∈ writtenSections sections) : line = [] ∨ ∃ s ∈ sections, line ∈ s.written := by
  induction sections with
  | nil => cases h
  | cons s sections ih =>
    rcases sections with _ | ⟨next, sections⟩
    · exact .inr ⟨s, List.mem_singleton_self s, by simpa [writtenSections] using h⟩
    · rw [writtenSections_cons_cons] at h
      rcases List.mem_append.mp h with h | h
      · exact .inr ⟨s, List.mem_cons_self, h⟩
      rcases List.mem_cons.mp h with h | h
      · exact .inl h
      · exact (ih h).imp_right fun ⟨s', hs', hline⟩ => ⟨s', List.mem_cons_of_mem s hs', hline⟩

/-- A line that is read as itself. -/
structure Stays (line : List Char) : Prop where
  unbroken : '\n' ∉ line
  ended : continues line = false

theorem stays_header (h : isName name) : Stays ('[' :: name ++ [']']) := by
  constructor
  · have hname : '\n' ∉ name := fun hmem => absurd (isBlank_of_isPlain ((isName_iff.mp h).2 _ hmem).1) (by decide)
    simp [hname]
  · rw [continues_concat, if_neg (by decide)]

theorem continues_writtenLine (d : Directive) : continues (writtenLine d) = continues d.2 := by
  rw [writtenLine, continues_append_cons (by decide), continues_doubled (by decide)]

theorem stays_writtenLine {d : Directive} (hname : isName d.1) (hvalue : Stands d.2) : Stays (writtenLine d) := by
  constructor
  · have hname : '\n' ∉ d.1 := fun hmem => absurd (isBlank_of_isPlain ((isName_iff.mp hname).2 _ hmem).1) (by decide)
    simp [writtenLine, hname, mem_doubled, hvalue.unbroken]
  · rw [continues_writtenLine, hvalue.ended]

/-- A directive's line does not open with a backslash. -/
theorem slash_not_mem_head {d : Directive} (hname : isName d.1) :
    '\\' ∉ ((writtenLine d).dropWhile isBlank).head? := by
  obtain ⟨name, value⟩ := d
  obtain ⟨hne, hall⟩ := isName_iff.mp hname
  rcases name with _ | ⟨c, name⟩
  · exact absurd rfl hne
  · have hplain := (hall c List.mem_cons_self).1
    rw [writtenLine, List.cons_append, List.dropWhile_cons_of_neg (by simp [isBlank_of_isPlain hplain])]
    intro hhead
    rw [Option.some.inj hhead] at hplain
    exact absurd hplain (by decide)

theorem stays_of_mem (h : ∀ s ∈ sections, s.Clean) (hline : line ∈ writtenSections sections) : Stays line := by
  rcases mem_writtenSections hline with rfl | ⟨s, hs, hline⟩
  · exact ⟨List.not_mem_nil, rfl⟩
  · rcases List.mem_cons.mp hline with rfl | hline
    · exact stays_header (h s hs).name
    · obtain ⟨d, hd, rfl⟩ := List.mem_map.mp hline
      exact stays_writtenLine ((h s hs).names d hd) ((h s hs).values d hd)

theorem writtenSections_ne_nil (h : sections ≠ []) : writtenSections sections ≠ [] := by
  rcases sections with _ | ⟨s, _ | ⟨next, sections⟩⟩
  · exact absurd rfl h
  · simp [writtenSections, Section.written]
  · simp [writtenSections, Section.written, List.intercalate_cons_cons]

theorem readSections_eq_some_iff :
    readSections text = some sections ↔ scanLines (logical (text.splitOn '\n')) = some ([], sections) := by
  rw [readSections]
  rcases scanLines (logical (text.splitOn '\n')) with _ | ⟨directives, sections'⟩
  · simp
  · by_cases hnone : directives = [] <;> simp [hnone]

/-- Sections whose values stand for themselves are read back as they were written. -/
theorem readSections_written (hne : sections ≠ []) (h : ∀ s ∈ sections, s.Clean) :
    readSections (List.intercalate ['\n'] (writtenSections sections) ++ ['\n']) = some sections := by
  have hended : ∀ line ∈ writtenSections sections ++ [[]], continues line = false := by
    intro line hline
    rcases List.mem_append.mp hline with hline | hline
    · exact (stays_of_mem h hline).ended
    · rw [List.mem_singleton.mp hline, continues_nil]
  rw [readSections_eq_some_iff, splitOn_lines (fun line hline => (stays_of_mem h hline).unbroken)
    (writtenSections_ne_nil hne), logical_eq_self hended, scanLines_writtenSections h]

/-! ### What was written -/

theorem eq_doubled_of_undouble {t u : List Char} (h : undouble d t = some u) : t = doubled d u := by
  induction t using undouble.induct d generalizing u with
  | case1 =>
    obtain rfl := Option.some.inj h
    rfl
  | case2 => simp [undouble] at h
  | case3 c hc =>
    simp only [undouble, hc, if_false, Option.some.injEq] at h
    simp [← h, doubled, hc]
  | case4 rest ih =>
    simp only [undouble, if_true, Option.map_eq_some_iff] at h
    obtain ⟨u, hu, rfl⟩ := h
    rw [doubled_cons, if_pos rfl, ih hu]
    rfl
  | case5 next rest hnext => simp [undouble, hnext] at h
  | case6 c next rest hc ih =>
    simp only [undouble, hc, if_false, Option.map_eq_some_iff] at h
    obtain ⟨u, hu, rfl⟩ := h
    rw [doubled_cons, if_neg hc, ih hu]
    rfl

/-- The value of a first directive is what its line reads as. -/
theorem value_of_scanLines {header value : List Char} {more : List (List Char)} {read : Option (List Char)}
    {directives : List Directive} (hheader : isName header) (hline : kindOf line = read.map (.directive name))
    (h : scanLines (('[' :: header ++ [']']) :: line :: more) =
      some ([], ⟨header, (name, value) :: directives⟩ :: sections)) : read = some value := by
  rw [scanLines_cons (kindOf_header hheader), scanLines, hline] at h
  rcases read with _ | read
  · cases h
  rcases hmore : scanLines more with _ | below
  · simp [hmore] at h
  · simp only [hmore, Option.map_some, Option.bind_some, Kind.onto, Option.some.injEq, Prod.mk.injEq, List.cons.injEq,
      Section.mk.injEq, true_and] at h
    rw [h.1.1]

/-- A first directive that is read as it was written has a value that stands for itself, whatever the line behind it
is. -/
theorem trimmed_of_scanLines {header value next : List Char} {rest : List (List Char)} {directives : List Directive}
    (hheader : isName header) (hname : isName name) (hnext : continues next = false)
    (hslash : '\\' ∉ (next.dropWhile isBlank).head?)
    (h : scanLines (logical (('[' :: header ++ [']']) :: writtenLine (name, value) :: next :: rest)) =
      some ([], ⟨header, (name, value) :: directives⟩ :: sections)) :
    trim value = value ∧ continues value = false := by
  rw [logical_cons (stays_header hheader).ended] at h
  have hline := continues_writtenLine (name, value)
  rcases hcontinues : continues value with _ | _
  · rw [logical_cons (hline.trans hcontinues)] at h
    have hread : some (trim value) = some value := value_of_scanLines hheader (kindOf_writtenLine hname) h
    exact ⟨Option.some.inj hread, rfl⟩
  · -- the line goes on in the next one, and its value is not what was written up to the backslash
    obtain ⟨start, rfl⟩ := exists_of_continues hcontinues
    have hvalue : doubled '%' (start ++ ['\\']) = doubled '%' start ++ ['\\'] := by simp [doubled]
    have hdropped : (writtenLine (name, start ++ ['\\'])).dropLast = name ++ '=' :: doubled '%' start := by
      rw [writtenLine, hvalue, ← List.cons_append, ← List.append_assoc, List.dropLast_concat]
    rw [logical_cons_cons (hline.trans hcontinues) hnext, hdropped, List.append_assoc, List.cons_append] at h
    have hread := eq_doubled_of_undouble (value_of_scanLines hheader (kindOf_directive hname _) h)
    exact absurd (hread.trans hvalue) (trim_joined_ne hslash)

end SystemdLine
