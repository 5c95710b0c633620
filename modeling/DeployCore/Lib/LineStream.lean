import DeployCore.Lib.Occurs

/-! # A stream taken a line at a time

A line ends behind a separator. A reader of lines takes each one whole, its separator with it, and nothing behind it; a
stream that ends first has no line left, only what stands behind its last separator. -/

namespace LineStream
variable {α : Type} [DecidableEq α] {sep : α} {p : List α → Bool} {stream line rest : List α} {lines more : List (List α)}

/-- The first line, without its separator, and what is behind it. -/
def readLine (sep : α) : List α → Option (List α × List α)
  | [] => none
  | x :: rest => if x = sep then some ([], rest) else (readLine sep rest).map fun read => (x :: read.1, read.2)

theorem readLine_append (h : sep ∉ line) : readLine sep (line ++ sep :: rest) = some (line, rest) := by
  induction line with
  | nil => simp [readLine]
  | cons x line ih =>
    obtain ⟨hx, hline⟩ := not_or.mp (mt List.mem_cons.mpr h)
    simp [readLine, Ne.symm hx, ih hline]

theorem readLine_eq_none (h : sep ∉ line) : readLine sep line = none := by
  induction line with
  | nil => rfl
  | cons x line ih =>
    obtain ⟨hx, hline⟩ := not_or.mp (mt List.mem_cons.mpr h)
    simp [readLine, Ne.symm hx, ih hline]

/-- A stream has a first line, or no separator. -/
theorem exists_line (sep : α) (stream : List α) :
    sep ∉ stream ∨ ∃ line rest, sep ∉ line ∧ stream = line ++ sep :: rest := by
  by_cases h : sep ∈ stream
  · obtain ⟨line, rest, hstream, hline⟩ := List.eq_append_cons_of_mem h
    exact .inr ⟨line, rest, hline, hstream⟩
  · exact .inl h

/-- Induction over the lines of a stream, from what stands behind the last separator. -/
theorem line_induction (sep : α) {motive : List α → Prop} (last : ∀ line, sep ∉ line → motive line)
    (more : ∀ line rest, sep ∉ line → motive rest → motive (line ++ sep :: rest)) (stream : List α) : motive stream := by
  induction hlength : stream.length using Nat.strong_induction_on generalizing stream with
  | _ n ih =>
    rcases exists_line sep stream with hsep | ⟨line, rest, hline, rfl⟩
    · exact last stream hsep
    · have hshorter : rest.length < n := by
        rw [← hlength, List.length_append, List.length_cons]
        omega
      exact more line rest hline (ih rest.length hshorter rest rfl)

theorem length_readLine (h : readLine sep stream = some (line, rest)) : rest.length < stream.length := by
  rcases exists_line sep stream with hsep | ⟨line', rest', hline, rfl⟩
  · rw [readLine_eq_none hsep] at h
    cases h
  · rw [readLine_append hline] at h
    cases h
    simp
    omega

/-- What is left once so many lines are taken; a stream that ends among them is taken whole. -/
def skip (sep : α) : Nat → List α → List α
  | 0, stream => stream
  | n + 1, stream =>
    match readLine sep stream with
    | none => []
    | some (_, rest) => skip sep n rest

/-- What is left once the lines up to the first that passes are taken, that one with them; `none` where the stream ends
ahead of its separator. -/
def skipThrough (sep : α) (p : List α → Bool) (stream : List α) : Option (List α) :=
  match _h : readLine sep stream with
  | none => none
  | some (line, rest) => if p line then some rest else skipThrough sep p rest
termination_by stream.length
decreasing_by exact length_readLine _h

theorem skipThrough_end (h : sep ∉ line) : skipThrough sep p line = none := by
  rw [skipThrough]
  split
  · rfl
  · next hread => rw [readLine_eq_none h] at hread; cases hread

theorem skipThrough_line (h : sep ∉ line) :
    skipThrough sep p (line ++ sep :: rest) = if p line then some rest else skipThrough sep p rest := by
  rw [skipThrough]
  split
  · next hread => rw [readLine_append h] at hread; cases hread
  · next hread =>
    rw [readLine_append h] at hread
    cases hread
    rfl

omit [DecidableEq α] in
theorem intercalate_cons (h : lines ≠ []) :
    [sep].intercalate (line :: lines) = line ++ sep :: [sep].intercalate lines := by
  obtain ⟨next, lines, rfl⟩ := List.exists_cons_of_ne_nil h
  simp [List.intercalate_cons_cons]

theorem length_splitOn (sep : α) (stream : List α) : (stream.splitOn sep).length = stream.count sep + 1 := by
  induction stream using line_induction sep with
  | last line hline => simp [List.splitOn_eq_singleton hline, List.count_eq_zero.mpr hline]
  | more line rest hline ih =>
    rw [List.splitOn_append_cons_self_of_not_mem hline, List.length_cons, ih]
    simp [List.count_eq_zero.mpr hline]

/-- The lines left are the last ones. -/
theorem skip_eq (n : Nat) (stream : List α) : skip sep n stream = [sep].intercalate ((stream.splitOn sep).drop n) := by
  induction n generalizing stream with
  | zero => simp [skip, List.intercalate_splitOn]
  | succ n ih =>
    rcases exists_line sep stream with hsep | ⟨line, rest, hline, rfl⟩
    · simp [skip, readLine_eq_none hsep, List.splitOn_eq_singleton hsep]
    · simp [skip, readLine_append hline, List.splitOn_append_cons_self_of_not_mem hline, ih]

theorem skip_short {n : Nat} (h : stream.count sep < n) : skip sep n stream = [] := by
  rw [skip_eq, List.drop_eq_nil_of_le (by rw [length_splitOn]; omega)]
  rfl

/-- Lines that a text holds whole are taken of it alone. -/
theorem skip_append {lead : List α} {n : Nat} (h : n ≤ lead.count sep) :
    skip sep n (lead ++ rest) = skip sep n lead ++ rest := by
  induction n generalizing lead with
  | zero => rfl
  | succ n ih =>
    rcases exists_line sep lead with hsep | ⟨line, lead, hline, rfl⟩
    · rw [List.count_eq_zero.mpr hsep] at h
      omega
    · have hlead : n ≤ lead.count sep := by
        simp only [List.count_append, List.count_eq_zero.mpr hline, List.count_cons_self] at h
        omega
      rw [List.append_assoc, List.cons_append, skip, readLine_append hline, skip, readLine_append hline]
      exact ih hlead

theorem skipThrough_none (hsep : ∀ line ∈ lines, sep ∉ line) (hp : ∀ line ∈ lines, p line = false) :
    skipThrough sep p ([sep].intercalate lines) = none := by
  induction lines with
  | nil => exact skipThrough_end (by simp)
  | cons line lines ih =>
    obtain ⟨hline, hlines⟩ := List.forall_mem_cons.mp hsep
    obtain ⟨hpline, hplines⟩ := List.forall_mem_cons.mp hp
    by_cases hend : lines = []
    · subst hend
      simpa using skipThrough_end hline
    · rw [intercalate_cons hend, skipThrough_line hline, hpline]
      exact ih hlines hplines

theorem skipThrough_some (hsep : ∀ line ∈ lines, sep ∉ line) (hp : ∀ line ∈ lines, p line = false)
    (hline : sep ∉ line) (hpline : p line = true) (hmore : more ≠ []) :
    skipThrough sep p ([sep].intercalate (lines ++ line :: more)) = some ([sep].intercalate more) := by
  induction lines with
  | nil => rw [List.nil_append, intercalate_cons hmore, skipThrough_line hline, if_pos hpline]
  | cons first lines ih =>
    obtain ⟨hfirst, hlines⟩ := List.forall_mem_cons.mp hsep
    obtain ⟨hpfirst, hplines⟩ := List.forall_mem_cons.mp hp
    rw [List.cons_append, intercalate_cons (by simp), skipThrough_line hfirst, hpfirst]
    exact ih hlines hplines

theorem not_mem_of_mem_splitOn (h : line ∈ stream.splitOn sep) : sep ∉ line := by
  induction stream using line_induction sep with
  | last last hlast =>
    rw [List.splitOn_eq_singleton hlast, List.mem_singleton] at h
    rwa [h]
  | more first rest hfirst ih =>
    rw [List.splitOn_append_cons_self_of_not_mem hfirst, List.mem_cons] at h
    rcases h with rfl | h
    · exact hfirst
    · exact ih h

theorem infix_of_mem_splitOn (h : line ∈ stream.splitOn sep) : line <:+: stream := by
  induction stream using line_induction sep with
  | last last hlast =>
    rw [List.splitOn_eq_singleton hlast, List.mem_singleton] at h
    exact h ▸ List.infix_rfl
  | more first rest hfirst ih =>
    rw [List.splitOn_append_cons_self_of_not_mem hfirst, List.mem_cons] at h
    rcases h with rfl | h
    · exact (List.prefix_append line (sep :: rest)).isInfix
    · exact (ih h).trans ⟨first ++ [sep], [], by simp⟩

/-- What has no separator in it occurs in a stream where it occurs in a line. -/
theorem infix_iff_line {needle : List α} (hneedle : sep ∉ needle) :
    needle <:+: stream ↔ ∃ line ∈ stream.splitOn sep, needle <:+: line := by
  induction stream using line_induction sep with
  | last line hline => simp [List.splitOn_eq_singleton hline]
  | more line rest hline ih =>
    rw [List.splitOn_append_cons_self_of_not_mem hline]
    simp only [List.mem_cons, exists_eq_or_imp, ← ih]
    constructor
    · exact Occurs.infix_append_cons hneedle
    · rintro (h | h)
      · exact h.trans (List.prefix_append line (sep :: rest)).isInfix
      · exact h.trans ⟨line ++ [sep], [], by simp⟩

/-- Past its leading text, taken in part, and a line that passes, a stream is left at its first element. -/
theorem skipThrough_skip {lead mark payload : List α} {n : Nat} (hmark : sep ∉ mark) (hpmark : p mark = true)
    (hlead : ∀ line ∈ lead.splitOn sep, p line = false) (hn : n ≤ lead.count sep + 1) :
    skipThrough sep p (skip sep n (lead ++ sep :: (mark ++ sep :: payload))) = some payload := by
  have hlines : (lead ++ sep :: (mark ++ sep :: payload)).splitOn sep =
      lead.splitOn sep ++ mark :: payload.splitOn sep := by
    rw [List.splitOn_append_cons_self, List.splitOn_append_cons_self_of_not_mem hmark]
  have hskipped : (lead.splitOn sep ++ mark :: payload.splitOn sep).drop n =
      (lead.splitOn sep).drop n ++ mark :: payload.splitOn sep :=
    List.drop_append_of_le_length (by rw [length_splitOn]; exact hn)
  rw [skip_eq, hlines, hskipped, skipThrough_some (fun line h => not_mem_of_mem_splitOn (List.mem_of_mem_drop h))
    (fun line h => hlead line (List.mem_of_mem_drop h)) hmark hpmark (List.splitOn_ne_nil sep payload),
    List.intercalate_splitOn]

/-- Once the line that passes is taken, the stream ends ahead of another. -/
theorem skipThrough_skip_past {lead mark payload : List α} {n : Nat} (hmark : sep ∉ mark)
    (hpayload : ∀ line ∈ payload.splitOn sep, p line = false) (hn : lead.count sep + 1 < n) :
    skipThrough sep p (skip sep n (lead ++ sep :: (mark ++ sep :: payload))) = none := by
  have hlines : (lead ++ sep :: (mark ++ sep :: payload)).splitOn sep =
      lead.splitOn sep ++ [mark] ++ payload.splitOn sep := by
    rw [List.splitOn_append_cons_self, List.splitOn_append_cons_self_of_not_mem hmark, List.append_assoc]
    rfl
  obtain ⟨j, hj⟩ := Nat.exists_eq_add_of_lt hn
  have hskipped : (lead.splitOn sep ++ [mark] ++ payload.splitOn sep).drop n = (payload.splitOn sep).drop j := by
    rw [List.drop_append, List.drop_eq_nil_of_le (by simp [length_splitOn]; omega), List.nil_append]
    congr 1
    simp [length_splitOn]
    omega
  rw [skip_eq, hlines, hskipped]
  exact skipThrough_none (fun line h => not_mem_of_mem_splitOn (List.mem_of_mem_drop h))
    (fun line h => hpayload line (List.mem_of_mem_drop h))

/-- What the start of a stream is left at, the stream is left at too, with the rest behind it. -/
theorem skipThrough_append {left more : List α} (h : skipThrough sep p stream = some left) :
    skipThrough sep p (stream ++ more) = some (left ++ more) := by
  induction stream using line_induction sep with
  | last line hline =>
    rw [skipThrough_end hline] at h
    cases h
  | more line rest hline ih =>
    rw [skipThrough_line hline] at h
    rw [List.append_assoc, List.cons_append, skipThrough_line hline]
    split_ifs at h ⊢
    · rw [Option.some.inj h]
    · exact ih h

theorem skipThrough_skip_append {left more : List α} {n : Nat} (h : skipThrough sep p (skip sep n stream) = some left) :
    skipThrough sep p (skip sep n (stream ++ more)) = some (left ++ more) := by
  rcases Nat.lt_or_ge (stream.count sep) n with hshort | hn
  · rw [skip_short hshort, skipThrough_end List.not_mem_nil] at h
    cases h
  · rw [skip_append hn]
    exact skipThrough_append h

end LineStream
