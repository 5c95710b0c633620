import DeployCore.JsonTokens

/-! # The JSON scan

The one pass over a document that checks its syntax, its depth and its keys before anything is deserialised from it. -/

namespace DeployCore
namespace JsonScan
open JsonText

/-- The most state one scan held at once. -/
structure Footprint where
  containers : Nat
  keyBytes : Nat
  deriving DecidableEq

/-- The scanner over what is left of the bytes; the innermost open container comes first. A slice is shorter than its
lengths can count, so none of the sums saturates. -/
structure Scanner where
  rest : List UInt8
  depth : ResourceLimit
  stack : List Frame
  keyBytes : Nat
  footprint : Footprint
  deriving DecidableEq

/-- The `'value` loop, and the loop in it that closes what a value completes. -/
inductive Loop
  | value
  | closing
  deriving DecidableEq

def duplicateKey : ContentFault :=
  .malformed .jsonDuplicateKey

def Loop.phase : Loop → Phase
  | .value => .value
  | .closing => .after

namespace Scanner

def skipWhitespace (s : Scanner) : Scanner :=
  { s with rest := s.rest.dropWhile isWs }

/-- `open`. -/
def openFrame (s : Scanner) (frame : Frame) : Except ContentFault Scanner :=
  if s.depth.max < s.stack.length + 1 then .error s.depth.exceeded
  else
    let stack := frame :: s.stack
    let containers := max s.footprint.containers stack.length
    .ok { s with rest := s.rest.tail, stack, footprint := { s.footprint with containers } }

def close (s : Scanner) : Scanner :=
  match s.stack with
  | .object seen :: stack => { s with stack, keyBytes := s.keyBytes - (seen.map String.utf8ByteSize).sum }
  | .array :: stack => { s with stack }
  | [] => s

/-- Reads one object key and the colon after it. -/
def key (s : Scanner) : Except ContentFault Scanner := do
  if s.rest.head? ≠ some 0x22 then .error syntaxFault
  else
    let (decoded, rest) ← string true s.rest
    match decoded, s.stack with
    | some key, .object seen :: stack =>
      if key ∈ seen then .error duplicateKey
      else
        let keyBytes := s.keyBytes + key.utf8ByteSize
        let footprint := { s.footprint with keyBytes := max s.footprint.keyBytes keyBytes }
        let rest := rest.dropWhile isWs
        if rest.head? ≠ some 0x3A then .error syntaxFault
        else .ok { s with rest := rest.tail, stack := .object (key :: seen) :: stack, keyBytes, footprint }
    | _, _ => .error syntaxFault

/-- One round of the `'value` loop up to where a value is complete or the next one begins. -/
def value (s : Scanner) : Except ContentFault (Loop × Scanner) := do
  let s := s.skipWhitespace
  match s.rest.head? with
  | none => .error syntaxFault
  | some b =>
    if b = 0x7B then
      let s := (← s.openFrame (.object [])).skipWhitespace
      if s.rest.head? = some 0x7D then return (.closing, { s with rest := s.rest.tail }.close)
      else return (.value, ← s.key)
    else if b = 0x5B then
      let s := (← s.openFrame .array).skipWhitespace
      if s.rest.head? = some 0x5D then return (.closing, { s with rest := s.rest.tail }.close)
      else return (.value, s)
    else if b = 0x22 then
      let (_, rest) ← string false s.rest
      return (.closing, { s with rest })
    else if b = 0x74 then return (.closing, { s with rest := ← literal [0x74, 0x72, 0x75, 0x65] s.rest })
    else if b = 0x66 then return (.closing, { s with rest := ← literal [0x66, 0x61, 0x6C, 0x73, 0x65] s.rest })
    else if b = 0x6E then return (.closing, { s with rest := ← literal [0x6E, 0x75, 0x6C, 0x6C] s.rest })
    else if b = 0x2D ∨ isDigit b then return (.closing, { s with rest := ← number s.rest })
    else .error syntaxFault

/-- One round of the inner loop; none where the scan is over. -/
def closing (s : Scanner) : Except ContentFault (Option (Loop × Scanner)) := do
  let s := s.skipWhitespace
  match s.stack with
  | [] => if s.rest = [] then return none else .error syntaxFault
  | .array :: _ =>
    let (b, rest) ← nextByte s.rest
    if b = 0x2C then return some (.value, { s with rest })
    else if b = 0x5D then return some (.closing, { s with rest }.close)
    else .error syntaxFault
  | .object _ :: _ =>
    let (b, rest) ← nextByte s.rest
    if b = 0x2C then return some (.value, ← { s with rest }.skipWhitespace.key)
    else if b = 0x7D then return some (.closing, { s with rest }.close)
    else .error syntaxFault

/-- One round that came through: it read something, and what a run makes of the rest it makes of the whole. -/
structure Goes (s : Scanner) (p : Phase) (s' : Scanner) (p' : Phase) : Prop where
  depth : s'.depth = s.depth
  shorter : s'.rest.length < s.rest.length
  leads : ∀ o, Run true s.depth.max o p' s'.stack s'.rest → Run true s.depth.max o p s.stack s.rest

/-- What a fault says of the run: a syntax fault nothing. -/
def Stops (s : Scanner) (p : Phase) (fault : ContentFault) : Prop :=
  fault = syntaxFault ∨
  fault = s.depth.exceeded ∧ Run true s.depth.max .tooDeep p s.stack s.rest ∨
  fault = duplicateKey ∧ Run true s.depth.max .repeated p s.stack s.rest

variable {s s' : Scanner} {fault : ContentFault} {loop : Loop}

theorem exists_ws (rest : List UInt8) : ∃ w, rest = w ++ rest.dropWhile isWs ∧ Ws w :=
  ⟨rest.takeWhile isWs, List.takeWhile_append_dropWhile.symm,
    fun b hb => List.all_eq_true.mp (List.all_takeWhile (l := rest)) b hb⟩

/-- What a call that reads a key owes the run. -/
def KeySpec (s : Scanner) : Except ContentFault Scanner → Prop
  | .ok s' => s.Goes .member s' .value
  | .error fault => s.Stops .member fault

theorem key_spec (s : Scanner) : s.KeySpec s.key := by
  rw [key]
  split_ifs with hquote
  · exact .inl rfl
  obtain ⟨tail, htail⟩ := List.head?_eq_some_iff.mp (not_not.mp hquote)
  rcases hstring : string true s.rest with fault | ⟨decoded, rest⟩
  · exact .inl (string_syntaxOnly true s.rest fault hstring)
  obtain ⟨raw, cs, hraw, hcontent, rfl⟩ := string_sound hstring
  rw [htail, List.tail_cons] at hraw
  rw [Checks.ok_bind, if_pos rfl]
  dsimp only
  rcases hstack : s.stack with _ | ⟨_ | seen, stack⟩
  · exact .inl rfl
  · exact .inl rfl
  dsimp only
  by_cases hmem : String.ofList cs ∈ seen
  · rw [if_pos hmem]
    refine .inr (.inr ⟨rfl, ?_⟩)
    rw [hstack, htail, hraw]
    exact .repeated ws_nil hcontent hmem rfl
  rw [if_neg hmem]
  by_cases hcolon : (rest.dropWhile isWs).head? = some 0x3A
  · obtain ⟨left, hleft⟩ := List.head?_eq_some_iff.mp hcolon
    obtain ⟨w, hw, hws⟩ := exists_ws rest
    rw [hleft] at hw
    rw [if_neg (not_not.mpr hcolon), hleft]
    have hsplit : s.rest = 0x22 :: (raw ++ 0x22 :: (w ++ [0x3A])) ++ left := by
      rw [htail, hraw, hw]
      simp only [List.cons_append, List.append_assoc, List.nil_append]
    refine ⟨rfl, ?_, fun o hrun => ?_⟩
    · rw [hsplit, List.length_append, List.length_cons]
      exact Nat.lt_add_of_pos_left (Nat.succ_pos _)
    · rw [hstack, hsplit]
      exact .key (.mk ws_nil hcontent hws) (fun _ => hmem) hrun
  · rw [if_pos hcolon]
    exact .inl rfl

theorem Stops.lift (s₁ : Scanner) {p p' : Phase} (hdepth : s₁.depth = s.depth)
    (hleads : ∀ o, Run true s.depth.max o p' s₁.stack s₁.rest → Run true s.depth.max o p s.stack s.rest)
    (h : s₁.Stops p' fault) : s.Stops p fault := by
  rw [Stops, hdepth] at h
  rcases h with h | ⟨h, hrun⟩ | ⟨h, hrun⟩
  · exact .inl h
  · exact .inr (.inl ⟨h, hleads _ hrun⟩)
  · exact .inr (.inr ⟨h, hleads _ hrun⟩)

theorem Goes.lift (s₁ : Scanner) {p p' p'' : Phase} (hdepth : s₁.depth = s.depth)
    (hshorter : s₁.rest.length ≤ s.rest.length)
    (hleads : ∀ o, Run true s.depth.max o p' s₁.stack s₁.rest → Run true s.depth.max o p s.stack s.rest)
    (h : s₁.Goes p' s' p'') : s.Goes p s' p'' :=
  ⟨h.depth.trans hdepth, Nat.lt_of_lt_of_le h.shorter hshorter, fun o hrun => hleads o (hdepth ▸ h.leads o (hdepth ▸ hrun))⟩

/-- What a round of the `'value` loop owes the run. -/
def ValueSpec (s : Scanner) : Except ContentFault (Loop × Scanner) → Prop
  | .ok (loop, s') => s.Goes .value s' loop.phase
  | .error fault => s.Stops .value fault

theorem goes_scalar {v left : List UInt8} (hsplit : s.rest.dropWhile isWs = v ++ left) (hv : Scalar v) (hne : v ≠ []) :
    s.Goes .value { s.skipWhitespace with rest := left } .after := by
  obtain ⟨w, hw, hws⟩ := exists_ws s.rest
  rw [hsplit] at hw
  refine ⟨rfl, ?_, fun o hrun => ?_⟩
  · rw [hw, List.length_append, List.length_append]
    have hpos := List.length_pos_iff.mpr hne
    show left.length < _
    omega
  · rw [hw]
    exact .scalar hws hv hrun

theorem scalar_spec {token : Except ContentFault (List UInt8)} (hfault : SyntaxOnly token)
    (hok : ∀ left, token = .ok left → ∃ v, s.rest.dropWhile isWs = v ++ left ∧ Scalar v ∧ v ≠ []) :
    s.ValueSpec (do return (.closing, { s.skipWhitespace with rest := ← token })) := by
  rcases token with fault | left
  · exact .inl (hfault fault rfl)
  · obtain ⟨v, hsplit, hv, hne⟩ := hok left rfl
    exact goes_scalar hsplit hv hne

theorem literal_spec {word : List UInt8} (hword : word ∈ literals) :
    s.ValueSpec (do return (.closing, { s.skipWhitespace with rest := ← literal word s.skipWhitespace.rest })) := by
  refine scalar_spec (literal_syntaxOnly _ _) fun left h => ⟨word, literal_sound h, .literal hword, ?_⟩
  rintro rfl
  revert hword
  decide

/-- What opening a container does: a level too many is refused, and otherwise its bracket is read. -/
theorem openFrame_cases {tail : List UInt8} {b : UInt8} (hrest : s.rest = b :: tail) (frame : Frame) :
    (s.depth.max ≤ s.stack.length ∧ s.openFrame frame = .error s.depth.exceeded) ∨
    (s.stack.length < s.depth.max ∧ ∃ s₁, s.openFrame frame = .ok s₁ ∧ s₁.depth = s.depth ∧
      s₁.stack = frame :: s.stack ∧ s₁.rest = tail) := by
  rw [openFrame]
  split_ifs with hdeep
  · exact .inl ⟨Nat.le_of_lt_succ hdeep, rfl⟩
  · exact .inr ⟨Nat.not_le.mp fun h => hdeep (Nat.lt_succ_of_le h), _, rfl, rfl, rfl, by rw [hrest]; rfl⟩

theorem close_stack {frame : Frame} {stack : List Frame} (h : s.stack = frame :: stack) : s.close.stack = stack := by
  rw [close, h]
  cases frame <;> rfl

@[simp] theorem close_rest : s.close.rest = s.rest := by
  rw [close]
  split <;> rfl

@[simp] theorem close_depth : s.close.depth = s.depth := by
  rw [close]
  split <;> rfl

/-- A round that ends in closing a container. -/
theorem goes_close {s₁ : Scanner} {frame : Frame} {stack : List Frame} {p : Phase} (hdepth : s₁.depth = s.depth)
    (hstack : s₁.stack = frame :: stack) (hshorter : s₁.rest.length < s.rest.length)
    (hrun : ∀ o, Run true s.depth.max o .after stack s₁.rest → Run true s.depth.max o p s.stack s.rest) :
    s.Goes p s₁.close .after := by
  refine ⟨close_depth.trans hdepth, close_rest.symm ▸ hshorter, fun o h => ?_⟩
  rw [close_stack hstack, close_rest] at h
  exact hrun o h

theorem object_spec {tail : List UInt8} (hrest : s.rest.dropWhile isWs = 0x7B :: tail) :
    s.ValueSpec (do
      let s := (← s.skipWhitespace.openFrame (.object [])).skipWhitespace
      if s.rest.head? = some 0x7D then return (.closing, { s with rest := s.rest.tail }.close)
      else return (.value, ← s.key)) := by
  obtain ⟨w, hw, hws⟩ := exists_ws s.rest
  rw [hrest] at hw
  obtain ⟨hdeep, hopen⟩ | ⟨hroom, s₁, hopen, hdepth, hstack, rfl⟩ :=
    openFrame_cases (s := s.skipWhitespace) hrest (.object [])
  · rw [hopen]
    refine .inr (.inl ⟨rfl, ?_⟩)
    rw [hw]
    exact .deep hws (.inr rfl) hdeep
  rw [hopen, Checks.ok_bind]
  obtain ⟨t, ht, hts⟩ := exists_ws s₁.rest
  rw [ht] at hw
  dsimp only
  split_ifs with hempty
  · obtain ⟨left, hleft⟩ := List.head?_eq_some_iff.mp hempty
    have hleft' : s₁.rest.dropWhile isWs = 0x7D :: left := hleft
    have hrest' : s₁.skipWhitespace.rest.tail = left := congrArg List.tail hleft
    rw [hleft'] at hw
    refine goes_close hdepth hstack ?_ fun o h => ?_
    · rw [hw, hrest']
      simp only [List.length_append, List.length_cons]
      omega
    · rw [hw]
      exact .emptyObject hws hroom hts (hrest' ▸ h)
  · have hleads : ∀ o, Run true s.depth.max o .member s₁.skipWhitespace.stack s₁.skipWhitespace.rest →
        Run true s.depth.max o .value s.stack s.rest := fun o h => by
      rw [hw]
      exact .object hws hroom (.member_ws hts (hstack ▸ h))
    have hkey := s₁.skipWhitespace.key_spec
    rcases hread : s₁.skipWhitespace.key with fault | s' <;> rw [hread] at hkey
    · exact Stops.lift s₁.skipWhitespace hdepth hleads hkey
    · refine Goes.lift s₁.skipWhitespace hdepth ?_ hleads hkey
      rw [hw, List.length_append, List.length_cons, List.length_append]
      show (s₁.rest.dropWhile isWs).length ≤ _
      omega

theorem array_spec {tail : List UInt8} (hrest : s.rest.dropWhile isWs = 0x5B :: tail) :
    s.ValueSpec (do
      let s := (← s.skipWhitespace.openFrame .array).skipWhitespace
      if s.rest.head? = some 0x5D then return (.closing, { s with rest := s.rest.tail }.close)
      else return (.value, s)) := by
  obtain ⟨w, hw, hws⟩ := exists_ws s.rest
  rw [hrest] at hw
  obtain ⟨hdeep, hopen⟩ | ⟨hroom, s₁, hopen, hdepth, hstack, rfl⟩ :=
    openFrame_cases (s := s.skipWhitespace) hrest .array
  · rw [hopen]
    refine .inr (.inl ⟨rfl, ?_⟩)
    rw [hw]
    exact .deep hws (.inl rfl) hdeep
  rw [hopen, Checks.ok_bind]
  obtain ⟨t, ht, hts⟩ := exists_ws s₁.rest
  rw [ht] at hw
  dsimp only
  split_ifs with hempty
  · obtain ⟨left, hleft⟩ := List.head?_eq_some_iff.mp hempty
    have hleft' : s₁.rest.dropWhile isWs = 0x5D :: left := hleft
    have hrest' : s₁.skipWhitespace.rest.tail = left := congrArg List.tail hleft
    rw [hleft'] at hw
    refine goes_close hdepth hstack ?_ fun o h => ?_
    · rw [hw, hrest']
      simp only [List.length_append, List.length_cons]
      omega
    · rw [hw]
      exact .emptyArray hws hroom hts (hrest' ▸ h)
  · refine ⟨hdepth, ?_, fun o h => ?_⟩
    · rw [hw, List.length_append, List.length_cons, List.length_append]
      show (s₁.rest.dropWhile isWs).length < _
      omega
    · rw [hw]
      exact .array hws hroom (.value_ws hts (hstack ▸ h))

theorem value_spec (s : Scanner) : s.ValueSpec s.value := by
  rw [value]
  rcases hhead : s.skipWhitespace.rest.head? with _ | b
  · exact .inl rfl
  obtain ⟨tail, htail⟩ := List.head?_eq_some_iff.mp hhead
  have htail' : s.rest.dropWhile isWs = b :: tail := htail
  dsimp only
  by_cases hobject : b = 0x7B
  · rw [if_pos hobject]
    exact object_spec (hobject ▸ htail')
  rw [if_neg hobject]
  by_cases harray : b = 0x5B
  · rw [if_pos harray]
    exact array_spec (harray ▸ htail')
  rw [if_neg harray]
  by_cases hstring : b = 0x22
  · rw [if_pos hstring]
    rcases hread : string false s.skipWhitespace.rest with fault | ⟨out, left⟩
    · exact .inl (string_syntaxOnly _ _ fault hread)
    · obtain ⟨raw, cs, hraw, hcontent, -⟩ := string_sound hread
      rw [htail, List.tail_cons] at hraw
      refine goes_scalar ?_ (.string hcontent) (List.cons_ne_nil _ _)
      rw [htail', hstring, hraw, List.cons_append, List.append_assoc, List.singleton_append]
  rw [if_neg hstring]
  by_cases htrue : b = 0x74
  · rw [if_pos htrue]
    exact literal_spec (.head _)
  rw [if_neg htrue]
  by_cases hfalse : b = 0x66
  · rw [if_pos hfalse]
    exact literal_spec (.tail _ (.head _))
  rw [if_neg hfalse]
  by_cases hnull : b = 0x6E
  · rw [if_pos hnull]
    exact literal_spec (.tail _ (.tail _ (.head _)))
  rw [if_neg hnull]
  by_cases hnumber : b = 0x2D ∨ isDigit b
  · rw [if_pos hnumber]
    refine scalar_spec (number_syntaxOnly _) fun left h => ?_
    obtain ⟨v, hsplit, hv⟩ := number_sound h
    obtain ⟨c, v', rfl, -⟩ := hv.head
    exact ⟨c :: v', hsplit, .number hv, List.cons_ne_nil _ _⟩
  · rw [if_neg hnumber]
    exact .inl rfl

/-- What a round of the inner loop owes the run. -/
def ClosingSpec (s : Scanner) : Except ContentFault (Option (Loop × Scanner)) → Prop
  | .ok none => Run true s.depth.max .accepted .after s.stack s.rest
  | .ok (some (loop, s')) => s.Goes .after s' loop.phase
  | .error fault => s.Stops .after fault

theorem closing_spec (s : Scanner) : s.ClosingSpec s.closing := by
  obtain ⟨w, hw, hws⟩ := exists_ws s.rest
  have hskip : s.skipWhitespace.rest = s.rest.dropWhile isWs := rfl
  have hstack' : s.skipWhitespace.stack = s.stack := rfl
  have hshorter : ∀ b left, s.rest = w ++ b :: left → left.length < s.rest.length := fun b left h => by
    rw [h, List.length_append, List.length_cons]
    omega
  rw [closing]
  rcases hstack : s.stack with _ | ⟨_ | seen, stack⟩ <;> rw [hstack', hstack] <;> dsimp only
  · split_ifs with hend
    · rw [← hskip, hend, List.append_nil] at hw
      show Run true s.depth.max .accepted .after s.stack s.rest
      rw [hstack, hw]
      exact .finish hws
    · exact .inl rfl
  · rcases hrest : s.skipWhitespace.rest with _ | ⟨b, rest⟩
    · exact .inl rfl
    rw [← hskip, hrest] at hw
    rw [nextByte, Checks.ok_bind]
    dsimp only
    split_ifs with hcomma hbracket
    · refine ⟨rfl, hshorter b rest hw, fun o h => ?_⟩
      rw [hw, hcomma, hstack]
      exact .element hws (hstack ▸ h)
    · refine goes_close rfl rfl (hshorter b rest hw) fun o h => ?_
      rw [hw, hbracket, hstack]
      exact .closeArray hws h
    · exact .inl rfl
  · rcases hrest : s.skipWhitespace.rest with _ | ⟨b, rest⟩
    · exact .inl rfl
    rw [← hskip, hrest] at hw
    rw [nextByte, Checks.ok_bind]
    dsimp only
    split_ifs with hcomma hbrace
    · obtain ⟨t, ht, hts⟩ := exists_ws rest
      generalize hs₁ : Scanner.skipWhitespace _ = s₁
      have hdepth : s₁.depth = s.depth := hs₁ ▸ rfl
      have hrest₁ : s₁.rest = rest.dropWhile isWs := hs₁ ▸ rfl
      have hstack₁ : s₁.stack = .object seen :: stack := hs₁ ▸ rfl
      have hkey := s₁.key_spec
      have hleads : ∀ o, Run true s.depth.max o .member s₁.stack s₁.rest →
          Run true s.depth.max o .after s.stack s.rest := fun o h => by
        rw [hw, hcomma, hstack, ht, ← hrest₁]
        exact .member hws (.member_ws hts (hstack₁ ▸ h))
      rcases hread : s₁.key with fault | s' <;> rw [hread] at hkey
      · exact Stops.lift s₁ hdepth hleads hkey
      · refine Goes.lift s₁ hdepth (Nat.le_of_lt (Nat.lt_of_le_of_lt ?_ (hshorter b rest hw))) hleads hkey
        exact hrest₁ ▸ (List.dropWhile_sublist isWs).length_le
    · refine goes_close rfl rfl (hshorter b rest hw) fun o h => ?_
      rw [hw, hbrace, hstack]
      exact .closeObject hws h
    · exact .inl rfl

theorem value_length {loop : Loop} (h : s.value = .ok (loop, s')) : s'.rest.length < s.rest.length := by
  have hspec := s.value_spec
  rw [h] at hspec
  exact hspec.shorter

theorem closing_length {loop : Loop} (h : s.closing = .ok (some (loop, s'))) : s'.rest.length < s.rest.length := by
  have hspec := s.closing_spec
  rw [h] at hspec
  exact hspec.shorter

def run (loop : Loop) (s : Scanner) : Except ContentFault Footprint :=
  match loop with
  | .value =>
    match _h : s.value with
    | .error fault => .error fault
    | .ok (loop, s') => run loop s'
  | .closing =>
    match _h : s.closing with
    | .error fault => .error fault
    | .ok none => .ok s.footprint
    | .ok (some (loop, s')) => run loop s'
termination_by s.rest.length
decreasing_by
  · exact value_length ‹_›
  · exact closing_length ‹_›

end Scanner

/-- Scans `bytes` once, left to right and without recursion. -/
def scan (bytes : List UInt8) (depth : ResourceLimit) : Except ContentFault Footprint :=
  Scanner.run .value ⟨bytes, depth, [], 0, ⟨0, 0⟩⟩

namespace Scanner
variable {s s' : Scanner} {fault : ContentFault} {loop : Loop}

theorem run_value (h : s.value = .ok (loop, s')) : run .value s = run loop s' := by
  rw [run]
  split
  · next h' => rw [h] at h'; cases h'
  · next h' => rw [h] at h'; cases h'; rfl

theorem run_value_error (h : s.value = .error fault) : run .value s = .error fault := by
  rw [run]
  split
  · next h' => rw [h] at h'; cases h'; rfl
  · next h' => rw [h] at h'; cases h'

theorem run_closing (h : s.closing = .ok (some (loop, s'))) : run .closing s = run loop s' := by
  rw [run]
  split
  · next h' => rw [h] at h'; cases h'
  · next h' => rw [h] at h'; cases h'
  · next h' => rw [h] at h'; cases h'; rfl

theorem run_closing_error (h : s.closing = .error fault) : run .closing s = .error fault := by
  rw [run]
  split
  · next h' => rw [h] at h'; cases h'; rfl
  · next h' => rw [h] at h'; cases h'
  · next h' => rw [h] at h'; cases h'

theorem run_closing_none (h : s.closing = .ok none) : run .closing s = .ok s.footprint := by
  rw [run]
  split
  · next h' => rw [h] at h'; cases h'
  · rfl
  · next h' => rw [h] at h'; cases h'

/-- What a scan from here owes the run. -/
def RunSpec (p : Phase) (s : Scanner) : Except ContentFault Footprint → Prop
  | .ok _ => Run true s.depth.max .accepted p s.stack s.rest
  | .error fault => s.Stops p fault

theorem Goes.run {p p' : Phase} (h : s.Goes p s' p') {r : Except ContentFault Footprint} (hr : RunSpec p' s' r) :
    RunSpec p s r := by
  rcases r with fault | footprint
  · exact Stops.lift s' h.depth h.leads hr
  · exact h.leads _ (h.depth ▸ hr)

theorem run_spec (loop : Loop) (s : Scanner) : RunSpec loop.phase s (run loop s) := by
  fun_induction run loop s with
  | case1 s fault h =>
    have hspec := s.value_spec
    rw [h] at hspec
    exact hspec
  | case2 s loop s' h ih =>
    have hspec := s.value_spec
    rw [h] at hspec
    exact Goes.run hspec ih
  | case3 s fault h =>
    have hspec := s.closing_spec
    rw [h] at hspec
    exact hspec
  | case4 s h =>
    have hspec := s.closing_spec
    rw [h] at hspec
    exact hspec
  | case5 s loop s' h ih =>
    have hspec := s.closing_spec
    rw [h] at hspec
    exact Goes.run hspec ih

/-! ## The scan follows every run -/

theorem drop_ws {w x : List UInt8} (hw : Ws w) (hx : ∀ b ∈ x.head?, ¬isWs b) : (w ++ x).dropWhile isWs = x := by
  induction w with
  | nil =>
    rcases x with _ | ⟨b, x⟩
    · rfl
    · rw [List.nil_append, List.dropWhile_cons, if_neg (hx b rfl)]
  | cons b w ih =>
    rw [List.cons_append, List.dropWhile_cons, if_pos (hw b List.mem_cons_self)]
    exact ih fun b hb => hw b (List.mem_cons_of_mem _ hb)

theorem drop_ws_cons {w x : List UInt8} {b : UInt8} (hw : Ws w) (hb : ¬isWs b) :
    (w ++ b :: x).dropWhile isWs = b :: x :=
  drop_ws hw fun _ hc => Option.some.inj hc ▸ hb

theorem value_literal {word x : List UInt8} (hskip : s.skipWhitespace.rest = word ++ x) (hword : word ∈ literals) :
    s.value = .ok (.closing, { s.skipWhitespace with rest := x }) := by
  rw [value]
  dsimp only
  simp only [literals, List.mem_cons, List.not_mem_nil, or_false] at hword
  rcases hword with rfl | rfl | rfl
  · rw [hskip, literal_complete, List.cons_append, List.head?_cons]
    rfl
  · rw [hskip, literal_complete [0x66, 0x61, 0x6C, 0x73, 0x65], List.cons_append, List.head?_cons]
    rfl
  · rw [hskip, literal_complete [0x6E, 0x75, 0x6C, 0x6C], List.cons_append, List.head?_cons]
    rfl

theorem value_number {v x : List UInt8} (hskip : s.skipWhitespace.rest = v ++ x) (hv : Number v) (hx : Quiet x) :
    s.value = .ok (.closing, { s.skipWhitespace with rest := x }) := by
  have hnumber := number_complete hv hx
  obtain ⟨b, tail, rfl, hb⟩ := hv.head
  have hne : ∀ c, ¬(c = 0x2D ∨ isDigit c) → b ≠ c := by
    rintro c hc rfl
    exact hc hb
  rw [value]
  dsimp only
  rw [hskip, List.cons_append, List.head?_cons]
  dsimp only
  rw [if_neg (hne _ (by decide)), if_neg (hne _ (by decide)), if_neg (hne _ (by decide)), if_neg (hne _ (by decide)),
    if_neg (hne _ (by decide)), if_neg (hne _ (by decide)), if_pos hb]
  rw [List.cons_append] at hnumber
  rw [hnumber]
  rfl

theorem value_string {raw x : List UInt8} {cs : List Char}
    (hskip : s.skipWhitespace.rest = 0x22 :: (raw ++ [0x22]) ++ x) (hcontent : Content raw cs) :
    s.value = .ok (.closing, { s.skipWhitespace with rest := x }) := by
  rw [List.cons_append, List.append_assoc, List.singleton_append] at hskip
  rw [value]
  dsimp only
  rw [hskip, List.head?_cons, string_complete hcontent]
  rfl

theorem value_scalar {w v x : List UInt8} (hrest : s.rest = w ++ (v ++ x)) (hw : Ws w) (hv : Scalar v) (hx : Quiet x) :
    s.value = .ok (.closing, { s.skipWhitespace with rest := x }) := by
  have hskip : s.skipWhitespace.rest = v ++ x := by
    obtain ⟨b, tail, rfl, hws, -⟩ := hv.head
    show s.rest.dropWhile isWs = _
    rw [hrest]
    exact drop_ws_cons hw hws
  cases hv with
  | literal h => exact value_literal hskip h
  | number h => exact value_number hskip h hx
  | string h => exact value_string hskip h

theorem value_deep {w x : List UInt8} {c : UInt8} (hrest : s.rest = w ++ c :: x) (hw : Ws w)
    (hc : c = 0x5B ∨ c = 0x7B) (hdeep : s.depth.max ≤ s.stack.length) : s.value = .error s.depth.exceeded := by
  have hskip : s.skipWhitespace.rest = c :: x := by
    show s.rest.dropWhile isWs = _
    rw [hrest]
    rcases hc with rfl | rfl <;> exact drop_ws_cons hw (by decide)
  have hopen : ∀ frame, s.skipWhitespace.openFrame frame = .error s.depth.exceeded := fun frame =>
    if_pos (Nat.lt_succ_of_le hdeep)
  rw [value]
  dsimp only
  rw [hskip, List.head?_cons]
  dsimp only
  rcases hc with rfl | rfl
  · rw [if_neg (by decide), if_pos rfl, hopen]
    rfl
  · rw [if_pos rfl, hopen]
    rfl

theorem skip_eq {w x : List UInt8} {b : UInt8} (hrest : s.rest = w ++ b :: x) (hw : Ws w) (hb : ¬isWs b) :
    s.skipWhitespace.rest = b :: x := by
  show s.rest.dropWhile isWs = _
  rw [hrest]
  exact drop_ws_cons hw hb

theorem skip_skip : s.skipWhitespace.skipWhitespace = s.skipWhitespace := by
  obtain ⟨w, hw, hws⟩ := exists_ws s.rest
  have hdrop : (s.rest.dropWhile isWs).dropWhile isWs = s.rest.dropWhile isWs := List.dropWhile_idempotent ..
  show { s with rest := (s.rest.dropWhile isWs).dropWhile isWs } = { s with rest := s.rest.dropWhile isWs }
  rw [hdrop]

theorem run_value_skip (s : Scanner) : run .value s.skipWhitespace = run .value s := by
  have hvalue : s.skipWhitespace.value = s.value := by
    rw [value, value, skip_skip]
  rcases h : s.value with fault | ⟨loop, s'⟩
  · rw [run_value_error h, run_value_error (hvalue.trans h)]
  · rw [run_value h, run_value (hvalue.trans h)]

/-- A round at an opening bracket with room for it: what the container has behind it decides. -/
theorem value_open {w x : List UInt8} (hw : Ws w) (hroom : s.stack.length < s.depth.max) :
    (s.rest = w ++ 0x7B :: x → ∃ s₁ : Scanner, s₁.depth = s.depth ∧ s₁.stack = .object [] :: s.stack ∧ s₁.rest = x ∧
      s.value = (if s₁.skipWhitespace.rest.head? = some 0x7D then
        return (.closing, { s₁.skipWhitespace with rest := s₁.skipWhitespace.rest.tail }.close)
        else return (.value, ← s₁.skipWhitespace.key))) ∧
    (s.rest = w ++ 0x5B :: x → ∃ s₁ : Scanner, s₁.depth = s.depth ∧ s₁.stack = .array :: s.stack ∧ s₁.rest = x ∧
      s.value = (if s₁.skipWhitespace.rest.head? = some 0x5D then
        return (.closing, { s₁.skipWhitespace with rest := s₁.skipWhitespace.rest.tail }.close)
        else return (.value, s₁.skipWhitespace))) := by
  refine ⟨fun hrest => ?_, fun hrest => ?_⟩
  · have hskip := skip_eq hrest hw (by decide)
    obtain ⟨hdeep, -⟩ | ⟨-, s₁, hopen, hdepth, hstack, htail⟩ := openFrame_cases hskip (.object [])
    · exact absurd hroom (Nat.not_lt.mpr hdeep)
    refine ⟨s₁, hdepth, hstack, htail, ?_⟩
    rw [value]
    dsimp only
    rw [hskip, List.head?_cons]
    dsimp only
    rw [if_pos rfl, hopen]
    rfl
  · have hskip := skip_eq hrest hw (by decide)
    obtain ⟨hdeep, -⟩ | ⟨-, s₁, hopen, hdepth, hstack, htail⟩ := openFrame_cases hskip .array
    · exact absurd hroom (Nat.not_lt.mpr hdeep)
    refine ⟨s₁, hdepth, hstack, htail, ?_⟩
    rw [value]
    dsimp only
    rw [hskip, List.head?_cons]
    dsimp only
    rw [if_neg (by decide), if_pos rfl, hopen]
    rfl

/-- What a scan comes to where a run comes to a verdict. -/
def Came (depth : ResourceLimit) : Verdict → Except ContentFault Footprint → Prop
  | .accepted, r => ∃ footprint, r = .ok footprint
  | .tooDeep, r => r = .error depth.exceeded
  | .repeated, r => r = .error duplicateKey

def proceed : Phase → Scanner → Except ContentFault Footprint
  | .value, s => run .value s
  | .member, s => s.skipWhitespace.key >>= run .value
  | .after, s => run .closing s

theorem run_value_key {s₁ : Scanner} (h : s.value = (do return (.value, ← s₁.skipWhitespace.key))) :
    run .value s = proceed .member s₁ := by
  rw [proceed]
  rcases hkey : s₁.skipWhitespace.key with fault | s' <;> rw [hkey] at h
  · exact run_value_error h
  · exact run_value h

theorem run_closing_key {s₁ : Scanner} (h : s.closing = (do return some (.value, ← s₁.skipWhitespace.key))) :
    run .closing s = proceed .member s₁ := by
  rw [proceed]
  rcases hkey : s₁.skipWhitespace.key with fault | s' <;> rw [hkey] at h
  · exact run_closing_error h
  · exact run_closing h

theorem proceed_key {k x : List UInt8} {key : String} {seen : List String} {stack : List Frame} (hkey : Key k key)
    (hrest : s.rest = k ++ x) (hstack : s.stack = .object seen :: stack) (hnew : key ∉ seen) :
    ∃ s₁ : Scanner, s₁.depth = s.depth ∧ s₁.stack = .object (key :: seen) :: stack ∧ s₁.rest = x ∧
      proceed .member s = run .value s₁ := by
  rcases hkey with @⟨_, _, _, cs, hs, hcontent, ht⟩
  simp only [List.append_assoc, List.cons_append, List.nil_append] at hrest
  have hskip := skip_eq hrest hs (by decide)
  have hread : ∃ s₁ : Scanner, s₁.depth = s.depth ∧ s₁.stack = .object (String.ofList cs :: seen) :: stack ∧
      s₁.rest = x ∧ s.skipWhitespace.key = .ok s₁ := by
    rw [Scanner.key]
    have hstack' : s.skipWhitespace.stack = .object seen :: stack := hstack
    rw [hskip, List.head?_cons, if_neg (not_not.mpr rfl), string_complete hcontent, Checks.ok_bind, if_pos rfl, hstack']
    dsimp only
    rw [if_neg hnew, drop_ws_cons ht (by decide), List.head?_cons, if_neg (not_not.mpr rfl)]
    refine ⟨_, ?_, ?_, ?_, rfl⟩ <;> rfl
  obtain ⟨s₁, hdepth, hstack₁, hrest₁, hread⟩ := hread
  refine ⟨s₁, hdepth, hstack₁, hrest₁, ?_⟩
  rw [proceed, hread]
  rfl

theorem proceed_repeated {w k x : List UInt8} {cs : List Char} {seen : List String} {stack : List Frame} (hw : Ws w)
    (hcontent : Content k cs) (hrest : s.rest = w ++ 0x22 :: (k ++ 0x22 :: x)) (hstack : s.stack = .object seen :: stack)
    (hmem : String.ofList cs ∈ seen) : proceed .member s = .error duplicateKey := by
  have hskip := skip_eq hrest hw (by decide)
  have hstack' : s.skipWhitespace.stack = .object seen :: stack := hstack
  rw [proceed, key, hskip, List.head?_cons, if_neg (not_not.mpr rfl), string_complete hcontent, Checks.ok_bind,
    if_pos rfl, hstack']
  dsimp only
  rw [if_pos hmem]
  rfl

/-- The inner loop in a container: a comma and a bracket. -/
theorem closing_array {w x : List UInt8} {stack : List Frame} (hw : Ws w) (hstack : s.stack = .array :: stack) :
    (s.rest = w ++ 0x2C :: x → ∃ s₁ : Scanner, s₁.depth = s.depth ∧ s₁.stack = s.stack ∧ s₁.rest = x ∧
      s.closing = .ok (some (.value, s₁))) ∧
    (s.rest = w ++ 0x5D :: x → ∃ s₁ : Scanner, s₁.depth = s.depth ∧ s₁.stack = stack ∧ s₁.rest = x ∧
      s.closing = .ok (some (.closing, s₁))) := by
  have hstack' : s.skipWhitespace.stack = .array :: stack := hstack
  refine ⟨fun hrest => ?_, fun hrest => ?_⟩
  · rw [closing]
    dsimp only
    rw [hstack', skip_eq hrest hw (by decide)]
    exact ⟨{ s.skipWhitespace with rest := x, stack := .array :: stack }, rfl, hstack.symm, rfl, rfl⟩
  · rw [closing]
    dsimp only
    rw [hstack', skip_eq hrest hw (by decide)]
    exact ⟨{ s.skipWhitespace with rest := x, stack := .array :: stack }.close, close_depth, close_stack rfl,
      close_rest, rfl⟩

theorem closing_object {w x : List UInt8} {seen : List String} {stack : List Frame} (hw : Ws w)
    (hstack : s.stack = .object seen :: stack) :
    (s.rest = w ++ 0x2C :: x → ∃ s₁ : Scanner, s₁.depth = s.depth ∧ s₁.stack = s.stack ∧ s₁.rest = x ∧
      run .closing s = proceed .member s₁) ∧
    (s.rest = w ++ 0x7D :: x → ∃ s₁ : Scanner, s₁.depth = s.depth ∧ s₁.stack = stack ∧ s₁.rest = x ∧
      s.closing = .ok (some (.closing, s₁))) := by
  have hstack' : s.skipWhitespace.stack = .object seen :: stack := hstack
  refine ⟨fun hrest => ?_, fun hrest => ?_⟩
  · have hclosing : s.closing = (do return some (.value, ← { s.skipWhitespace with rest := x }.skipWhitespace.key)) := by
      rw [closing]
      dsimp only
      rw [hstack', skip_eq hrest hw (by decide)]
      rfl
    exact ⟨{ s.skipWhitespace with rest := x }, rfl, rfl, rfl, run_closing_key hclosing⟩
  · rw [closing]
    dsimp only
    rw [hstack', skip_eq hrest hw (by decide)]
    exact ⟨{ s.skipWhitespace with rest := x, stack := .object seen :: stack }.close, close_depth, close_stack rfl,
      close_rest, rfl⟩

theorem closing_finish (hrest : Ws s.rest) (hstack : s.stack = []) : s.closing = .ok none := by
  have hdrop : s.skipWhitespace.rest = [] := by
    have hend := drop_ws (x := []) hrest nofun
    rwa [List.append_nil] at hend
  have hstack' : s.skipWhitespace.stack = [] := hstack
  rw [closing]
  dsimp only
  rw [hstack', hdrop]
  rfl

theorem follows {max : Nat} {o : Verdict} {p : Phase} {stack : List Frame} {x : List UInt8}
    (h : Run true max o p stack x) :
    ∀ s : Scanner, s.depth.max = max → s.stack = stack → s.rest = x → Came s.depth o (proceed p s) := by
  induction h with
  | scalar hs hw hrun ih =>
    rintro s rfl rfl hrest
    rw [proceed, run_value (value_scalar hrest hs hw hrun.quiet)]
    exact ih _ rfl rfl rfl
  | deep hs hc hdeep =>
    rintro s rfl rfl hrest
    rw [proceed, run_value_error (value_deep hrest hs hc hdeep)]
    rfl
  | emptyArray hs hroom ht _ ih =>
    rintro s rfl rfl hrest
    obtain ⟨s₁, hdepth, hstack, hrest₁, hvalue⟩ := (value_open hs hroom).2 hrest
    have hskip := skip_eq hrest₁ ht (by decide)
    rw [hskip, List.head?_cons, if_pos rfl] at hvalue
    generalize hs₂ : Scanner.close _ = s₂ at hvalue
    have hdepth₂ : s₂.depth = s.depth := by rw [← hs₂, close_depth]; exact hdepth
    have hstack₂ : s₂.stack = s.stack := by rw [← hs₂]; exact close_stack hstack
    rw [proceed, run_value hvalue]
    exact hdepth₂ ▸ ih s₂ (congrArg ResourceLimit.max hdepth₂) hstack₂ (by rw [← hs₂, close_rest]; rfl)
  | array hs hroom hrun ih =>
    rintro s rfl rfl hrest
    obtain ⟨s₁, hdepth, hstack, hrest₁, hvalue⟩ := (value_open hs hroom).2 hrest
    obtain ⟨t, b, y, rfl, ht, hb, hne⟩ := hrun.value_head
    rw [skip_eq hrest₁ ht hb, List.head?_cons, if_neg fun h => hne (Option.some.inj h)] at hvalue
    rw [proceed, run_value hvalue, run_value_skip]
    exact hdepth ▸ ih s₁ (congrArg ResourceLimit.max hdepth) hstack hrest₁
  | emptyObject hs hroom ht _ ih =>
    rintro s rfl rfl hrest
    obtain ⟨s₁, hdepth, hstack, hrest₁, hvalue⟩ := (value_open hs hroom).1 hrest
    have hskip := skip_eq hrest₁ ht (by decide)
    rw [hskip, List.head?_cons, if_pos rfl] at hvalue
    generalize hs₂ : Scanner.close _ = s₂ at hvalue
    have hdepth₂ : s₂.depth = s.depth := by rw [← hs₂, close_depth]; exact hdepth
    have hstack₂ : s₂.stack = s.stack := by rw [← hs₂]; exact close_stack hstack
    rw [proceed, run_value hvalue]
    exact hdepth₂ ▸ ih s₂ (congrArg ResourceLimit.max hdepth₂) hstack₂ (by rw [← hs₂, close_rest]; rfl)
  | object hs hroom hrun ih =>
    rintro s rfl rfl hrest
    obtain ⟨s₁, hdepth, hstack, hrest₁, hvalue⟩ := (value_open hs hroom).1 hrest
    obtain ⟨t, y, rfl, ht⟩ := hrun.member_head
    rw [skip_eq hrest₁ ht (by decide), List.head?_cons, if_neg (by decide)] at hvalue
    rw [proceed, run_value_key hvalue]
    exact hdepth ▸ ih s₁ (congrArg ResourceLimit.max hdepth) hstack hrest₁
  | key hk hnew _ ih =>
    rintro s rfl hstack hrest
    obtain ⟨s₁, hdepth, hstack₁, hrest₁, hproceed⟩ := proceed_key hk hrest hstack (hnew rfl)
    rw [hproceed]
    exact hdepth ▸ ih s₁ (congrArg ResourceLimit.max hdepth) hstack₁ hrest₁
  | repeated hs hk hmem _ =>
    rintro s rfl hstack hrest
    exact proceed_repeated hs hk hrest hstack hmem
  | element hs _ ih =>
    rintro s rfl hstack hrest
    obtain ⟨s₁, hdepth, hstack₁, hrest₁, hclosing⟩ := (closing_array hs hstack).1 hrest
    rw [proceed, run_closing hclosing]
    exact hdepth ▸ ih s₁ (congrArg ResourceLimit.max hdepth) (hstack₁.trans hstack) hrest₁
  | closeArray hs _ ih =>
    rintro s rfl hstack hrest
    obtain ⟨s₁, hdepth, hstack₁, hrest₁, hclosing⟩ := (closing_array hs hstack).2 hrest
    rw [proceed, run_closing hclosing]
    exact hdepth ▸ ih s₁ (congrArg ResourceLimit.max hdepth) hstack₁ hrest₁
  | member hs _ ih =>
    rintro s rfl hstack hrest
    obtain ⟨s₁, hdepth, hstack₁, hrest₁, hproceed⟩ := (closing_object hs hstack).1 hrest
    rw [proceed, hproceed]
    exact hdepth ▸ ih s₁ (congrArg ResourceLimit.max hdepth) (hstack₁.trans hstack) hrest₁
  | closeObject hs _ ih =>
    rintro s rfl hstack hrest
    obtain ⟨s₁, hdepth, hstack₁, hrest₁, hclosing⟩ := (closing_object hs hstack).2 hrest
    rw [proceed, run_closing hclosing]
    exact hdepth ▸ ih s₁ (congrArg ResourceLimit.max hdepth) hstack₁ hrest₁
  | finish hs =>
    rintro s rfl hstack rfl
    rw [proceed, run_closing_none (closing_finish hs hstack)]
    exact ⟨_, rfl⟩

end Scanner

/-- Each verdict of the scan is the run's. -/
theorem scan_spec (bytes : List UInt8) (depth : ResourceLimit) :
    Scanner.RunSpec .value ⟨bytes, depth, [], 0, ⟨0, 0⟩⟩ (scan bytes depth) :=
  Scanner.run_spec .value _

theorem scan_follows {bytes : List UInt8} {depth : ResourceLimit} {o : Verdict}
    (h : Run true depth.max o .value [] bytes) : Scanner.Came depth o (scan bytes depth) :=
  Scanner.follows h _ rfl rfl rfl

theorem verdict_unique {bytes : List UInt8} {depth : ResourceLimit} {o o' : Verdict}
    (h : Run true depth.max o .value [] bytes) (h' : Run true depth.max o' .value [] bytes) : o = o' := by
  have hcame := scan_follows h
  have hcame' := scan_follows h'
  rcases o with _ | _ | _ <;> rcases o' with _ | _ | _ <;> try rfl
  · obtain ⟨_, hok⟩ := hcame
    cases hok.symm.trans hcame'
  · obtain ⟨_, hok⟩ := hcame
    cases hok.symm.trans hcame'
  · obtain ⟨_, hok⟩ := hcame'
    cases hok.symm.trans hcame
  · cases Eq.trans (Eq.symm hcame) hcame'
  · obtain ⟨_, hok⟩ := hcame'
    cases hok.symm.trans hcame
  · cases Eq.trans (Eq.symm hcame) hcame'

/-- The byte a run stops at is the first that offends. -/
theorem offends_first {depth : ResourceLimit} {o : Verdict} {w : List UInt8} {b : UInt8}
    (h : Offends depth.max o .value [] w b) (ho : o ≠ .accepted) :
    Begins (Text true depth.max) w ∧ ¬Begins (Text true depth.max) (w ++ [b]) := by
  refine ⟨h.viable.imp fun y hy => text_iff_run.mpr hy, ?_⟩
  rintro ⟨y, hy⟩
  rw [List.append_assoc, List.singleton_append] at hy
  have hstands := h.stands true depth.max y (by rcases o with _ | _ | _ <;> first | exact absurd rfl ho | trivial)
  exact ho (verdict_unique hstands hy.run)

/-- A beginning that only deeper texts have, or only texts that repeat a key. -/
theorem offends_of {depth : ResourceLimit} {o : Verdict} {w : List UInt8} {b : UInt8}
    (h : Offends depth.max o .value [] w b) :
    (o = .tooDeep → Offence.tooDeep.Of depth.max (w ++ [b])) ∧
    (o = .repeated → Offence.repeated.Of depth.max (w ++ [b])) := by
  have hstop : ∀ more unique y, Text unique more (w ++ [b] ++ y) →
      ∃ o', Run true depth.max o' .value [] (w ++ b :: y) ∧ (more ≤ depth.max → o' ≠ .tooDeep) ∧
        (unique → o' ≠ .repeated) := fun more unique y hy => by
    rw [List.append_assoc, List.singleton_append] at hy
    exact hy.run.tighten depth.max
  have hlifted := h.lifted
  refine ⟨?_, ?_⟩
  · rintro rfl
    refine ⟨?_, ?_⟩
    · rintro ⟨y, hy⟩
      obtain ⟨o', hrun, hdeep, -⟩ := hstop depth.max false y hy
      exact hdeep (Nat.le_refl _) (verdict_unique hrun (h.stands true depth.max y rfl))
    · obtain ⟨unique, more, y, ⟨rfl, -⟩, hrun⟩ := hlifted
      refine ⟨more, y, text_iff_run.mpr ?_⟩
      rwa [List.append_assoc, List.singleton_append]
  · rintro rfl
    refine ⟨?_, ?_⟩
    · rintro more ⟨y, hy⟩
      obtain ⟨o', hrun, -, hrepeated⟩ := hstop more true y hy
      exact hrepeated rfl (verdict_unique hrun (h.stands true depth.max y ⟨rfl, Nat.le_refl _⟩))
    · obtain ⟨unique, more, y, ⟨rfl, rfl⟩, hrun⟩ := hlifted
      refine ⟨y, text_iff_run.mpr ?_⟩
      rwa [List.append_assoc, List.singleton_append]

/-- Where only syntax is at fault and no text within the rules begins so, none begins so at all. -/
theorem noText_of_syntax {bytes : List UInt8} {depth : ResourceLimit} (h : scan bytes depth = .error syntaxFault)
    (hbegins : ¬Begins (Text true depth.max) bytes) : FirstOffence depth.max bytes .noText := by
  obtain ⟨w, b, y, rfl, hw, hb⟩ := exists_first (begins_nil depth.max) hbegins
  refine ⟨w, b, y, rfl, hw, hb, ?_⟩
  rintro more ⟨z, hz⟩
  rw [List.append_assoc, List.singleton_append] at hz
  obtain ⟨o, hrun, -, -⟩ := hz.run.tighten depth.max
  rcases ho : o with _ | _ | _
  · rw [ho] at hrun
    refine hb ⟨z, ?_⟩
    rw [List.append_assoc, List.singleton_append]
    exact text_iff_run.mpr hrun
  all_goals
    have hne : o ≠ .accepted := by rw [ho]; nofun
    obtain ⟨w', b', z', hsplit, hoffends⟩ := hrun.stopsIn hne
    obtain ⟨hw', hb'⟩ := offends_first hoffends hne
    obtain ⟨rfl, rfl⟩ := first_unique hsplit hw hb hw' hb'
    have hstands : o.Stands depth.max true depth.max := by
      rw [ho]
      trivial
    have hcame := scan_follows (hoffends.stands true depth.max y hstands)
    rw [ho] at hcame
    cases h.symm.trans hcame

def Offence.fault (depth : ResourceLimit) : Offence → ContentFault
  | .noText => syntaxFault
  | .tooDeep => depth.exceeded
  | .repeated => duplicateKey

/-- The scan accepts the JSON texts within the depth in which no object repeats a key, and its fault is that of the first
byte that offends; a text that is cut short is a fault of syntax. -/
theorem scan_judges (bytes : List UInt8) (depth : ResourceLimit) :
    match scan bytes depth with
    | .ok _ => Text true depth.max bytes
    | .error fault =>
      ¬Text true depth.max bytes ∧
      (Begins (Text true depth.max) bytes ∧ fault = syntaxFault ∨
        ∃ offence, FirstOffence depth.max bytes offence ∧ fault = Offence.fault depth offence) := by
  have hspec := scan_spec bytes depth
  rcases hscan : scan bytes depth with fault | footprint <;> rw [hscan] at hspec <;> dsimp only
  · refine ⟨fun htext => ?_, ?_⟩
    · obtain ⟨footprint, hok⟩ := scan_follows htext.run
      cases hok.symm.trans hscan
    rcases hspec with rfl | ⟨rfl, hrun⟩ | ⟨rfl, hrun⟩
    · by_cases hbegins : Begins (Text true depth.max) bytes
      · exact .inl ⟨hbegins, rfl⟩
      · exact .inr ⟨.noText, noText_of_syntax hscan hbegins, rfl⟩
    · obtain ⟨w, b, y, rfl, hoffends⟩ := hrun.stopsIn nofun
      obtain ⟨hw, hb⟩ := offends_first hoffends nofun
      exact .inr ⟨.tooDeep, ⟨w, b, y, rfl, hw, hb, (offends_of hoffends).1 rfl⟩, rfl⟩
    · obtain ⟨w, b, y, rfl, hoffends⟩ := hrun.stopsIn nofun
      obtain ⟨hw, hb⟩ := offends_first hoffends nofun
      exact .inr ⟨.repeated, ⟨w, b, y, rfl, hw, hb, (offends_of hoffends).2 rfl⟩, rfl⟩
  · exact text_iff_run.mpr hspec

end JsonScan
end DeployCore
