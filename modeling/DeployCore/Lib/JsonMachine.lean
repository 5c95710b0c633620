import DeployCore.Lib.JsonGrammar

/-! # A pushdown reader of JSON texts

The runs of a reader that keeps the containers it has opened on a stack, and what they have to do with the grammar:
a run accepts a text exactly when the grammar derives it, and one that stops at a rule (too deep, a key repeated) stops
at the first byte with which no text within the rules begins. -/

namespace JsonText
variable {unique : Bool} {max room : Nat} {s t v w x : List UInt8}

/-- An open container; an object with the keys it has so far. -/
inductive Frame
  | array
  | object (seen : List String)
  deriving DecidableEq

/-- What is to be read next: a value, a member of the innermost object, or what may follow a value. -/
inductive Phase
  | value
  | member
  | after
  deriving DecidableEq

inductive Verdict
  | accepted
  | tooDeep
  | repeated
  deriving DecidableEq

variable {o : Verdict} {p p' : Phase} {stack stack' : List Frame}

inductive Run (unique : Bool) (max : Nat) : Verdict → Phase → List Frame → List UInt8 → Prop
  | scalar {o : Verdict} {stack : List Frame} {s w x : List UInt8} (hs : Ws s) (hw : Scalar w)
      (h : Run unique max o .after stack x) : Run unique max o .value stack (s ++ (w ++ x))
  | deep {stack : List Frame} {s x : List UInt8} {c : UInt8} (hs : Ws s) (hc : c = 0x5B ∨ c = 0x7B)
      (hdeep : max ≤ stack.length) : Run unique max .tooDeep .value stack (s ++ c :: x)
  | emptyArray {o : Verdict} {stack : List Frame} {s t x : List UInt8} (hs : Ws s) (hroom : stack.length < max)
      (ht : Ws t) (h : Run unique max o .after stack x) : Run unique max o .value stack (s ++ 0x5B :: (t ++ 0x5D :: x))
  | array {o : Verdict} {stack : List Frame} {s x : List UInt8} (hs : Ws s) (hroom : stack.length < max)
      (h : Run unique max o .value (.array :: stack) x) : Run unique max o .value stack (s ++ 0x5B :: x)
  | emptyObject {o : Verdict} {stack : List Frame} {s t x : List UInt8} (hs : Ws s) (hroom : stack.length < max)
      (ht : Ws t) (h : Run unique max o .after stack x) : Run unique max o .value stack (s ++ 0x7B :: (t ++ 0x7D :: x))
  | object {o : Verdict} {stack : List Frame} {s x : List UInt8} (hs : Ws s) (hroom : stack.length < max)
      (h : Run unique max o .member (.object [] :: stack) x) : Run unique max o .value stack (s ++ 0x7B :: x)
  | key {o : Verdict} {stack : List Frame} {k x : List UInt8} {key : String} {seen : List String} (hk : Key k key)
      (hnew : unique → key ∉ seen) (h : Run unique max o .value (.object (key :: seen) :: stack) x) :
      Run unique max o .member (.object seen :: stack) (k ++ x)
  | repeated {stack : List Frame} {s k x : List UInt8} {cs : List Char} {seen : List String} (hs : Ws s)
      (hk : Content k cs) (hmem : String.ofList cs ∈ seen) (hunique : unique) :
      Run unique max .repeated .member (.object seen :: stack) (s ++ 0x22 :: (k ++ 0x22 :: x))
  | element {o : Verdict} {stack : List Frame} {s x : List UInt8} (hs : Ws s)
      (h : Run unique max o .value (.array :: stack) x) : Run unique max o .after (.array :: stack) (s ++ 0x2C :: x)
  | closeArray {o : Verdict} {stack : List Frame} {s x : List UInt8} (hs : Ws s)
      (h : Run unique max o .after stack x) : Run unique max o .after (.array :: stack) (s ++ 0x5D :: x)
  | member {o : Verdict} {stack : List Frame} {s x : List UInt8} {seen : List String} (hs : Ws s)
      (h : Run unique max o .member (.object seen :: stack) x) :
      Run unique max o .after (.object seen :: stack) (s ++ 0x2C :: x)
  | closeObject {o : Verdict} {stack : List Frame} {s x : List UInt8} {seen : List String} (hs : Ws s)
      (h : Run unique max o .after stack x) : Run unique max o .after (.object seen :: stack) (s ++ 0x7D :: x)
  | finish {s : List UInt8} (hs : Ws s) : Run unique max .accepted .after [] s

/-! ## Every text is accepted -/

mutual

theorem Value.run {unique : Bool} {room max : Nat} {v s x : List UInt8} {o : Verdict} {stack : List Frame} :
    Value unique room v → Ws s → stack.length + room ≤ max → Run unique max o .after stack x →
      Run unique max o .value stack (s ++ (v ++ x))
  | .scalar h, hs, _, hrun => .scalar hs h hrun
  | .emptyArray ht, hs, hroom, hrun => by
    rw [List.cons_append, List.append_assoc]
    exact .emptyArray hs (by omega) ht hrun
  | .array h, hs, hroom, hrun => by
    rw [List.cons_append, List.append_assoc]
    exact .array hs (by omega) (h.run (by omega) hrun)
  | .emptyObject ht, hs, hroom, hrun => by
    rw [List.cons_append, List.append_assoc]
    exact .emptyObject hs (by omega) ht hrun
  | .object h hkeys, hs, hroom, hrun => by
    rw [List.cons_append, List.append_assoc]
    exact .object hs (by omega) (h.run (fun hunique => ⟨hkeys hunique, fun _ _ => List.not_mem_nil⟩) (by omega) hrun)

theorem Elements.run {unique : Bool} {room max : Nat} {w x : List UInt8} {o : Verdict} {stack : List Frame} :
    Elements unique room w → stack.length + (room + 1) ≤ max → Run unique max o .after stack x →
      Run unique max o .value (.array :: stack) (w ++ 0x5D :: x)
  | .last hs h ht, hroom, hrun => by
    simp only [List.append_assoc]
    exact h.run hs (by rw [List.length_cons]; omega) (.closeArray ht hrun)
  | .more hs h ht hw, hroom, hrun => by
    simp only [List.append_assoc, List.cons_append]
    exact h.run hs (by rw [List.length_cons]; omega) (.element ht (hw.run hroom hrun))

theorem Members.run {unique : Bool} {room max : Nat} {w x : List UInt8} {keys seen : List String} {o : Verdict}
    {stack : List Frame} :
    Members unique room w keys → (unique → keys.Nodup ∧ ∀ key ∈ keys, key ∉ seen) → stack.length + (room + 1) ≤ max →
      Run unique max o .after stack x → Run unique max o .member (.object seen :: stack) (w ++ 0x7D :: x)
  | .last hk hs h ht, hkeys, hroom, hrun => by
    simp only [List.append_assoc]
    exact .key hk (fun hunique => (hkeys hunique).2 _ (List.mem_singleton_self _))
      (h.run hs (by rw [List.length_cons]; omega) (.closeObject ht hrun))
  | .more hk hs h ht hw, hkeys, hroom, hrun => by
    simp only [List.append_assoc, List.cons_append]
    refine .key hk (fun hunique => (hkeys hunique).2 _ List.mem_cons_self)
      (h.run hs (by rw [List.length_cons]; omega) (.member ht (hw.run (fun hunique => ?_) hroom hrun)))
    obtain ⟨hnodup, hnew⟩ := hkeys hunique
    obtain ⟨hfirst, hrest⟩ := List.nodup_cons.mp hnodup
    refine ⟨hrest, fun key hkey hmem => ?_⟩
    rcases List.mem_cons.mp hmem with rfl | hmem
    · exact hfirst hkey
    · exact hnew key (List.mem_cons_of_mem _ hkey) hmem

end

theorem Text.run (h : Text unique max x) : Run unique max .accepted .value [] x := by
  obtain ⟨hs, h, ht⟩ := h
  exact h.run hs (by simp only [List.length_nil, Nat.zero_add, Nat.le_refl]) (.finish ht)

/-! ## Whatever is accepted is a text -/

/-- An accepting run from here reads one value first. -/
def ReadsValue (unique : Bool) (max : Nat) (stack : List Frame) (x : List UInt8) : Prop :=
  ∃ s v y, x = s ++ (v ++ y) ∧ Ws s ∧ Value unique (max - stack.length) v ∧ Run unique max .accepted .after stack y

def ReadsElements (unique : Bool) (max : Nat) (stack : List Frame) (x : List UInt8) : Prop :=
  ∃ w y, x = w ++ 0x5D :: y ∧ Elements unique (max - (stack.length + 1)) w ∧ Run unique max .accepted .after stack y

def ReadsMembers (unique : Bool) (max : Nat) (seen : List String) (stack : List Frame) (x : List UInt8) : Prop :=
  ∃ w keys y, x = w ++ 0x7D :: y ∧ Members unique (max - (stack.length + 1)) w keys ∧
    (unique → keys.Nodup ∧ ∀ key ∈ keys, key ∉ seen) ∧ Run unique max .accepted .after stack y

theorem readsValue (helements : ∀ y, y.length < x.length → Run unique max .accepted .value (.array :: stack) y →
      ReadsElements unique max stack y)
    (hmembers : ∀ y, y.length < x.length → Run unique max .accepted .member (.object [] :: stack) y →
      ReadsMembers unique max [] stack y)
    (h : Run unique max .accepted .value stack x) : ReadsValue unique max stack x := by
  have hroom : stack.length < max → max - stack.length = max - (stack.length + 1) + 1 := fun hlt => by omega
  cases h with
  | scalar hs hw h => exact ⟨_, _, _, rfl, hs, .scalar hw, h⟩
  | emptyArray hs hlt ht h =>
    refine ⟨_, 0x5B :: (_ ++ [0x5D]), _, ?_, hs, by rw [hroom hlt]; exact .emptyArray ht, h⟩
    rw [List.cons_append, List.append_assoc, List.singleton_append]
  | array hs hlt h =>
    obtain ⟨w, y, rfl, hw, hrun⟩ := helements _ (by simp only [List.length_append, List.length_cons]; omega) h
    refine ⟨_, 0x5B :: (w ++ [0x5D]), y, ?_, hs, by rw [hroom hlt]; exact .array hw, hrun⟩
    rw [List.cons_append, List.append_assoc, List.singleton_append]
  | emptyObject hs hlt ht h =>
    refine ⟨_, 0x7B :: (_ ++ [0x7D]), _, ?_, hs, by rw [hroom hlt]; exact .emptyObject ht, h⟩
    rw [List.cons_append, List.append_assoc, List.singleton_append]
  | object hs hlt h =>
    obtain ⟨w, keys, y, rfl, hw, hkeys, hrun⟩ :=
      hmembers _ (by simp only [List.length_append, List.length_cons]; omega) h
    refine ⟨_, 0x7B :: (w ++ [0x7D]), y, ?_, hs,
      by rw [hroom hlt]; exact .object hw fun hunique => (hkeys hunique).1, hrun⟩
    rw [List.cons_append, List.append_assoc, List.singleton_append]

theorem readsElements (hvalue : ReadsValue unique max (.array :: stack) x)
    (helements : ∀ y, y.length < x.length → Run unique max .accepted .value (.array :: stack) y →
      ReadsElements unique max stack y) : ReadsElements unique max stack x := by
  obtain ⟨s, v, y, rfl, hs, hv, h⟩ := hvalue
  rw [List.length_cons] at hv
  cases h with
  | closeArray ht h => exact ⟨s ++ (v ++ _), _, by simp only [List.append_assoc], .last hs hv ht, h⟩
  | element ht h =>
    obtain ⟨w, z, rfl, hw, hrun⟩ := helements _ (by simp only [List.length_append, List.length_cons]; omega) h
    exact ⟨s ++ (v ++ (_ ++ 0x2C :: w)), z, by simp only [List.append_assoc, List.cons_append],
      .more hs hv ht hw, hrun⟩

theorem readsMembers {seen : List String}
    (hvalue : ∀ key y, y.length < x.length → Run unique max .accepted .value (.object (key :: seen) :: stack) y →
      ReadsValue unique max (.object (key :: seen) :: stack) y)
    (hmembers : ∀ key y, y.length < x.length → Run unique max .accepted .member (.object (key :: seen) :: stack) y →
      ReadsMembers unique max (key :: seen) stack y)
    (h : Run unique max .accepted .member (.object seen :: stack) x) : ReadsMembers unique max seen stack x := by
  cases h with
  | @key _ _ k y key _ hk hnew h =>
    have hpos : 0 < k.length := by
      obtain ⟨hs, hc, ht⟩ := hk
      simp only [List.length_append, List.length_cons]
      omega
    obtain ⟨s, v, z, rfl, hs, hv, hafter⟩ := hvalue key _ (by rw [List.length_append]; omega) h
    rw [List.length_cons] at hv
    cases hafter with
    | closeObject ht hrun =>
      refine ⟨k ++ (s ++ (v ++ _)), [key], _, by simp only [List.append_assoc], .last hk hs hv ht, fun hunique => ?_,
        hrun⟩
      refine ⟨List.nodup_singleton key, fun other hother => ?_⟩
      rw [List.mem_singleton.mp hother]
      exact hnew hunique
    | member ht hnext =>
      obtain ⟨w, keys, z, rfl, hw, hkeys, hrun⟩ :=
        hmembers key _ (by simp only [List.length_append, List.length_cons]; omega) hnext
      refine ⟨k ++ (s ++ (v ++ (_ ++ 0x2C :: w))), key :: keys, z, by simp only [List.append_assoc, List.cons_append],
        .more hk hs hv ht hw, fun hunique => ?_, hrun⟩
      obtain ⟨hnodup, hseen⟩ := hkeys hunique
      refine ⟨List.nodup_cons.mpr ⟨fun hmem => hseen key hmem List.mem_cons_self, hnodup⟩, fun other hother hmem => ?_⟩
      rcases List.mem_cons.mp hother with rfl | hother
      · exact hnew hunique hmem
      · exact hseen other hother (List.mem_cons_of_mem _ hmem)

theorem Run.reads (n : Nat) :
    (∀ stack x, x.length < n → Run unique max .accepted .value stack x → ReadsValue unique max stack x) ∧
    (∀ stack x, x.length < n → Run unique max .accepted .value (.array :: stack) x →
      ReadsElements unique max stack x) ∧
    ∀ seen stack x, x.length < n → Run unique max .accepted .member (.object seen :: stack) x →
      ReadsMembers unique max seen stack x := by
  induction n with
  | zero => exact ⟨fun _ _ h => absurd h (Nat.not_lt_zero _), fun _ _ h => absurd h (Nat.not_lt_zero _),
      fun _ _ _ h => absurd h (Nat.not_lt_zero _)⟩
  | succ n ih =>
    obtain ⟨hvalue, helements, hmembers⟩ := ih
    have hstep : ∀ stack x, x.length < n + 1 → Run unique max .accepted .value stack x →
        ReadsValue unique max stack x := fun stack x hlen =>
      readsValue (fun y hy => helements stack y (by omega)) (fun y hy => hmembers [] stack y (by omega))
    refine ⟨hstep, fun stack x hlen h => ?_, fun seen stack x hlen h => ?_⟩
    · exact readsElements (hstep _ x hlen h) fun y hy => helements stack y (by omega)
    · exact readsMembers (fun key y hy => hvalue _ y (by omega)) (fun key y hy => hmembers _ stack y (by omega)) h

theorem text_iff_run : Text unique max x ↔ Run unique max .accepted .value [] x := by
  refine ⟨Text.run, fun h => ?_⟩
  obtain ⟨s, v, y, rfl, hs, hv, h⟩ := (Run.reads (x.length + 1)).1 [] x (Nat.lt_succ_self _) h
  cases h with
  | finish ht => exact .mk hs hv ht

/-! ## What a run needs behind a value -/

/-- Nothing with which a number would go on. -/
def Quiet (x : List UInt8) : Prop :=
  ∀ b ∈ x.head?, isWs b ∨ b = 0x2C ∨ b = 0x5D ∨ b = 0x7D

theorem quiet_of_ws {c : UInt8} (hs : Ws s) (hc : c = 0x2C ∨ c = 0x5D ∨ c = 0x7D) : Quiet (s ++ c :: x) := by
  intro b hb
  rcases s with _ | ⟨a, s⟩
  · rw [List.nil_append, List.head?_cons, Option.mem_some_iff] at hb
    exact .inr (hb ▸ hc)
  · rw [List.cons_append, List.head?_cons, Option.mem_some_iff] at hb
    exact .inl (hs b (hb ▸ List.mem_cons_self))

theorem Run.quiet (h : Run unique max o .after stack x) : Quiet x := by
  cases h with
  | element hs h => exact quiet_of_ws hs (.inl rfl)
  | closeArray hs h => exact quiet_of_ws hs (.inr (.inl rfl))
  | member hs h => exact quiet_of_ws hs (.inl rfl)
  | closeObject hs h => exact quiet_of_ws hs (.inr (.inr rfl))
  | finish hs => exact fun b hb => .inl (hs b (List.mem_of_mem_head? hb))

/-- What closes the open containers. -/
def closers : List Frame → List UInt8
  | [] => []
  | .array :: stack => 0x5D :: closers stack
  | .object _ :: stack => 0x7D :: closers stack

theorem run_closers (unique : Bool) (max : Nat) : ∀ stack, Run unique max .accepted .after stack (closers stack)
  | [] => .finish ws_nil
  | .array :: stack => .closeArray ws_nil (run_closers unique max stack)
  | .object _ :: stack => .closeObject ws_nil (run_closers unique max stack)

theorem Content.append {k : List UInt8} {cs ds : List Char} (h : Content k cs) (hw : Content w ds) :
    Content (k ++ w) (cs ++ ds) := by
  induction h with
  | nil => exact hw
  | plain hc _ ih =>
    rw [List.append_assoc]
    exact .plain hc ih
  | escape he _ ih =>
    rw [List.cons_append, List.append_assoc]
    exact .escape he ih

theorem content_replicate (n : Nat) : Content (List.replicate n 0x61) (List.replicate n 'a') := by
  induction n with
  | zero => exact .nil
  | succ n ih => exact .plain (c := 'a') (by decide) ih

/-- However a key begins, it can go on to be none of those seen. -/
theorem exists_fresh (cs : List Char) (seen : List String) :
    ∃ n, String.ofList (cs ++ List.replicate n 'a') ∉ seen := by
  refine ⟨(seen.map String.length).sum + 1, fun hmem => ?_⟩
  have hle := List.le_sum_of_mem (List.mem_map_of_mem (f := String.length) hmem)
  rw [String.length_ofList, List.length_append, List.length_replicate] at hle
  omega

theorem Ws.append (hs : Ws s) (ht : Ws t) : Ws (s ++ t) :=
  List.forall_mem_append.mpr ⟨hs, ht⟩

theorem Run.value_ws (hw : Ws w) (h : Run unique max o .value stack x) : Run unique max o .value stack (w ++ x) := by
  cases h with
  | scalar hs hv h =>
    rw [← List.append_assoc]
    exact .scalar (hw.append hs) hv h
  | deep hs hc hdeep =>
    rw [← List.append_assoc]
    exact .deep (hw.append hs) hc hdeep
  | emptyArray hs hroom ht h =>
    rw [← List.append_assoc]
    exact .emptyArray (hw.append hs) hroom ht h
  | array hs hroom h =>
    rw [← List.append_assoc]
    exact .array (hw.append hs) hroom h
  | emptyObject hs hroom ht h =>
    rw [← List.append_assoc]
    exact .emptyObject (hw.append hs) hroom ht h
  | object hs hroom h =>
    rw [← List.append_assoc]
    exact .object (hw.append hs) hroom h

theorem Run.member_ws (hw : Ws w) (h : Run unique max o .member stack x) :
    Run unique max o .member stack (w ++ x) := by
  cases h with
  | key hk hnew h =>
    obtain ⟨hs, hc, ht⟩ := hk
    rw [← List.append_assoc]
    refine .key ?_ hnew h
    rw [← List.append_assoc]
    exact .mk (hw.append hs) hc ht
  | repeated hs hk hmem hunique =>
    rw [← List.append_assoc]
    exact .repeated (hw.append hs) hk hmem hunique

theorem Run.value_head (h : Run unique max o .value stack x) :
    ∃ s b y, x = s ++ b :: y ∧ Ws s ∧ ¬isWs b ∧ b ≠ 0x5D := by
  cases h with
  | scalar hs hv h =>
    obtain ⟨b, tail, rfl, hb, hne⟩ := hv.head
    exact ⟨_, b, _, rfl, hs, hb, hne⟩
  | deep hs hc hdeep => rcases hc with rfl | rfl <;> exact ⟨_, _, _, rfl, hs, by decide, by decide⟩
  | emptyArray hs => exact ⟨_, _, _, rfl, hs, by decide, by decide⟩
  | array hs => exact ⟨_, _, _, rfl, hs, by decide, by decide⟩
  | emptyObject hs => exact ⟨_, _, _, rfl, hs, by decide, by decide⟩
  | object hs => exact ⟨_, _, _, rfl, hs, by decide, by decide⟩

theorem Run.member_head (h : Run unique max o .member stack x) : ∃ s y, x = s ++ 0x22 :: y ∧ Ws s := by
  cases h with
  | key hk hnew h =>
    obtain ⟨hs, hc, ht⟩ := hk
    exact ⟨_, _, List.append_assoc .., hs⟩
  | repeated hs => exact ⟨_, _, rfl, hs⟩

/-! ## Where a run stops -/

/-- The rules under which a run that came to this comes to it again. -/
def Verdict.Stands (max : Nat) : Verdict → Bool → Nat → Prop
  | .accepted, _, _ => False
  | .tooDeep, _, more => more = max
  | .repeated, unique, more => unique = true ∧ max ≤ more

/-- The rules without the one a run stopped at. -/
def Verdict.Lifted (max : Nat) : Verdict → Bool → Nat → Prop
  | .accepted, _, _ => False
  | .tooDeep, unique, more => unique = true ∧ max ≤ more
  | .repeated, unique, more => unique = false ∧ more = max

theorem Verdict.Stands.le {more : Nat} (h : o.Stands max unique more) : max ≤ more := by
  rcases o with _ | _ | _
  · exact h.elim
  · exact Nat.le_of_eq h.symm
  · exact h.2

theorem Verdict.Lifted.le {more : Nat} (h : o.Lifted max unique more) : max ≤ more := by
  rcases o with _ | _ | _
  · exact h.elim
  · exact h.2
  · exact Nat.le_of_eq h.2.symm

/-- The run stops at `b`: what stands before `b` can still become a text within the rules, and nothing that goes on
from `b` does, while some of it does without the one rule. -/
structure Offends (max : Nat) (o : Verdict) (p : Phase) (stack : List Frame) (w : List UInt8) (b : UInt8) : Prop where
  viable : ∃ y, Run true max .accepted p stack (w ++ y)
  stands : ∀ unique more y, o.Stands max unique more → Run unique more o p stack (w ++ b :: y)
  lifted : ∃ unique more y, o.Lifted max unique more ∧ Run unique more .accepted p stack (w ++ b :: y)

def StopsIn (max : Nat) (o : Verdict) (p : Phase) (stack : List Frame) (x : List UInt8) : Prop :=
  ∃ w b y, x = w ++ b :: y ∧ Offends max o p stack w b

/-- What is read here is read under any rules that allow as much, whatever comes behind it. -/
def Leads (max : Nat) (w : List UInt8) (p : Phase) (stack : List Frame) (p' : Phase) (stack' : List Frame) : Prop :=
  ∀ unique more o y, max ≤ more → Run unique more o p' stack' y → Run unique more o p stack (w ++ y)

theorem StopsIn.lead (h : StopsIn max o p' stack' x) (hleads : Leads max w p stack p' stack') :
    StopsIn max o p stack (w ++ x) := by
  obtain ⟨u, b, y, rfl, ⟨z, hviable⟩, hstands, unique, more, z', hlifted, hrun⟩ := h
  refine ⟨w ++ u, b, y, (List.append_assoc ..).symm, ⟨z, ?_⟩, fun unique more y hy => ?_, unique, more, z', hlifted, ?_⟩
  · rw [List.append_assoc]
    exact hleads _ _ _ _ (Nat.le_refl max) hviable
  · rw [List.append_assoc]
    exact hleads _ _ _ _ hy.le (hstands unique more y hy)
  · rw [List.append_assoc]
    exact hleads _ _ _ _ hlifted.le hrun

theorem stopsIn_deep {c : UInt8} (hs : Ws s) (hc : c = 0x5B ∨ c = 0x7B) (hdeep : max ≤ stack.length) :
    StopsIn max .tooDeep .value stack (s ++ c :: x) := by
  refine ⟨s, c, x, rfl, ⟨[0x30] ++ closers stack, .scalar hs (.number ?_) (run_closers _ _ _)⟩, ?_, ?_⟩
  · exact .mk (s := []) (i := [0x30]) (f := []) (e := []) .absent .zero .absent .absent
  · rintro unique more y rfl
    exact .deep hs hc hdeep
  · rcases hc with rfl | rfl
    · exact ⟨true, stack.length + 1, 0x5D :: closers stack, ⟨rfl, by omega⟩,
        .emptyArray (t := []) hs (Nat.lt_succ_self _) ws_nil (run_closers _ _ _)⟩
    · exact ⟨true, stack.length + 1, 0x7D :: closers stack, ⟨rfl, by omega⟩,
        .emptyObject (t := []) hs (Nat.lt_succ_self _) ws_nil (run_closers _ _ _)⟩

/-- A key stops a run at the quote that ends it: up to there it could still have become another. -/
theorem stopsIn_repeated {k : List UInt8} {cs : List Char} {seen : List String} (hs : Ws s) (hk : Content k cs)
    (hmem : String.ofList cs ∈ seen) :
    StopsIn max .repeated .member (.object seen :: stack) (s ++ 0x22 :: (k ++ 0x22 :: x)) := by
  have hsplit : ∀ y : List UInt8, s ++ 0x22 :: (k ++ y) = s ++ 0x22 :: k ++ y := fun y => by
    rw [List.append_assoc, List.cons_append]
  have hzero : Number [0x30] := .mk (s := []) (i := [0x30]) (f := []) (e := []) .absent .zero .absent .absent
  refine ⟨s ++ 0x22 :: k, 0x22, x, hsplit _, ?_, ?_, ?_⟩
  · obtain ⟨n, hn⟩ := exists_fresh cs seen
    have hkey := Key.mk hs (hk.append (content_replicate n)) ws_nil
    refine ⟨List.replicate n 0x61 ++ 0x22 :: 0x3A :: ([0x30] ++ 0x7D :: closers stack), ?_⟩
    have hrun : Run true max .accepted .member (.object seen :: stack) _ := .key hkey (fun _ => hn)
      (.scalar (s := []) ws_nil (.number hzero) (.closeObject (s := []) ws_nil (run_closers true max stack)))
    simpa only [List.append_assoc, List.cons_append, List.nil_append] using hrun
  · rintro unique more y ⟨hunique, -⟩
    rw [← hsplit]
    exact .repeated hs hk hmem hunique
  · refine ⟨false, max, 0x3A :: ([0x30] ++ 0x7D :: closers stack), ⟨rfl, rfl⟩, ?_⟩
    have hrun : Run false max .accepted .member (.object seen :: stack) _ :=
      .key (.mk hs hk ws_nil) (fun h => absurd h Bool.false_ne_true) (.scalar (s := []) ws_nil (.number hzero)
        (.closeObject (s := []) ws_nil (run_closers false max stack)))
    simpa only [List.append_assoc, List.cons_append, List.nil_append] using hrun

theorem Run.stopsIn (h : Run true max o p stack x) (ho : o ≠ .accepted) : StopsIn max o p stack x := by
  induction h with
  | scalar hs hw _ ih =>
    rw [← List.append_assoc]
    refine (ih ho).lead fun unique more o y hle hrun => ?_
    rw [List.append_assoc]
    exact .scalar hs hw hrun
  | deep hs hc hdeep => exact stopsIn_deep hs hc hdeep
  | @emptyArray _ _ s t x hs hroom ht _ ih =>
    have hsplit : ∀ y : List UInt8, s ++ 0x5B :: (t ++ 0x5D :: y) = s ++ 0x5B :: (t ++ [0x5D]) ++ y := fun y => by
      simp only [List.append_assoc, List.cons_append, List.nil_append]
    rw [hsplit]
    refine (ih ho).lead fun unique more o y hle hrun => ?_
    rw [← hsplit]
    exact .emptyArray hs (Nat.lt_of_lt_of_le hroom hle) ht hrun
  | array hs hroom _ ih =>
    rw [List.append_cons]
    refine (ih ho).lead fun unique more o y hle hrun => ?_
    rw [← List.append_cons]
    exact .array hs (Nat.lt_of_lt_of_le hroom hle) hrun
  | @emptyObject _ _ s t x hs hroom ht _ ih =>
    have hsplit : ∀ y : List UInt8, s ++ 0x7B :: (t ++ 0x7D :: y) = s ++ 0x7B :: (t ++ [0x7D]) ++ y := fun y => by
      simp only [List.append_assoc, List.cons_append, List.nil_append]
    rw [hsplit]
    refine (ih ho).lead fun unique more o y hle hrun => ?_
    rw [← hsplit]
    exact .emptyObject hs (Nat.lt_of_lt_of_le hroom hle) ht hrun
  | object hs hroom _ ih =>
    rw [List.append_cons]
    refine (ih ho).lead fun unique more o y hle hrun => ?_
    rw [← List.append_cons]
    exact .object hs (Nat.lt_of_lt_of_le hroom hle) hrun
  | key hk hnew _ ih => exact (ih ho).lead fun unique more o y hle hrun => .key hk (fun _ => hnew rfl) hrun
  | repeated hs hk hmem hunique => exact stopsIn_repeated hs hk hmem
  | element hs _ ih =>
    rw [List.append_cons]
    refine (ih ho).lead fun unique more o y hle hrun => ?_
    rw [← List.append_cons]
    exact .element hs hrun
  | closeArray hs _ ih =>
    rw [List.append_cons]
    refine (ih ho).lead fun unique more o y hle hrun => ?_
    rw [← List.append_cons]
    exact .closeArray hs hrun
  | member hs _ ih =>
    rw [List.append_cons]
    refine (ih ho).lead fun unique more o y hle hrun => ?_
    rw [← List.append_cons]
    exact .member hs hrun
  | closeObject hs _ ih =>
    rw [List.append_cons]
    refine (ih ho).lead fun unique more o y hle hrun => ?_
    rw [← List.append_cons]
    exact .closeObject hs hrun
  | finish => exact absurd rfl ho

/-- Under stricter rules a run is the same up to where it stops, and it stops at no rule that is not stricter. -/
theorem Run.tighten (less : Nat) (h : Run unique max .accepted p stack x) :
    ∃ o, Run true less o p stack x ∧ (max ≤ less → o ≠ .tooDeep) ∧ (unique → o ≠ .repeated) := by
  generalize hacc : Verdict.accepted = o at h
  have hroom : ∀ {stack : List Frame}, stack.length < max → less ≤ stack.length →
      (max ≤ less → Verdict.tooDeep ≠ .tooDeep) ∧ (unique → Verdict.tooDeep ≠ .repeated) := fun hlt hge =>
    ⟨fun hle => absurd (Nat.lt_of_lt_of_le hlt hle) (Nat.not_lt.mpr hge), nofun⟩
  induction h with
  | scalar hs hw _ ih =>
    obtain ⟨o, hrun, hkind⟩ := ih hacc
    exact ⟨o, .scalar hs hw hrun, hkind⟩
  | deep hs hc _ => cases hacc
  | @emptyArray _ stack _ _ _ hs hlt ht _ ih =>
    rcases Nat.lt_or_ge stack.length less with hless | hge
    · obtain ⟨o, hrun, hkind⟩ := ih hacc
      exact ⟨o, .emptyArray hs hless ht hrun, hkind⟩
    · exact ⟨.tooDeep, .deep hs (.inl rfl) hge, hroom hlt hge⟩
  | @array _ stack _ _ hs hlt _ ih =>
    rcases Nat.lt_or_ge stack.length less with hless | hge
    · obtain ⟨o, hrun, hkind⟩ := ih hacc
      exact ⟨o, .array hs hless hrun, hkind⟩
    · exact ⟨.tooDeep, .deep hs (.inl rfl) hge, hroom hlt hge⟩
  | @emptyObject _ stack _ _ _ hs hlt ht _ ih =>
    rcases Nat.lt_or_ge stack.length less with hless | hge
    · obtain ⟨o, hrun, hkind⟩ := ih hacc
      exact ⟨o, .emptyObject hs hless ht hrun, hkind⟩
    · exact ⟨.tooDeep, .deep hs (.inr rfl) hge, hroom hlt hge⟩
  | @object _ stack _ _ hs hlt _ ih =>
    rcases Nat.lt_or_ge stack.length less with hless | hge
    · obtain ⟨o, hrun, hkind⟩ := ih hacc
      exact ⟨o, .object hs hless hrun, hkind⟩
    · exact ⟨.tooDeep, .deep hs (.inr rfl) hge, hroom hlt hge⟩
  | @key _ _ _ x key seen hk hnew _ ih =>
    by_cases hmem : key ∈ seen
    · obtain ⟨hs, hc, ht⟩ := hk
      refine ⟨.repeated, ?_, nofun, fun hunique => absurd hmem (hnew hunique)⟩
      simp only [List.append_assoc, List.cons_append]
      exact .repeated hs hc hmem rfl
    · obtain ⟨o, hrun, hkind⟩ := ih hacc
      exact ⟨o, .key hk (fun _ => hmem) hrun, hkind⟩
  | repeated => cases hacc
  | element hs _ ih =>
    obtain ⟨o, hrun, hkind⟩ := ih hacc
    exact ⟨o, .element hs hrun, hkind⟩
  | closeArray hs _ ih =>
    obtain ⟨o, hrun, hkind⟩ := ih hacc
    exact ⟨o, .closeArray hs hrun, hkind⟩
  | member hs _ ih =>
    obtain ⟨o, hrun, hkind⟩ := ih hacc
    exact ⟨o, .member hs hrun, hkind⟩
  | closeObject hs _ ih =>
    obtain ⟨o, hrun, hkind⟩ := ih hacc
    exact ⟨o, .closeObject hs hrun, hkind⟩
  | finish hs => exact ⟨.accepted, .finish hs, nofun, nofun⟩

/-! ## The first byte that offends -/

/-- Some text begins so. -/
def Begins (lang : List UInt8 → Prop) (w : List UInt8) : Prop :=
  ∃ y, lang (w ++ y)

section Begins
variable {lang : List UInt8 → Prop} {b b' : UInt8} {w' x' : List UInt8}

theorem Begins.of_append (h : Begins lang (w ++ x)) : Begins lang w := by
  obtain ⟨y, hy⟩ := h
  exact ⟨x ++ y, by rwa [← List.append_assoc]⟩

theorem exists_first (hnil : Begins lang []) (h : ¬Begins lang x) :
    ∃ w b y, x = w ++ b :: y ∧ Begins lang w ∧ ¬Begins lang (w ++ [b]) := by
  induction x using List.reverseRecOn with
  | nil => exact absurd hnil h
  | append_singleton x b ih =>
    by_cases hx : Begins lang x
    · exact ⟨x, b, [], rfl, hx, h⟩
    · obtain ⟨w, c, y, rfl, hw, hc⟩ := ih hx
      exact ⟨w, c, y ++ [b], by rw [List.append_assoc, List.cons_append], hw, hc⟩

theorem first_le (h : w ++ b :: x = w' ++ b' :: x') (hw : Begins lang w) (hb' : ¬Begins lang (w' ++ [b'])) :
    w.length ≤ w'.length := by
  by_contra hlt
  refine hb' ?_
  have htake : w.take (w'.length + 1) = w' ++ [b'] := by
    have hcut := congrArg (List.take (w'.length + 1)) h
    rw [List.take_append_of_le_length (by omega)] at hcut
    rw [hcut, List.take_append, List.take_of_length_le (Nat.le_succ _), Nat.add_sub_cancel_left]
    rfl
  rw [← List.take_append_drop (w'.length + 1) w, htake] at hw
  exact hw.of_append

theorem first_unique (h : w ++ b :: x = w' ++ b' :: x') (hw : Begins lang w) (hb : ¬Begins lang (w ++ [b]))
    (hw' : Begins lang w') (hb' : ¬Begins lang (w' ++ [b'])) : w = w' ∧ b = b' := by
  have hlen := Nat.le_antisymm (first_le h hw hb') (first_le h.symm hw' hb)
  obtain ⟨hleft, hright⟩ := List.append_inj h hlen
  exact ⟨hleft, (List.cons.inj hright).1⟩

end Begins

theorem begins_nil (max : Nat) : Begins (Text true max) [] := by
  have hnumber : Number [0x30] := .mk (s := []) (i := [0x30]) (f := []) (e := []) .absent .zero .absent .absent
  exact ⟨[0x30], .mk (s := []) (v := [0x30]) (t := []) ws_nil (.scalar (.number hnumber)) ws_nil⟩

/-- What is wrong with a beginning that no text within the rules has: it begins no text whatever, or only texts that
nest too deep, or only texts that repeat a key. -/
inductive Offence
  | noText
  | tooDeep
  | repeated
  deriving DecidableEq

def Offence.Of (max : Nat) (w : List UInt8) : Offence → Prop
  | .noText => ∀ more, ¬Begins (Text false more) w
  | .tooDeep => ¬Begins (Text false max) w ∧ ∃ more, Begins (Text true more) w
  | .repeated => (∀ more, ¬Begins (Text true more) w) ∧ Begins (Text false max) w

/-- The first byte, read from the left, with which no text within the rules begins, and what is wrong there. -/
def FirstOffence (max : Nat) (x : List UInt8) (offence : Offence) : Prop :=
  ∃ w b y, x = w ++ b :: y ∧ Begins (Text true max) w ∧ ¬Begins (Text true max) (w ++ [b]) ∧ offence.Of max (w ++ [b])

end JsonText
