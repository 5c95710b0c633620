import Mathlib

/-! # JSON texts

The grammar of RFC 8259 on bytes. How deep a text may nest and whether an object may repeat a key are parameters of
it; two keys are one when their characters are, however each is written. -/

namespace JsonText
variable {unique : Bool} {room : Nat} {s t v w : List UInt8}

def isWs (b : UInt8) : Bool :=
  b = 0x20 || b = 0x09 || b = 0x0A || b = 0x0D

def isDigit (b : UInt8) : Bool :=
  0x30 ≤ b && b ≤ 0x39

def hexDigit? (b : UInt8) : Option Nat :=
  if isDigit b then some (b.toNat - 0x30)
  else if 0x61 ≤ b && b ≤ 0x66 then some (b.toNat - 0x61 + 10)
  else if 0x41 ≤ b && b ≤ 0x46 then some (b.toNat - 0x41 + 10)
  else none

def Ws (w : List UInt8) : Prop := ∀ b ∈ w, isWs b

theorem ws_nil : Ws [] := fun _ hb => absurd hb List.not_mem_nil

/-! ## Numbers -/

def AllDigits (w : List UInt8) : Prop := ∀ b ∈ w, isDigit b

inductive Sign : List UInt8 → Prop
  | absent : Sign []
  | minus : Sign [0x2D]

inductive Whole : List UInt8 → Prop
  | zero : Whole [0x30]
  | digits {d : UInt8} {w : List UInt8} (hd : isDigit d) (hne : d ≠ 0x30) (hw : AllDigits w) : Whole (d :: w)

inductive Frac : List UInt8 → Prop
  | absent : Frac []
  | digits {w : List UInt8} (hne : w ≠ []) (hw : AllDigits w) : Frac (0x2E :: w)

inductive Exponent : List UInt8 → Prop
  | absent : Exponent []
  | digits {e : UInt8} {s w : List UInt8} (he : e = 0x65 ∨ e = 0x45) (hs : s ∈ [[], [0x2B], [0x2D]]) (hne : w ≠ [])
      (hw : AllDigits w) : Exponent (e :: (s ++ w))

inductive Number : List UInt8 → Prop
  | mk {s i f e : List UInt8} (hs : Sign s) (hi : Whole i) (hf : Frac f) (he : Exponent e) : Number (s ++ i ++ f ++ e)

/-! ## Strings -/

inductive Hex4 : List UInt8 → Nat → Prop
  | mk {a b c d : UInt8} {i j k l : Nat} (ha : hexDigit? a = some i) (hb : hexDigit? b = some j)
      (hc : hexDigit? c = some k) (hd : hexDigit? d = some l) :
      Hex4 [a, b, c, d] (((i * 16 + j) * 16 + k) * 16 + l)

/-- The escapes of one letter. -/
def shortEscape? (b : UInt8) : Option Char :=
  if b = 0x22 then some '"'
  else if b = 0x5C then some '\\'
  else if b = 0x2F then some '/'
  else if b = 0x62 then some '\x08'
  else if b = 0x66 then some '\x0c'
  else if b = 0x6E then some '\n'
  else if b = 0x72 then some '\r'
  else if b = 0x74 then some '\t'
  else none

/-- What stands behind a backslash and the character it names: a surrogate names one only with its other half. -/
inductive Escape : List UInt8 → Char → Prop
  | short {b : UInt8} {c : Char} (h : shortEscape? b = some c) : Escape [b] c
  | unit {w : List UInt8} {c : Char} (h : Hex4 w c.toNat) : Escape (0x75 :: w) c
  | pair {w w' : List UInt8} {hi lo : Nat} {c : Char} (h : Hex4 w hi) (h' : Hex4 w' lo) (hhi : 0xD800 ≤ hi)
      (hhi' : hi < 0xDC00) (hlo : 0xDC00 ≤ lo) (hlo' : lo < 0xE000)
      (hc : c.toNat = 0x10000 + (hi - 0xD800) * 0x400 + (lo - 0xDC00)) :
      Escape (0x75 :: (w ++ 0x5C :: 0x75 :: w')) c

/-- The characters that may stand for themselves. -/
def unescaped (c : Char) : Bool :=
  0x20 ≤ c.toNat && c ≠ '"' && c ≠ '\\'

/-- What stands between two quotes, with the characters it means. -/
inductive Content : List UInt8 → List Char → Prop
  | nil : Content [] []
  | plain {c : Char} {w : List UInt8} {cs : List Char} (hc : unescaped c) (h : Content w cs) :
      Content (String.utf8EncodeChar c ++ w) (c :: cs)
  | escape {c : Char} {e w : List UInt8} {cs : List Char} (he : Escape e c) (h : Content w cs) :
      Content (0x5C :: (e ++ w)) (c :: cs)

theorem hexDigit?_ascii {b : UInt8} {digit : Nat} (h : hexDigit? b = some digit) : b < 0x80 := by
  rw [hexDigit?] at h
  split_ifs at h with hdigit hlower hupper
  · rw [isDigit, Bool.and_eq_true, decide_eq_true_eq, decide_eq_true_eq] at hdigit
    exact UInt8.lt_of_le_of_lt hdigit.2 (by decide)
  · rw [Bool.and_eq_true, decide_eq_true_eq, decide_eq_true_eq] at hlower
    exact UInt8.lt_of_le_of_lt hlower.2 (by decide)
  · rw [Bool.and_eq_true, decide_eq_true_eq, decide_eq_true_eq] at hupper
    exact UInt8.lt_of_le_of_lt hupper.2 (by decide)

theorem Hex4.ascii {w : List UInt8} {n : Nat} (h : Hex4 w n) : ∀ b ∈ w, b < 0x80 := by
  obtain ⟨ha, hb, hc, hd⟩ := h
  simp only [List.mem_cons, List.not_mem_nil, or_false]
  rintro x (rfl | rfl | rfl | rfl)
  · exact hexDigit?_ascii ha
  · exact hexDigit?_ascii hb
  · exact hexDigit?_ascii hc
  · exact hexDigit?_ascii hd

theorem Escape.ascii {e : List UInt8} {c : Char} (h : Escape e c) : ∀ b ∈ e, b < 0x80 := by
  cases h with
  | @short b _ h =>
    intro x hx
    obtain rfl := List.mem_singleton.mp hx
    rw [shortEscape?] at h
    split_ifs at h <;> subst_vars <;> decide
  | unit h => exact List.forall_mem_cons.mpr ⟨by decide, h.ascii⟩
  | pair h h' =>
    refine List.forall_mem_cons.mpr ⟨by decide, List.forall_mem_append.mpr ⟨h.ascii, ?_⟩⟩
    exact List.forall_mem_cons.mpr ⟨by decide, List.forall_mem_cons.mpr ⟨by decide, h'.ascii⟩⟩

/-! ## Values -/

/-- `true`, `false` and `null`. -/
def literals : List (List UInt8) :=
  [[0x74, 0x72, 0x75, 0x65], [0x66, 0x61, 0x6C, 0x73, 0x65], [0x6E, 0x75, 0x6C, 0x6C]]

inductive Scalar : List UInt8 → Prop
  | literal {w : List UInt8} (h : w ∈ literals) : Scalar w
  | number {w : List UInt8} (h : Number w) : Scalar w
  | string {w : List UInt8} {cs : List Char} (h : Content w cs) : Scalar (0x22 :: (w ++ [0x22]))

theorem Number.head (h : Number w) : ∃ b tail, w = b :: tail ∧ (b = 0x2D ∨ isDigit b) := by
  obtain ⟨hs, hi, hf, he⟩ := h
  cases hs with
  | minus => exact ⟨0x2D, _, rfl, .inl rfl⟩
  | absent =>
    cases hi with
    | zero => exact ⟨0x30, _, rfl, .inr rfl⟩
    | digits hd => exact ⟨_, _, rfl, .inr hd⟩

/-- A scalar begins with no space and no bracket. -/
theorem Scalar.head (h : Scalar w) : ∃ b tail, w = b :: tail ∧ ¬isWs b ∧ b ≠ 0x5D := by
  cases h with
  | literal h =>
    simp only [literals, List.mem_cons, List.not_mem_nil, or_false] at h
    rcases h with rfl | rfl | rfl <;> exact ⟨_, _, rfl, by decide, by decide⟩
  | number h =>
    obtain ⟨b, tail, rfl, rfl | hb⟩ := h.head
    · exact ⟨_, _, rfl, by decide, by decide⟩
    · refine ⟨b, tail, rfl, fun hws => ?_, ?_⟩
      · simp only [isWs, Bool.or_eq_true, decide_eq_true_eq] at hws
        rcases hws with ((rfl | rfl) | rfl) | rfl <;> cases hb
      · rintro rfl
        cases hb
  | string h => exact ⟨_, _, rfl, by decide, by decide⟩

/-- A key with the space about it and its colon. -/
inductive Key : List UInt8 → String → Prop
  | mk {s k t : List UInt8} {cs : List Char} (hs : Ws s) (hk : Content k cs) (ht : Ws t) :
      Key (s ++ 0x22 :: (k ++ 0x22 :: (t ++ [0x3A]))) (String.ofList cs)

mutual

/-- A value in which at most `room` containers are nested. -/
inductive Value (unique : Bool) : Nat → List UInt8 → Prop
  | scalar {room : Nat} {w : List UInt8} (h : Scalar w) : Value unique room w
  | emptyArray {room : Nat} {s : List UInt8} (hs : Ws s) : Value unique (room + 1) (0x5B :: (s ++ [0x5D]))
  | array {room : Nat} {w : List UInt8} (h : Elements unique room w) : Value unique (room + 1) (0x5B :: (w ++ [0x5D]))
  | emptyObject {room : Nat} {s : List UInt8} (hs : Ws s) : Value unique (room + 1) (0x7B :: (s ++ [0x7D]))
  | object {room : Nat} {w : List UInt8} {keys : List String} (h : Members unique room w keys)
      (hkeys : unique → keys.Nodup) : Value unique (room + 1) (0x7B :: (w ++ [0x7D]))

inductive Elements (unique : Bool) : Nat → List UInt8 → Prop
  | last {room : Nat} {s v t : List UInt8} (hs : Ws s) (h : Value unique room v) (ht : Ws t) :
      Elements unique room (s ++ (v ++ t))
  | more {room : Nat} {s v t w : List UInt8} (hs : Ws s) (h : Value unique room v) (ht : Ws t)
      (hw : Elements unique room w) : Elements unique room (s ++ (v ++ (t ++ 0x2C :: w)))

inductive Members (unique : Bool) : Nat → List UInt8 → List String → Prop
  | last {room : Nat} {k s v t : List UInt8} {key : String} (hk : Key k key) (hs : Ws s) (h : Value unique room v)
      (ht : Ws t) : Members unique room (k ++ (s ++ (v ++ t))) [key]
  | more {room : Nat} {k s v t w : List UInt8} {key : String} {keys : List String} (hk : Key k key) (hs : Ws s)
      (h : Value unique room v) (ht : Ws t) (hw : Members unique room w keys) :
      Members unique room (k ++ (s ++ (v ++ (t ++ 0x2C :: w)))) (key :: keys)

end

inductive Text (unique : Bool) (room : Nat) : List UInt8 → Prop
  | mk {s v t : List UInt8} (hs : Ws s) (h : Value unique room v) (ht : Ws t) : Text unique room (s ++ (v ++ t))

mutual

theorem Value.add {unique : Bool} {room : Nat} {v : List UInt8} :
    Value unique room v → ∀ k, Value unique (room + k) v
  | .scalar h, _ => .scalar h
  | .emptyArray hs, k => by rw [Nat.add_right_comm]; exact .emptyArray hs
  | .array h, k => by rw [Nat.add_right_comm]; exact .array (h.add k)
  | .emptyObject hs, k => by rw [Nat.add_right_comm]; exact .emptyObject hs
  | .object h hkeys, k => by rw [Nat.add_right_comm]; exact .object (h.add k) hkeys

theorem Elements.add {unique : Bool} {room : Nat} {w : List UInt8} :
    Elements unique room w → ∀ k, Elements unique (room + k) w
  | .last hs h ht, k => .last hs (h.add k) ht
  | .more hs h ht hw, k => .more hs (h.add k) ht (hw.add k)

theorem Members.add {unique : Bool} {room : Nat} {w : List UInt8} {keys : List String} :
    Members unique room w keys → ∀ k, Members unique (room + k) w keys
  | .last hk hs h ht, k => .last hk hs (h.add k) ht
  | .more hk hs h ht hw, k => .more hk hs (h.add k) ht (hw.add k)

end

/-- More room never hurts. -/
theorem Text.mono {more : Nat} (h : Text unique room w) (hle : room ≤ more) : Text unique more w := by
  obtain ⟨hs, h, ht⟩ := h
  obtain ⟨k, rfl⟩ := Nat.exists_eq_add_of_le hle
  exact .mk hs (h.add k) ht

end JsonText
