import DeployCore.Lib.Decimal
import DeployCore.Lib.Json
import DeployCore.Lib.Utf8

/-! # Compact JSON

What a compact writer makes of a value, and that it writes two values alike only where they are one: a text that
begins with a written value determines the value and what follows. A float's numeral is left to the writer, so that
is shown of values without floats. -/

namespace Json

/-! ### Strings -/

def hexNumeral (n : UInt8) : UInt8 := if n < 10 then 48 + n else 87 + n

/-- What a byte of a string is written as between its quotes. -/
def escapeByte (b : UInt8) : List UInt8 :=
  if b = 34 then [92, 34]
  else if b = 92 then [92, 92]
  else if b = 8 then [92, 98]
  else if b = 9 then [92, 116]
  else if b = 10 then [92, 110]
  else if b = 12 then [92, 102]
  else if b = 13 then [92, 114]
  else if b < 32 then [92, 117, 48, 48, hexNumeral (b / 16), hexNumeral (b % 16)]
  else [b]

def writeString (s : String) : List UInt8 := 34 :: (Utf8.encode s.toList).flatMap escapeByte ++ [34]

/-! ### Values -/

section
variable (float : UInt64 → List UInt8)

def Number.write : Number → List UInt8
  | .posInt n => Decimal.write n.toNat
  | .negInt n => 45 :: Decimal.write n.natAbs
  | .float bits => float bits

mutual

def Value.write : Value → List UInt8
  | .null => [110, 117, 108, 108]
  | .bool true => [116, 114, 117, 101]
  | .bool false => [102, 97, 108, 115, 101]
  | .num n => n.write float
  | .str s => writeString s
  | .arr [] => [91, 93]
  | .arr (item :: items) => 91 :: (item.write ++ writeItems items)
  | .obj [] => [123, 125]
  | .obj ((key, value) :: members) => 123 :: (writeString key ++ 58 :: (value.write ++ writeMembers members))

/-- The further items of an array, and its end. -/
def writeItems : List Value → List UInt8
  | [] => [93]
  | item :: items => 44 :: (item.write ++ writeItems items)

/-- The further members of an object, and its end. -/
def writeMembers : List (String × Value) → List UInt8
  | [] => [125]
  | (key, value) :: members => 44 :: (writeString key ++ 58 :: (value.write ++ writeMembers members))

end

end

/-! ### Values without floats -/

def Number.isInt : Number → Bool
  | .posInt _ => true
  | .negInt n => n < 0
  | .float _ => false

mutual

/-- Every number is an integer, a negative one where it is written as one. -/
def Value.integral : Value → Bool
  | .num n => n.isInt
  | .arr items => itemsIntegral items
  | .obj members => membersIntegral members
  | _ => true

def itemsIntegral : List Value → Bool
  | [] => true
  | item :: items => item.integral && itemsIntegral items

def membersIntegral : List (String × Value) → Bool
  | [] => true
  | (_, value) :: members => value.integral && membersIntegral members

end

/-! ### What is written is read one way -/

section Strings
variable {b b' : UInt8} {r r' : List UInt8}

/-- The byte an escape stands for, and what follows it. -/
def unescape : List UInt8 → Option (UInt8 × List UInt8)
  | 92 :: 117 :: 48 :: 48 :: high :: low :: r =>
    let digit (c : UInt8) := if c < 58 then c - 48 else c - 87
    some (16 * digit high + digit low, r)
  | 92 :: 98 :: r => some (8, r)
  | 92 :: 116 :: r => some (9, r)
  | 92 :: 110 :: r => some (10, r)
  | 92 :: 102 :: r => some (12, r)
  | 92 :: 114 :: r => some (13, r)
  | 92 :: c :: r => some (c, r)
  | b :: r => some (b, r)
  | [] => none

theorem unescape_escapeByte : unescape (escapeByte b ++ r) = some (b, r) := by
  have hcontrol : ∀ n < 32, unescape [92, 117, 48, 48, hexNumeral (.ofNat n / 16), hexNumeral (.ofNat n % 16)] =
      some (.ofNat n, []) := by decide +kernel
  unfold escapeByte
  split_ifs with h₁ h₂ h₃ h₄ h₅ h₆ h₇ h₈
  · rw [h₁]; rfl
  · rw [h₂]; rfl
  · rw [h₃]; rfl
  · rw [h₄]; rfl
  · rw [h₅]; rfl
  · rw [h₆]; rfl
  · rw [h₇]; rfl
  · have hb := hcontrol b.toNat (UInt8.lt_iff_toNat_lt.mp h₈)
    rw [UInt8.ofNat_toNat] at hb
    obtain ⟨hb, -⟩ := Prod.mk.inj (Option.some.inj hb)
    exact congrArg (fun c => some (c, r)) hb
  · unfold unescape
    split <;> simp_all

theorem escapeByte_inj (h : escapeByte b ++ r = escapeByte b' ++ r') : b = b' ∧ r = r' := by
  have hread := congrArg unescape h
  rw [unescape_escapeByte, unescape_escapeByte] at hread
  exact Prod.mk.inj (Option.some.inj hread)

theorem head?_escapeByte : (escapeByte b ++ r).head? ≠ some 34 := by
  unfold escapeByte
  split_ifs with h
  all_goals first
    | exact fun hhead => h (Option.some.inj hhead)
    | exact fun hhead => nomatch hhead

theorem content_inj {bs bs' : List UInt8} (h : bs.flatMap escapeByte ++ 34 :: r = bs'.flatMap escapeByte ++ 34 :: r') :
    bs = bs' ∧ r = r' := by
  induction bs generalizing bs' with
  | nil =>
    rcases bs' with _ | ⟨b', bs'⟩
    · exact ⟨rfl, (List.cons.inj h).2⟩
    · rw [List.flatMap_cons, List.append_assoc] at h
      exact absurd (congrArg List.head? h).symm head?_escapeByte
  | cons b bs ih =>
    rcases bs' with _ | ⟨b', bs'⟩
    · rw [List.flatMap_cons, List.append_assoc] at h
      exact absurd (congrArg List.head? h) head?_escapeByte
    · rw [List.flatMap_cons, List.flatMap_cons, List.append_assoc, List.append_assoc] at h
      obtain ⟨rfl, hrest⟩ := escapeByte_inj h
      obtain ⟨rfl, rfl⟩ := ih hrest
      exact ⟨rfl, rfl⟩

theorem writeString_inj {s s' : String} (h : writeString s ++ r = writeString s' ++ r') : s = s' ∧ r = r' := by
  simp only [writeString, List.cons_append, List.append_assoc, List.nil_append, List.cons.injEq, true_and] at h
  obtain ⟨hbytes, rfl⟩ := content_inj h
  have hread := congrArg (fun bytes : List UInt8 => String.fromUTF8? bytes.toByteArray) hbytes
  simp only [Utf8.fromUTF8?_encode, String.ofList_toList, Option.some.injEq] at hread
  exact ⟨hread, rfl⟩

end Strings

section Numbers
variable {float : UInt64 → List UInt8} {n n' : Number} {r r' : List UInt8}

/-- What may follow a value inside an array or an object, or at the end. -/
def Stops (r : List UInt8) : Prop := ∀ b, r.head? = some b → b = 44 ∨ b = 93 ∨ b = 125

/-- Two runs of one kind of byte that something else follows. -/
theorem append_inj_of_kind {p : UInt8 → Prop} {x y : List UInt8} (hx : ∀ b ∈ x, p b) (hy : ∀ b ∈ y, p b)
    (hr : ∀ b, r.head? = some b → ¬ p b) (hr' : ∀ b, r'.head? = some b → ¬ p b) (h : x ++ r = y ++ r') :
    x = y ∧ r = r' := by
  induction x generalizing y with
  | nil =>
    rcases y with _ | ⟨b, y⟩
    · exact ⟨rfl, h⟩
    · exact absurd (hy b (List.mem_cons_self ..)) (hr b (congrArg List.head? h))
  | cons b x ih =>
    rcases y with _ | ⟨b', y⟩
    · exact absurd (hx b (List.mem_cons_self ..)) (hr' b (congrArg List.head? h).symm)
    · obtain ⟨rfl, hrest⟩ := List.cons.inj h
      obtain ⟨rfl, rfl⟩ := ih (List.forall_mem_cons.mp hx).2 (List.forall_mem_cons.mp hy).2 hrest
      exact ⟨rfl, rfl⟩

theorem write_inj {k k' : Nat} (hr : Stops r) (hr' : Stops r') (h : Decimal.write k ++ r = Decimal.write k' ++ r') :
    k = k' ∧ r = r' := by
  have hstop {r : List UInt8} (hr : Stops r) (b : UInt8) (hb : r.head? = some b) : ¬ (48 ≤ b.toNat ∧ b.toNat ≤ 57) := by
    rcases hr b hb with rfl | rfl | rfl <;> decide
  obtain ⟨hdigits, rfl⟩ := append_inj_of_kind (fun _ => Decimal.mem_write) (fun _ => Decimal.mem_write) (hstop hr)
    (hstop hr') h
  have hread {n : Nat} (hn : n < k + k' + 1) := Decimal.read_write hn
  have hk := hread (n := k) (by omega)
  have hk' := hread (n := k') (by omega)
  rw [hdigits, hk'] at hk
  exact ⟨(Option.some.inj hk).symm, rfl⟩

/-- A numeral begins with a digit, or with a minus sign where the number is negative. -/
theorem Number.head_write (hn : n.isInt = true) : ∃ b rest, n.write float = b :: rest ∧
    (48 ≤ b.toNat ∧ b.toNat ≤ 57 ∨ b = 45) := by
  cases n with
  | posInt k =>
    obtain ⟨b, rest, hcons⟩ := List.exists_cons_of_ne_nil (Decimal.write_ne_nil (n := k.toNat))
    exact ⟨b, rest, hcons, .inl (Decimal.mem_write (hcons ▸ List.mem_cons_self ..))⟩
  | negInt k => exact ⟨45, _, rfl, .inr rfl⟩
  | float bits => cases hn

theorem Number.write_inj (hn : n.isInt = true) (hn' : n'.isInt = true) (hr : Stops r) (hr' : Stops r')
    (h : n.write float ++ r = n'.write float ++ r') : n = n' ∧ r = r' := by
  have hmixed {k : Nat} {t t' : List UInt8} : Decimal.write k ++ t ≠ 45 :: t' := by
    obtain ⟨b, rest, hcons⟩ := List.exists_cons_of_ne_nil (Decimal.write_ne_nil (n := k))
    rw [hcons]
    intro heq
    obtain rfl := (List.cons.inj heq).1
    have := (Decimal.mem_write (n := k) (hcons ▸ List.mem_cons_self ..)).1
    exact absurd this (by decide)
  cases n with
  | posInt k =>
    cases n' with
    | posInt k' =>
      obtain ⟨hk, rfl⟩ := Json.write_inj hr hr' h
      exact ⟨congrArg posInt (UInt64.toNat_inj.mp hk), rfl⟩
    | negInt k' => exact absurd h hmixed
    | float bits => cases hn'
  | negInt k =>
    cases n' with
    | posInt k' => exact absurd h.symm hmixed
    | negInt k' =>
      obtain ⟨hk, rfl⟩ := Json.write_inj hr hr' (List.cons.inj h).2
      have hneg : k < 0 := of_decide_eq_true hn
      have hneg' : k' < 0 := of_decide_eq_true hn'
      exact ⟨congrArg negInt (by omega), rfl⟩
    | float bits => cases hn'
  | float bits => cases hn

end Numbers

section Values
variable {float : UInt64 → List UInt8}

/-- The kind of value a first byte tells. -/
def leadKind (b : UInt8) : Nat :=
  if b = 110 then 0 else if b = 116 ∨ b = 102 then 1 else if b = 34 then 3 else if b = 91 then 4
  else if b = 123 then 5 else 2

def Value.kind : Value → Nat
  | .null => 0
  | .bool _ => 1
  | .num _ => 2
  | .str _ => 3
  | .arr _ => 4
  | .obj _ => 5

theorem Value.head_write {v : Value} (hv : v.integral = true) :
    ∃ b rest, v.write float = b :: rest ∧ leadKind b = v.kind ∧ b ≠ 93 := by
  cases v with
  | null => exact ⟨_, _, by rw [write], rfl, by decide⟩
  | bool b => cases b <;> exact ⟨_, _, by rw [write], rfl, by decide⟩
  | num n =>
    rw [integral] at hv
    obtain ⟨b, rest, hcons, hb⟩ : ∃ b rest, n.write float = b :: rest ∧ (48 ≤ b.toNat ∧ b.toNat ≤ 57 ∨ b = 45) :=
      n.head_write hv
    have hnot (c : UInt8) (hc : 57 < c.toNat ∨ c = 34) : b ≠ c := by
      rintro rfl
      rcases hb with ⟨hlo, hhi⟩ | rfl
      · rcases hc with hc | rfl
        · omega
        · exact absurd hlo (by decide)
      · rcases hc with hc | hc <;> exact absurd hc (by decide)
    refine ⟨b, rest, by rw [write, hcons], ?_, hnot 93 (.inl (by decide))⟩
    rw [leadKind, if_neg (hnot 110 (.inl (by decide))), if_neg, if_neg (hnot 34 (.inr rfl)),
      if_neg (hnot 91 (.inl (by decide))), if_neg (hnot 123 (.inl (by decide)))]
    · rfl
    · exact fun h => h.elim (hnot 116 (.inl (by decide))) (hnot 102 (.inl (by decide)))
  | str s => exact ⟨34, _, by rw [write, writeString, List.cons_append], rfl, by decide⟩
  | arr items => cases items <;> exact ⟨91, _, by rw [write], rfl, by decide⟩
  | obj members => rcases members with _ | ⟨⟨key, value⟩, members⟩ <;> exact ⟨123, _, by rw [write], rfl, by decide⟩

theorem Value.kind_eq {v v' : Value} {r r' : List UInt8} (hv : v.integral = true) (hv' : v'.integral = true)
    (h : v.write float ++ r = v'.write float ++ r') : v.kind = v'.kind := by
  obtain ⟨b, rest, hcons, hkind, -⟩ := @head_write float v hv
  obtain ⟨b', rest', hcons', hkind', -⟩ := @head_write float v' hv'
  rw [hcons, hcons'] at h
  obtain rfl := (List.cons.inj h).1
  exact hkind.symm.trans hkind'

theorem stops_writeItems (items : List Value) (r : List UInt8) : Stops (writeItems float items ++ r) := by
  intro b hb
  cases items with
  | nil => exact .inr (.inl (Option.some.inj hb).symm)
  | cons item items =>
    rw [writeItems] at hb
    exact .inl (Option.some.inj hb).symm

theorem stops_writeMembers (members : List (String × Value)) (r : List UInt8) :
    Stops (writeMembers float members ++ r) := by
  intro b hb
  rcases members with _ | ⟨⟨key, value⟩, members⟩
  · exact .inr (.inr (Option.some.inj hb).symm)
  · rw [writeMembers] at hb
    exact .inl (Option.some.inj hb).symm

/-- No written value begins as an empty array ends. -/
theorem Value.write_append_ne {v : Value} {r r' : List UInt8} (hv : v.integral = true) : 93 :: r ≠ v.write float ++ r' := by
  obtain ⟨b, rest, hcons, -, hb⟩ := @head_write float v hv
  rw [hcons]
  exact fun h => hb (List.cons.inj h).1.symm

mutual

/-- A text that begins with a written value determines the value and what follows it. -/
theorem Value.write_inj : ∀ {v v' : Value} {r r' : List UInt8}, Stops r → Stops r' → v.integral = true →
    v'.integral = true → v.write float ++ r = v'.write float ++ r' → v = v' ∧ r = r'
  | .null, v', _, _, _, _, hv, hv', h => by
    cases v' with
    | null => exact ⟨rfl, List.append_cancel_left h⟩
    | _ => exact absurd (Value.kind_eq hv hv' h) (by simp [Value.kind])
  | .bool b, v', _, _, _, _, hv, hv', h => by
    cases v' with
    | bool b' =>
      cases b <;> cases b' <;> simp [Value.write] at h
      all_goals exact ⟨rfl, h⟩
    | _ => exact absurd (Value.kind_eq hv hv' h) (by simp [Value.kind])
  | .num n, v', _, _, hr, hr', hv, hv', h => by
    cases v' with
    | num n' =>
      rw [Value.write, Value.write] at h
      rw [Value.integral] at hv hv'
      obtain ⟨rfl, rfl⟩ := n.write_inj hv hv' hr hr' h
      exact ⟨rfl, rfl⟩
    | _ => exact absurd (Value.kind_eq hv hv' h) (by simp [Value.kind])
  | .str s, v', _, _, _, _, hv, hv', h => by
    cases v' with
    | str s' =>
      rw [Value.write, Value.write] at h
      obtain ⟨rfl, rfl⟩ := writeString_inj h
      exact ⟨rfl, rfl⟩
    | _ => exact absurd (Value.kind_eq hv hv' h) (by simp [Value.kind])
  | .arr [], v', _, _, _, _, hv, hv', h => by
    cases v' with
    | arr items' =>
      rw [Value.integral] at hv'
      rcases items' with _ | ⟨item', items'⟩
      · exact ⟨rfl, List.append_cancel_left h⟩
      · rw [itemsIntegral, Bool.and_eq_true] at hv'
        simp only [Value.write, List.cons_append, List.nil_append, List.cons.injEq, true_and, List.append_assoc] at h
        exact absurd h (Value.write_append_ne hv'.1)
    | _ => exact absurd (Value.kind_eq hv hv' h) (by simp [Value.kind])
  | .arr (item :: items), v', r, r', _, _, hv, hv', h => by
    cases v' with
    | arr items' =>
      rw [Value.integral, itemsIntegral, Bool.and_eq_true] at hv
      rw [Value.integral] at hv'
      rcases items' with _ | ⟨item', items'⟩
      · simp only [Value.write, List.cons_append, List.nil_append, List.cons.injEq, true_and, List.append_assoc] at h
        exact absurd h.symm (Value.write_append_ne hv.1)
      · rw [itemsIntegral, Bool.and_eq_true] at hv'
        simp only [Value.write, List.cons_append, List.cons.injEq, true_and, List.append_assoc] at h
        obtain ⟨rfl, hrest⟩ := Value.write_inj (stops_writeItems items r) (stops_writeItems items' r') hv.1 hv'.1 h
        obtain ⟨rfl, rfl⟩ := writeItems_inj hv.2 hv'.2 hrest
        exact ⟨rfl, rfl⟩
    | _ => exact absurd (Value.kind_eq hv hv' h) (by simp [Value.kind])
  | .obj [], v', _, _, _, _, hv, hv', h => by
    cases v' with
    | obj members' =>
      rcases members' with _ | ⟨⟨key', value'⟩, members'⟩
      · exact ⟨rfl, List.append_cancel_left h⟩
      · simp [Value.write, writeString] at h
    | _ => exact absurd (Value.kind_eq hv hv' h) (by simp [Value.kind])
  | .obj ((key, value) :: members), v', r, r', _, _, hv, hv', h => by
    cases v' with
    | obj members' =>
      rw [Value.integral, membersIntegral, Bool.and_eq_true] at hv
      rw [Value.integral] at hv'
      rcases members' with _ | ⟨⟨key', value'⟩, members'⟩
      · simp [Value.write, writeString] at h
      · rw [membersIntegral, Bool.and_eq_true] at hv'
        simp only [Value.write, List.cons_append, List.cons.injEq, true_and, List.append_assoc] at h
        obtain ⟨rfl, hvalue⟩ := writeString_inj h
        obtain ⟨rfl, hrest⟩ := Value.write_inj (stops_writeMembers members r) (stops_writeMembers members' r') hv.1
          hv'.1 (List.cons.inj hvalue).2
        obtain ⟨rfl, rfl⟩ := writeMembers_inj hv.2 hv'.2 hrest
        exact ⟨rfl, rfl⟩
    | _ => exact absurd (Value.kind_eq hv hv' h) (by simp [Value.kind])

theorem writeItems_inj : ∀ {items items' : List Value} {r r' : List UInt8}, itemsIntegral items = true →
    itemsIntegral items' = true → writeItems float items ++ r = writeItems float items' ++ r' → items = items' ∧ r = r'
  | [], items', _, _, _, _, h => by
    rcases items' with _ | ⟨item', items'⟩
    · exact ⟨rfl, (List.cons.inj h).2⟩
    · simp [writeItems] at h
  | item :: items, items', r, r', hitems, hitems', h => by
    rcases items' with _ | ⟨item', items'⟩
    · simp [writeItems] at h
    · rw [itemsIntegral, Bool.and_eq_true] at hitems hitems'
      simp only [writeItems, List.cons_append, List.cons.injEq, true_and, List.append_assoc] at h
      obtain ⟨rfl, hrest⟩ := Value.write_inj (stops_writeItems items r) (stops_writeItems items' r') hitems.1 hitems'.1 h
      obtain ⟨rfl, rfl⟩ := writeItems_inj hitems.2 hitems'.2 hrest
      exact ⟨rfl, rfl⟩

theorem writeMembers_inj : ∀ {members members' : List (String × Value)} {r r' : List UInt8},
    membersIntegral members = true → membersIntegral members' = true →
      writeMembers float members ++ r = writeMembers float members' ++ r' → members = members' ∧ r = r'
  | [], members', _, _, _, _, h => by
    rcases members' with _ | ⟨⟨key', value'⟩, members'⟩
    · exact ⟨rfl, (List.cons.inj h).2⟩
    · simp [writeMembers] at h
  | (key, value) :: members, members', r, r', hmembers, hmembers', h => by
    rcases members' with _ | ⟨⟨key', value'⟩, members'⟩
    · simp [writeMembers] at h
    · rw [membersIntegral, Bool.and_eq_true] at hmembers hmembers'
      simp only [writeMembers, List.cons_append, List.cons.injEq, true_and, List.append_assoc] at h
      obtain ⟨rfl, hvalue⟩ := writeString_inj h
      obtain ⟨rfl, hrest⟩ := Value.write_inj (stops_writeMembers members r) (stops_writeMembers members' r') hmembers.1
        hmembers'.1 (List.cons.inj hvalue).2
      obtain ⟨rfl, rfl⟩ := writeMembers_inj hmembers.2 hmembers'.2 hrest
      exact ⟨rfl, rfl⟩

end

/-- Two values without floats are written alike only where they are one. -/
theorem Value.eq_of_write {v v' : Value} (hv : v.integral = true) (hv' : v'.integral = true)
    (h : v.write float = v'.write float) : v = v' := by
  have hstop : Stops [] := fun _ h => by cases h
  exact (write_inj hstop hstop hv hv' (congrArg (· ++ []) h)).1

end Values

/-! ### Values made of documents -/

mutual

/-- The value a serializer builds of a document it writes. -/
def Text.written : Text → Value
  | .null | .unreadable => .null
  | .bool b => .bool b
  | .num n => .num n
  | .str s => .str s
  | .arr items => .arr (writtenItems items)
  | .obj members => .obj (fromMembers (writtenMembers members))

def writtenItems : List Text → List Value
  | [] => []
  | item :: items => item.written :: writtenItems items

def writtenMembers : List (Option String × Text) → Members
  | [] => []
  | (key, item) :: members => (key.getD "", item.written) :: writtenMembers members

/-- No number of the document is a float. -/
def Text.integral : Text → Bool
  | .num n => n.isInt
  | .arr items => textsIntegral items
  | .obj members => namedIntegral members
  | _ => true

def textsIntegral : List Text → Bool
  | [] => true
  | item :: items => item.integral && textsIntegral items

def namedIntegral : List (Option String × Text) → Bool
  | [] => true
  | (_, item) :: members => item.integral && namedIntegral members

end

mutual

/-- A document that decodes is written as the value it decodes to. -/
theorem Text.written_of_toValue : ∀ {t : Text} {d : Nat} {v : Value}, t.toValue d = some v → t.written = v
  | .null, _, _, h | .bool _, _, _, h | .num _, _, _, h | .str _, _, _, h => by
    rw [Text.toValue] at h
    rw [Text.written]
    exact Option.some.inj h
  | .unreadable, _, _, h => by
    rw [Text.toValue] at h
    cases h
  | .arr items, d, v, h => by
    rw [Text.toValue] at h
    split at h
    · cases h
    obtain ⟨values, hvalues, rfl⟩ := Option.map_eq_some_iff.mp h
    rw [Text.written, writtenItems_of_toValues hvalues]
  | .obj members, d, v, h => by
    rw [Text.toValue] at h
    split at h
    · cases h
    obtain ⟨values, hvalues, rfl⟩ := Option.map_eq_some_iff.mp h
    rw [Text.written, writtenMembers_of_toMembers hvalues]

theorem writtenItems_of_toValues : ∀ {items : List Text} {d : Nat} {values : List Value},
    toValues items d = some values → writtenItems items = values
  | [], _, _, h => Option.some.inj h
  | item :: items, d, values, h => by
    simp only [toValues, Option.bind_eq_bind, Option.bind_eq_some_iff, Option.some.injEq] at h
    obtain ⟨value, hvalue, values, hvalues, rfl⟩ := h
    rw [writtenItems, Text.written_of_toValue hvalue, writtenItems_of_toValues hvalues]

theorem writtenMembers_of_toMembers : ∀ {members : List (Option String × Text)} {d : Nat} {values : Members},
    toMembers members d = some values → writtenMembers members = values
  | [], _, _, h => Option.some.inj h
  | (key, item) :: members, d, values, h => by
    simp only [toMembers, Option.bind_eq_bind, Option.bind_eq_some_iff, Option.some.injEq] at h
    obtain ⟨key, rfl, value, hvalue, values, hvalues, rfl⟩ := h
    rw [writtenMembers, Text.written_of_toValue hvalue, writtenMembers_of_toMembers hvalues, Option.getD_some]

end

theorem membersIntegral_insertMember {key : String} {value : Value} {members : Members} (hvalue : value.integral = true)
    (h : membersIntegral members = true) : membersIntegral (insertMember key value members) = true := by
  induction members with
  | nil => simp [insertMember, membersIntegral, hvalue]
  | cons member members ih =>
    obtain ⟨key', value'⟩ := member
    rw [membersIntegral, Bool.and_eq_true] at h
    rw [insertMember]
    split_ifs
    · simp [membersIntegral, hvalue, h.2]
    · simp [membersIntegral, hvalue, h.1, h.2]
    · simp [membersIntegral, h.1, ih h.2]

theorem membersIntegral_fromMembers {members : Members} (h : membersIntegral members = true) :
    membersIntegral (fromMembers members) = true := by
  suffices hfold : ∀ map, membersIntegral map = true →
      membersIntegral (members.foldl (fun map member => insertMember member.1 member.2 map) map) = true from hfold [] rfl
  intro map hmap
  induction members generalizing map with
  | nil => exact hmap
  | cons member members ih =>
    rw [membersIntegral, Bool.and_eq_true] at h
    exact ih h.2 _ (membersIntegral_insertMember h.1 hmap)

mutual

theorem Text.integral_written : ∀ {t : Text}, t.integral = true → t.written.integral = true
  | .null, _ | .unreadable, _ | .bool _, _ | .str _, _ => by rw [Text.written, Value.integral] <;> nofun
  | .num _, h => by
    rw [Text.integral] at h
    rwa [Text.written, Value.integral]
  | .arr items, h => by
    rw [Text.integral] at h
    rw [Text.written, Value.integral, itemsIntegral_written h]
  | .obj members, h => by
    rw [Text.integral] at h
    rw [Text.written, Value.integral, membersIntegral_fromMembers (membersIntegral_written h)]

theorem itemsIntegral_written : ∀ {items : List Text}, textsIntegral items = true →
    itemsIntegral (writtenItems items) = true
  | [], _ => rfl
  | item :: items, h => by
    rw [textsIntegral, Bool.and_eq_true] at h
    rw [writtenItems, itemsIntegral, Text.integral_written h.1, itemsIntegral_written h.2, Bool.and_self]

theorem membersIntegral_written : ∀ {members : List (Option String × Text)}, namedIntegral members = true →
    membersIntegral (writtenMembers members) = true
  | [], _ => rfl
  | (key, item) :: members, h => by
    rw [namedIntegral, Bool.and_eq_true] at h
    rw [writtenMembers, membersIntegral, Text.integral_written h.1, membersIntegral_written h.2, Bool.and_self]

end

theorem textsIntegral_map {α : Type} {w : α → Text} {as : List α} (h : ∀ a ∈ as, (w a).integral = true) :
    (Text.arr (as.map w)).integral = true := by
  rw [Text.integral]
  induction as with
  | nil => rfl
  | cons a as ih =>
    obtain ⟨ha, has⟩ := List.forall_mem_cons.mp h
    rw [List.map_cons, textsIntegral, ha, ih has, Bool.and_self]

end Json
