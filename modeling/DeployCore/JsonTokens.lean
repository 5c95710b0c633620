import DeployCore.ContentFault
import DeployCore.Lib.Checks
import DeployCore.Lib.JsonMachine
import DeployCore.Lib.Utf8

/-! # The tokens of the JSON scan

How the scan reads a string, its escapes and a number off the bytes that are left, and that it reads exactly what the
grammar derives. The position of the source is the bytes that are left from it on. -/

namespace DeployCore
namespace JsonScan
open JsonText

/-- `syntax()`. -/
def syntaxFault : ContentFault :=
  .malformed .jsonSyntax

def nextByte (rest : List UInt8) : Except ContentFault (UInt8 × List UInt8) :=
  match rest with
  | [] => .error syntaxFault
  | b :: rest => .ok (b, rest)

/-! ## Tokens -/

/-- The loop of `hex4` over the digits still to be read. -/
def hexDigits (value : Nat) (rest : List UInt8) : Nat → Except ContentFault (Nat × List UInt8)
  | 0 => .ok (value, rest)
  | count + 1 => do
    let (b, rest) ← nextByte rest
    match hexDigit? b with
    | none => .error syntaxFault
    | some digit => hexDigits (value * 16 + digit) rest count

def hex4 (rest : List UInt8) : Except ContentFault (Nat × List UInt8) :=
  hexDigits 0 rest 4

/-- `char::from_u32`. -/
def charFromU32 (scalar : Nat) : Except ContentFault Char :=
  if h : scalar.isValidChar then .ok (Char.ofNatAux scalar h) else .error syntaxFault

def escape (rest : List UInt8) : Except ContentFault (Char × List UInt8) := do
  let (b, rest) ← nextByte rest
  if b = 0x75 then
    let (unit, rest) ← hex4 rest
    if 0xD800 ≤ unit ∧ unit ≤ 0xDBFF then
      let (backslash, rest) ← nextByte rest
      let (letter, rest) ← nextByte rest
      if backslash = 0x5C ∧ letter = 0x75 then
        let (low, rest) ← hex4 rest
        if 0xDC00 ≤ low ∧ low ≤ 0xDFFF then
          return (← charFromU32 (0x10000 + (unit - 0xD800) * 2 ^ 10 + (low - 0xDC00)), rest)
        else .error syntaxFault
      else .error syntaxFault
    else if 0xDC00 ≤ unit ∧ unit ≤ 0xDFFF then .error syntaxFault
    else return (← charFromU32 unit, rest)
  else
    match shortEscape? b with
    | some ch => return (ch, rest)
    | none => .error syntaxFault

theorem hexDigits_cases {value n k : Nat} {rest left : List UInt8} (h : hexDigits value rest (k + 1) = .ok (n, left)) :
    ∃ b digit tail, rest = b :: tail ∧ hexDigit? b = some digit ∧
      hexDigits (value * 16 + digit) tail k = .ok (n, left) := by
  rcases rest with _ | ⟨b, tail⟩
  · cases h
  · simp only [hexDigits, nextByte, bind, Except.bind] at h
    rcases hdigit : hexDigit? b with _ | digit <;> rw [hdigit] at h
    · cases h
    · exact ⟨b, digit, tail, rfl, hdigit, h⟩

theorem hex4_sound {n : Nat} {rest left : List UInt8} (h : hex4 rest = .ok (n, left)) :
    ∃ w, rest = w ++ left ∧ Hex4 w n := by
  obtain ⟨a, i, rest, rfl, ha, h⟩ := hexDigits_cases h
  obtain ⟨b, j, rest, rfl, hb, h⟩ := hexDigits_cases h
  obtain ⟨c, k, rest, rfl, hc, h⟩ := hexDigits_cases h
  obtain ⟨d, l, rest, rfl, hd, h⟩ := hexDigits_cases h
  cases h
  rw [Nat.zero_mul, Nat.zero_add]
  exact ⟨[a, b, c, d], rfl, .mk ha hb hc hd⟩

theorem hex4_complete {w : List UInt8} {n : Nat} (h : Hex4 w n) (left : List UInt8) :
    hex4 (w ++ left) = .ok (n, left) := by
  obtain ⟨ha, hb, hc, hd⟩ := h
  simp only [hex4, hexDigits, nextByte, bind, Except.bind, List.cons_append, List.nil_append, ha, hb, hc, hd,
    Nat.zero_mul, Nat.zero_add]

theorem charFromU32_sound {n : Nat} {c : Char} (h : charFromU32 n = .ok c) : c.toNat = n := by
  rw [charFromU32] at h
  split at h
  · next hvalid =>
    cases h
    rfl
  · cases h

theorem charFromU32_complete (c : Char) : charFromU32 c.toNat = .ok c := by
  have hvalid : c.toNat.isValidChar := c.valid
  rw [charFromU32, dif_pos hvalid]
  exact congrArg Except.ok (Char.toNat_inj.mp rfl)

theorem nextByte_ok {b : UInt8} {rest left : List UInt8} (h : nextByte rest = .ok (b, left)) : rest = b :: left := by
  rcases rest with _ | ⟨b', rest⟩
  · cases h
  · cases h
    rfl

theorem escape_sound {c : Char} {rest left : List UInt8} (h : escape rest = .ok (c, left)) :
    ∃ e, rest = e ++ left ∧ Escape e c := by
  obtain ⟨⟨b, rest'⟩, hb, hrest⟩ := Checks.bind_ok h
  rw [nextByte_ok hb]
  dsimp only at hrest
  split_ifs at hrest with hunicode
  · subst hunicode
    obtain ⟨⟨unit, tail⟩, hunit, htail⟩ := Checks.bind_ok hrest
    obtain ⟨w, hsplit, hw⟩ := hex4_sound hunit
    dsimp only at htail
    split_ifs at htail with hhigh hlow
    · obtain ⟨⟨backslash, tail₁⟩, hbackslash, htail₁⟩ := Checks.bind_ok htail
      obtain ⟨⟨letter, tail₂⟩, hletter, htail₂⟩ := Checks.bind_ok htail₁
      dsimp only at htail₂
      split_ifs at htail₂ with hpair
      obtain ⟨⟨low, tail₃⟩, hlow, htail₃⟩ := Checks.bind_ok htail₂
      obtain ⟨w', hsplit', hw'⟩ := hex4_sound hlow
      dsimp only at htail₃
      split_ifs at htail₃ with hrange
      obtain ⟨c', hc, hend⟩ := Checks.bind_ok htail₃
      cases hend
      refine ⟨0x75 :: (w ++ 0x5C :: 0x75 :: w'), ?_, .pair hw hw' hhigh.1 (by omega) hrange.1 (by omega)
        (charFromU32_sound hc)⟩
      have htail : tail = backslash :: tail₁ := nextByte_ok hbackslash
      have htail₁ : tail₁ = letter :: tail₂ := nextByte_ok hletter
      rw [hsplit, htail, htail₁, hsplit', hpair.1, hpair.2]
      simp only [List.cons_append, List.append_assoc]
    · obtain ⟨c', hc, hend⟩ := Checks.bind_ok htail
      cases hend
      exact ⟨0x75 :: w, by rw [hsplit, List.cons_append], .unit (charFromU32_sound hc ▸ hw)⟩
  · rcases hshort : shortEscape? b with _ | c' <;> rw [hshort] at hrest
    · cases hrest
    · cases hrest
      exact ⟨[b], rfl, .short hshort⟩

theorem escape_complete {e : List UInt8} {c : Char} (h : Escape e c) (left : List UInt8) :
    escape (e ++ left) = .ok (c, left) := by
  cases h with
  | @short b _ h =>
    have hne : b ≠ 0x75 := by
      rintro rfl
      cases h
    rw [escape, List.cons_append, nextByte, Checks.ok_bind]
    dsimp only
    rw [if_neg hne, h]
    rfl
  | @unit w _ hw =>
    have hvalid : c.toNat < 0xD800 ∨ 0xDFFF < c.toNat ∧ c.toNat < 0x110000 := c.valid
    rw [escape, List.cons_append, nextByte, Checks.ok_bind]
    dsimp only
    rw [if_pos rfl, hex4_complete hw, Checks.ok_bind]
    dsimp only
    rw [if_neg (by omega), if_neg (by omega), charFromU32_complete]
    rfl
  | @pair w w' hi lo _ hw hw' hhi hhi' hlo hlo' hc =>
    rw [escape, List.cons_append, nextByte, Checks.ok_bind]
    dsimp only
    rw [if_pos rfl, List.append_assoc, hex4_complete hw, Checks.ok_bind]
    dsimp only
    rw [if_pos (by omega), List.cons_append, List.cons_append, nextByte, Checks.ok_bind, nextByte, Checks.ok_bind]
    dsimp only
    rw [if_pos ⟨rfl, rfl⟩, hex4_complete hw', Checks.ok_bind]
    dsimp only
    rw [if_pos (by omega), show 2 ^ 10 = 0x400 from rfl, ← hc, charFromU32_complete]
    rfl

theorem escape_length {c : Char} {rest left : List UInt8} (h : escape rest = .ok (c, left)) :
    left.length ≤ rest.length := by
  obtain ⟨e, rfl, -⟩ := escape_sound h
  rw [List.length_append]
  exact Nat.le_add_left ..

/-- The loop of `string`: what it decodes, and what is left behind the closing quote. -/
def stringLoop (decoded : Option (List UInt8)) (rest : List UInt8) :
    Except ContentFault (Option (List UInt8) × List UInt8) :=
  match rest with
  | [] => .error syntaxFault
  | b :: rest =>
    if b = 0x22 then .ok (decoded, rest)
    else if b = 0x5C then
      match _h : escape rest with
      | .error fault => .error fault
      | .ok (ch, left) => stringLoop (decoded.map (· ++ String.utf8EncodeChar ch)) left
    else if b ≤ 0x1F then .error syntaxFault
    else stringLoop (decoded.map (· ++ [b])) rest
termination_by rest.length
decreasing_by
  · exact Nat.lt_succ_of_le (escape_length ‹_›)
  · exact Nat.lt_succ_self _

/-- `from_utf8`. -/
def fromUtf8 (bytes : List UInt8) : Except ContentFault String :=
  match String.fromUTF8? bytes.toByteArray with
  | some s => .ok s
  | none => .error syntaxFault

/-- Reads a string from its opening quote on. -/
def string (decode : Bool) (rest : List UInt8) : Except ContentFault (Option String × List UInt8) := do
  let start := rest.tail
  let (decoded, left) ← stringLoop (if decode then some [] else none) start
  let raw := start.take (start.length - left.length - 1)
  -- Escapes are ASCII, so the raw string is UTF-8 exactly when every byte outside them is.
  let _ ← fromUtf8 raw
  match decoded with
  | none => return (none, left)
  | some decoded => return (some (← fromUtf8 decoded), left)

def literal (word rest : List UInt8) : Except ContentFault (List UInt8) :=
  if word.isPrefixOf rest then .ok (rest.drop word.length) else .error syntaxFault

def digits (rest : List UInt8) : List UInt8 :=
  rest.dropWhile isDigit

def requiredDigits (rest : List UInt8) : Except ContentFault (List UInt8) :=
  if rest.head?.any isDigit then .ok (digits rest) else .error syntaxFault

def wholePart (rest : List UInt8) : Except ContentFault (List UInt8) :=
  match rest with
  | [] => .error syntaxFault
  | b :: rest =>
    if b = 0x30 then .ok rest
    else if 0x31 ≤ b ∧ b ≤ 0x39 then .ok (digits rest)
    else .error syntaxFault

def fraction (rest : List UInt8) : Except ContentFault (List UInt8) :=
  if rest.head? = some 0x2E then requiredDigits rest.tail else .ok rest

def exponent (rest : List UInt8) : Except ContentFault (List UInt8) :=
  if rest.head? = some 0x65 ∨ rest.head? = some 0x45 then
    if rest.tail.head? = some 0x2B ∨ rest.tail.head? = some 0x2D then requiredDigits rest.tail.tail
    else requiredDigits rest.tail
  else .ok rest

/-- Reads `-?(0|[1-9][0-9]*)(\.[0-9]+)?([eE][+-]?[0-9]+)?`. -/
def number (rest : List UInt8) : Except ContentFault (List UInt8) := do
  let rest ← wholePart (if rest.head? = some 0x2D then rest.tail else rest)
  let rest ← fraction rest
  exponent rest

/-! ## What the tokens read -/

/-- What stands in a string as the loop takes it: bytes as they are, and escapes. -/
inductive Items : List UInt8 → List UInt8 → Prop
  | nil : Items [] []
  | plain {b : UInt8} {raw decoded : List UInt8} (hquote : b ≠ 0x22) (hback : b ≠ 0x5C) (hlow : ¬b ≤ 0x1F)
      (h : Items raw decoded) : Items (b :: raw) (b :: decoded)
  | escape {c : Char} {e raw decoded : List UInt8} (he : Escape e c) (h : Items raw decoded) :
      Items (0x5C :: (e ++ raw)) (String.utf8EncodeChar c ++ decoded)

theorem stringLoop_sound {decoded out : Option (List UInt8)} {rest left : List UInt8}
    (h : stringLoop decoded rest = .ok (out, left)) :
    ∃ raw more, rest = raw ++ 0x22 :: left ∧ Items raw more ∧ out = decoded.map (· ++ more) := by
  fun_induction stringLoop decoded rest with
  | case1 => cases h
  | case2 =>
    cases h
    exact ⟨[], [], rfl, .nil, by simp only [List.append_nil, Option.map_id']⟩
  | case3 => cases h
  | case4 decoded rest ch tail hescape _ ih =>
    obtain ⟨raw, more, rfl, hitems, rfl⟩ := ih h
    obtain ⟨e, rfl, he⟩ := escape_sound hescape
    refine ⟨0x5C :: (e ++ raw), String.utf8EncodeChar ch ++ more, ?_, .escape he hitems, ?_⟩
    · rw [List.cons_append, List.append_assoc]
    · simp only [Option.map_map, Function.comp_def, List.append_assoc]
  | case5 => cases h
  | case6 decoded b rest hquote hback hlow ih =>
    obtain ⟨raw, more, rfl, hitems, rfl⟩ := ih h
    refine ⟨b :: raw, b :: more, rfl, .plain hquote hback hlow hitems, ?_⟩
    simp only [Option.map_map, Function.comp_def, List.append_assoc, List.singleton_append]

theorem stringLoop_complete {raw more : List UInt8} (h : Items raw more) (decoded : Option (List UInt8))
    (left : List UInt8) : stringLoop decoded (raw ++ 0x22 :: left) = .ok (decoded.map (· ++ more), left) := by
  induction h generalizing decoded with
  | nil =>
    rw [List.nil_append, stringLoop, if_pos rfl]
    simp only [List.append_nil, Option.map_id']
  | plain hquote hback hlow _ ih =>
    rw [List.cons_append, stringLoop, if_neg hquote, if_neg hback, if_neg hlow, ih]
    simp only [Option.map_map, Function.comp_def, List.append_assoc, List.singleton_append]
  | @escape c e raw decoded' he _ ih =>
    rw [List.cons_append, List.append_assoc, stringLoop, if_neg (by decide), if_pos rfl]
    split
    · next fault hescape =>
      rw [escape_complete he] at hescape
      cases hescape
    · next ch tail hescape =>
      rw [escape_complete he] at hescape
      cases hescape
      rw [ih]
      simp only [Option.map_map, Function.comp_def, List.append_assoc]

theorem Items.cons_cases {b : UInt8} {w decoded : List UInt8} (h : Items (b :: w) decoded) :
    (b ≠ 0x22 ∧ b ≠ 0x5C ∧ ¬b ≤ 0x1F ∧ ∃ rest, decoded = b :: rest ∧ Items w rest) ∨
    (b = 0x5C ∧ ∃ c e raw rest, w = e ++ raw ∧ Escape e c ∧ Items raw rest ∧
      decoded = String.utf8EncodeChar c ++ rest) := by
  cases h with
  | plain hquote hback hlow h => exact .inl ⟨hquote, hback, hlow, _, rfl, h⟩
  | escape he h => exact .inr ⟨rfl, _, _, _, _, rfl, he, h, rfl⟩

theorem Items.high {u w decoded : List UInt8} (hu : ∀ b ∈ u, 0x80 ≤ b) (h : Items (u ++ w) decoded) :
    ∃ rest, decoded = u ++ rest ∧ Items w rest := by
  induction u generalizing decoded with
  | nil => exact ⟨decoded, rfl, h⟩
  | cons b u ih =>
    obtain ⟨-, -, -, rest, rfl, htail⟩ | ⟨rfl, -⟩ := Items.cons_cases h
    · obtain ⟨rest', rfl, hrest⟩ := ih (fun b hb => hu b (List.mem_cons_of_mem _ hb)) htail
      exact ⟨rest', rfl, hrest⟩
    · exact absurd (hu _ List.mem_cons_self) (by decide)

theorem unescaped_iff {c : Char} : unescaped c ↔ 0x20 ≤ c.toNat ∧ c.toNat ≠ 0x22 ∧ c.toNat ≠ 0x5C := by
  have hquote : c = '"' ↔ c.toNat = 0x22 := Char.toNat_inj.symm
  have hback : c = '\\' ↔ c.toNat = 0x5C := Char.toNat_inj.symm
  simp only [unescaped, Bool.and_eq_true, decide_eq_true_eq, ne_eq, hquote, hback, and_assoc]

/-- In a string that is UTF-8 the bytes that stand for themselves are characters that do. -/
theorem Items.content (n : Nat) {m : List Char} {decoded : List UInt8} (hn : m.length ≤ n)
    (h : Items (Utf8.encode m) decoded) : ∃ cs, Content (Utf8.encode m) cs ∧ decoded = Utf8.encode cs := by
  induction n generalizing m decoded with
  | zero =>
    obtain rfl := List.length_eq_zero_iff.mp (Nat.le_zero.mp hn)
    cases h
    exact ⟨[], .nil, rfl⟩
  | succ n ih =>
    rcases m with _ | ⟨c, m⟩
    · cases h
      exact ⟨[], .nil, rfl⟩
    rw [List.length_cons, Nat.succ_le_succ_iff] at hn
    rcases Nat.lt_or_ge c.toNat 0x80 with hlt | hge
    · have hchar := Utf8.encodeChar_ascii hlt
      rw [Utf8.encode_cons, hchar, List.singleton_append] at h
      rw [Utf8.encode_cons]
      obtain ⟨hquote, hback, hlow, rest, rfl, hrest⟩ | ⟨hback, c', e, raw, rest, hraw, he, hrest, rfl⟩ :=
        Items.cons_cases h
      · obtain ⟨cs, hcs, rfl⟩ := ih hn hrest
        refine ⟨c :: cs, .plain (unescaped_iff.mpr ⟨?_, fun h => hquote ?_, fun h => hback ?_⟩) hcs, ?_⟩
        · by_contra hlt'
          refine hlow ?_
          rw [UInt8.le_iff_toNat_le, UInt8.toNat_ofNat_of_lt' (Nat.lt_trans hlt (by decide))]
          exact Nat.le_of_lt_succ (Nat.not_le.mp hlt')
        · rw [h]
          rfl
        · rw [h]
          rfl
        · rw [Utf8.encode_cons, hchar, List.singleton_append]
      · obtain ⟨m', rfl, hm'⟩ := Utf8.encode_eq_append he.ascii hraw
        obtain ⟨cs, hcs, rfl⟩ := ih (Nat.le_trans hm' hn) hrest
        rw [hchar, hback, hraw, List.singleton_append]
        exact ⟨c' :: cs, .escape he hcs, rfl⟩
    · rw [Utf8.encode_cons] at h ⊢
      obtain ⟨rest, rfl, hrest⟩ := Items.high (Utf8.le_of_mem_encodeChar hge) h
      obtain ⟨cs, hcs, rfl⟩ := ih hn hrest
      exact ⟨c :: cs, .plain (unescaped_iff.mpr (by omega)) hcs, rfl⟩

theorem Items.append_high {u w rest : List UInt8} (hu : ∀ b ∈ u, 0x80 ≤ b) (h : Items w rest) :
    Items (u ++ w) (u ++ rest) := by
  induction u with
  | nil => exact h
  | cons b u ih =>
    have hb := hu b List.mem_cons_self
    refine .plain ?_ ?_ ?_ (ih fun b hb => hu b (List.mem_cons_of_mem _ hb))
    · rintro rfl
      exact absurd hb (by decide)
    · rintro rfl
      exact absurd hb (by decide)
    · exact fun hlow => absurd (UInt8.le_trans hb hlow) (by decide)

theorem Content.items {w : List UInt8} {cs : List Char} (h : Content w cs) :
    Items w (Utf8.encode cs) ∧ ∃ m, w = Utf8.encode m := by
  induction h with
  | nil => exact ⟨.nil, [], rfl⟩
  | @plain c w cs hc _ ih =>
    obtain ⟨hitems, m, rfl⟩ := ih
    refine ⟨?_, c :: m, rfl⟩
    rcases Nat.lt_or_ge c.toNat 0x80 with hlt | hge
    · obtain ⟨hlow, hquote, hback⟩ := unescaped_iff.mp hc
      have hbyte : (UInt8.ofNat c.toNat).toNat = c.toNat := UInt8.toNat_ofNat_of_lt' (Nat.lt_trans hlt (by decide))
      rw [Utf8.encode_cons, Utf8.encodeChar_ascii hlt]
      refine .plain (fun h => hquote ?_) (fun h => hback ?_) (fun h => ?_) hitems
      · rw [← hbyte, h]
        rfl
      · rw [← hbyte, h]
        rfl
      · rw [UInt8.le_iff_toNat_le, hbyte] at h
        exact absurd (Nat.le_trans hlow h) (by decide)
    · exact Items.append_high (Utf8.le_of_mem_encodeChar hge) hitems
  | @escape c e w cs he _ ih =>
    obtain ⟨hitems, m, rfl⟩ := ih
    obtain ⟨m', hm'⟩ := Utf8.exists_encode_of_ascii (List.forall_mem_cons.mpr ⟨(by decide : (0x5C : UInt8) < 0x80), he.ascii⟩)
    exact ⟨.escape he hitems, m' ++ m, by rw [Utf8.encode_append, hm', List.cons_append]⟩

theorem fromUtf8_encode (m : List Char) : fromUtf8 (Utf8.encode m) = .ok (String.ofList m) := by
  rw [fromUtf8, Utf8.fromUTF8?_encode]

theorem fromUtf8_sound {bytes : List UInt8} {s : String} (h : fromUtf8 bytes = .ok s) :
    ∃ m, bytes = Utf8.encode m ∧ s = String.ofList m := by
  rw [fromUtf8] at h
  split at h
  · next s' hs =>
    cases h
    exact Utf8.exists_of_fromUTF8? hs
  · cases h

/-- The slice between the quotes. -/
theorem take_raw {raw left : List UInt8} {b : UInt8} :
    (raw ++ b :: left).take ((raw ++ b :: left).length - left.length - 1) = raw := by
  have hlen : (raw ++ b :: left).length - left.length - 1 = raw.length := by
    rw [List.length_append, List.length_cons]
    omega
  rw [hlen, List.take_left]

theorem string_sound {decode : Bool} {out : Option String} {rest left : List UInt8}
    (h : string decode rest = .ok (out, left)) :
    ∃ raw cs, rest.tail = raw ++ 0x22 :: left ∧ Content raw cs ∧
      out = if decode then some (String.ofList cs) else none := by
  obtain ⟨⟨decoded, left'⟩, hloop, hchecks⟩ := Checks.bind_ok h
  obtain ⟨raw, more, hstart, hitems, hdecoded⟩ := stringLoop_sound hloop
  obtain ⟨s, hraw, hend⟩ := Checks.bind_ok hchecks
  rw [hstart, take_raw] at hraw
  obtain ⟨m, rfl, -⟩ := fromUtf8_sound hraw
  obtain ⟨cs, hcs, rfl⟩ := Items.content m.length (Nat.le_refl _) hitems
  rcases decode with _ | _
  · rw [if_neg Bool.false_ne_true] at hdecoded
    subst hdecoded
    cases hend
    exact ⟨_, cs, hstart, hcs, rfl⟩
  · rw [if_pos rfl, Option.map_some, List.nil_append] at hdecoded
    subst hdecoded
    obtain ⟨key, hkey, hout⟩ := Checks.bind_ok hend
    rw [fromUtf8_encode] at hkey
    cases hkey
    cases hout
    exact ⟨_, cs, hstart, hcs, rfl⟩

theorem string_complete {raw : List UInt8} {cs : List Char} (h : Content raw cs) (decode : Bool) (left : List UInt8) :
    string decode (0x22 :: (raw ++ 0x22 :: left)) = .ok (if decode then some (String.ofList cs) else none, left) := by
  obtain ⟨hitems, m, rfl⟩ := Content.items h
  rw [string, List.tail_cons, stringLoop_complete hitems, Checks.ok_bind]
  dsimp only
  rw [take_raw, fromUtf8_encode, Checks.ok_bind]
  rcases decode with _ | _
  · rfl
  · rw [if_pos rfl, Option.map_some, List.nil_append]
    dsimp only
    rw [fromUtf8_encode]
    rfl

/-! ### Literals and numbers -/

theorem literal_sound {word rest left : List UInt8} (h : literal word rest = .ok left) : rest = word ++ left := by
  rw [literal] at h
  split_ifs at h with hword
  cases h
  obtain ⟨tail, rfl⟩ := List.isPrefixOf_iff_prefix.mp hword
  rw [List.drop_left]

theorem literal_complete (word left : List UInt8) : literal word (word ++ left) = .ok left := by
  rw [literal, if_pos (List.isPrefixOf_iff_prefix.mpr (List.prefix_append ..)), List.drop_left]

theorem digits_sound (rest : List UInt8) : ∃ w, rest = w ++ digits rest ∧ AllDigits w :=
  ⟨rest.takeWhile isDigit, List.takeWhile_append_dropWhile.symm,
    fun b hb => List.all_eq_true.mp (List.all_takeWhile (l := rest)) b hb⟩

theorem digits_complete {w left : List UInt8} (hw : AllDigits w) (hleft : ∀ b ∈ left.head?, ¬isDigit b) :
    digits (w ++ left) = left := by
  induction w with
  | nil =>
    rcases left with _ | ⟨b, left⟩
    · rfl
    · rw [List.nil_append, digits, List.dropWhile_cons, if_neg (hleft b rfl)]
  | cons b w ih =>
    rw [List.cons_append, digits, List.dropWhile_cons, if_pos (hw b List.mem_cons_self)]
    exact ih fun b hb => hw b (List.mem_cons_of_mem _ hb)

theorem requiredDigits_sound {rest left : List UInt8} (h : requiredDigits rest = .ok left) :
    ∃ w, rest = w ++ left ∧ w ≠ [] ∧ AllDigits w := by
  rw [requiredDigits] at h
  split_ifs at h with hdigit
  cases h
  obtain ⟨w, hsplit, hw⟩ := digits_sound rest
  refine ⟨w, hsplit, ?_, hw⟩
  rintro rfl
  rcases rest with _ | ⟨b, rest⟩
  · cases hdigit
  · rw [List.head?_cons, Option.any_some] at hdigit
    rw [List.nil_append, digits, List.dropWhile_cons, if_pos hdigit] at hsplit
    have hle := (List.dropWhile_sublist (l := rest) isDigit).length_le
    rw [← hsplit, List.length_cons] at hle
    omega

theorem requiredDigits_complete {w left : List UInt8} (hne : w ≠ []) (hw : AllDigits w)
    (hleft : ∀ b ∈ left.head?, ¬isDigit b) : requiredDigits (w ++ left) = .ok left := by
  rcases w with _ | ⟨b, w⟩
  · exact absurd rfl hne
  · have hdigit : (b :: w ++ left).head?.any isDigit := hw b List.mem_cons_self
    rw [requiredDigits, if_pos hdigit, digits_complete hw hleft]

theorem wholePart_sound {rest left : List UInt8} (h : wholePart rest = .ok left) : ∃ i, rest = i ++ left ∧ Whole i := by
  rcases rest with _ | ⟨b, rest⟩
  · cases h
  rw [wholePart] at h
  split_ifs at h with hzero hdigit
  · cases h
    exact ⟨[0x30], by rw [hzero, List.singleton_append], .zero⟩
  · cases h
    obtain ⟨w, hw, hdigits⟩ := digits_sound rest
    refine ⟨b :: w, by rw [List.cons_append, ← hw], .digits ?_ hzero hdigits⟩
    rw [isDigit, Bool.and_eq_true, decide_eq_true_eq, decide_eq_true_eq]
    exact ⟨UInt8.le_trans (by decide) hdigit.1, hdigit.2⟩

theorem fraction_sound {rest left : List UInt8} (h : fraction rest = .ok left) : ∃ f, rest = f ++ left ∧ Frac f := by
  rw [fraction] at h
  split_ifs at h with hdot
  · obtain ⟨tail, rfl⟩ := List.head?_eq_some_iff.mp hdot
    obtain ⟨w, hsplit, hne, hw⟩ := requiredDigits_sound h
    rw [List.tail_cons] at hsplit
    exact ⟨0x2E :: w, by rw [hsplit, List.cons_append], .digits hne hw⟩
  · cases h
    exact ⟨[], rfl, .absent⟩

theorem exponent_sound {rest left : List UInt8} (h : exponent rest = .ok left) :
    ∃ e, rest = e ++ left ∧ Exponent e := by
  rw [exponent] at h
  by_cases hexp : rest.head? = some 0x65 ∨ rest.head? = some 0x45
  · rw [if_pos hexp] at h
    obtain ⟨b, tail, rfl, hb⟩ : ∃ b tail, rest = b :: tail ∧ (b = 0x65 ∨ b = 0x45) := by
      rcases hexp with hexp | hexp <;> obtain ⟨tail, rfl⟩ := List.head?_eq_some_iff.mp hexp
      · exact ⟨0x65, tail, rfl, .inl rfl⟩
      · exact ⟨0x45, tail, rfl, .inr rfl⟩
    rw [List.tail_cons] at h
    by_cases hsign : tail.head? = some 0x2B ∨ tail.head? = some 0x2D
    · rw [if_pos hsign] at h
      obtain ⟨w, hsplit, hne, hw⟩ := requiredDigits_sound h
      rcases hsign with hsign | hsign <;> obtain ⟨tail, rfl⟩ := List.head?_eq_some_iff.mp hsign <;>
        rw [List.tail_cons] at hsplit <;> subst hsplit
      · exact ⟨b :: ([0x2B] ++ w), rfl, .digits hb (.tail _ (.head _)) hne hw⟩
      · exact ⟨b :: ([0x2D] ++ w), rfl, .digits hb (.tail _ (.tail _ (.head _))) hne hw⟩
    · rw [if_neg hsign] at h
      obtain ⟨w, rfl, hne, hw⟩ := requiredDigits_sound h
      exact ⟨b :: ([] ++ w), rfl, .digits hb (.head _) hne hw⟩
  · rw [if_neg hexp] at h
    cases h
    exact ⟨[], rfl, .absent⟩

theorem number_sound {rest left : List UInt8} (h : number rest = .ok left) : ∃ w, rest = w ++ left ∧ Number w := by
  have hsign : ∃ s, rest = s ++ (if rest.head? = some 0x2D then rest.tail else rest) ∧ Sign s := by
    split_ifs with hminus
    · obtain ⟨tail, rfl⟩ := List.head?_eq_some_iff.mp hminus
      exact ⟨[0x2D], rfl, .minus⟩
    · exact ⟨[], rfl, .absent⟩
  obtain ⟨s, hs, hsign⟩ := hsign
  obtain ⟨rest₁, hwhole, h₁⟩ := Checks.bind_ok h
  obtain ⟨rest₂, hfrac, hexp⟩ := Checks.bind_ok h₁
  obtain ⟨i, hi, hi'⟩ := wholePart_sound hwhole
  obtain ⟨f, rfl, hf⟩ := fraction_sound hfrac
  obtain ⟨e, rfl, he⟩ := exponent_sound hexp
  refine ⟨s ++ i ++ f ++ e, ?_, .mk hsign hi' hf he⟩
  rw [hs, hi]
  simp only [List.append_assoc]

/-- What stands here begins with no digit, no point and no exponent. -/
def Calm (rest : List UInt8) : Prop :=
  ∀ b ∈ rest.head?, ¬isDigit b ∧ b ≠ 0x2E ∧ b ≠ 0x65 ∧ b ≠ 0x45

theorem calm_of_quiet {rest : List UInt8} (h : Quiet rest) : Calm rest := by
  intro b hb
  rcases h b hb with hws | rfl | rfl | rfl
  · simp only [isWs, Bool.or_eq_true, decide_eq_true_eq] at hws
    rcases hws with ((rfl | rfl) | rfl) | rfl <;> decide
  all_goals decide

theorem not_digit_of_exponent {e left : List UInt8} (he : Exponent e) (hleft : Calm left) :
    ∀ b ∈ (e ++ left).head?, ¬isDigit b ∧ b ≠ 0x2E := by
  cases he with
  | absent => exact fun b hb => ⟨(hleft b hb).1, (hleft b hb).2.1⟩
  | digits he =>
    intro b hb
    rw [List.cons_append, List.head?_cons, Option.mem_some_iff] at hb
    rcases he with rfl | rfl <;> subst hb <;> decide

theorem not_digit_of_frac {f e left : List UInt8} (hf : Frac f) (he : Exponent e) (hleft : Calm left) :
    ∀ b ∈ (f ++ (e ++ left)).head?, ¬isDigit b := by
  cases hf with
  | absent => exact fun b hb => (not_digit_of_exponent he hleft b hb).1
  | digits =>
    intro b hb
    rw [List.cons_append, List.head?_cons, Option.mem_some_iff] at hb
    subst hb
    decide

theorem wholePart_complete {i left : List UInt8} (h : Whole i) (hleft : ∀ b ∈ left.head?, ¬isDigit b) :
    wholePart (i ++ left) = .ok left := by
  cases h with
  | zero => rfl
  | @digits d w hd hne hw =>
    rw [isDigit, Bool.and_eq_true, decide_eq_true_eq, decide_eq_true_eq] at hd
    have hlow : 0x31 ≤ d := by
      rw [UInt8.le_iff_toNat_le]
      have hle := UInt8.le_iff_toNat_le.mp hd.1
      have hne' : d.toNat ≠ 0x30 := fun h => hne (UInt8.toNat_inj.mp h)
      exact Nat.lt_of_le_of_ne hle (Ne.symm hne')
    rw [List.cons_append, wholePart, if_neg hne, if_pos ⟨hlow, hd.2⟩, digits_complete hw hleft]

theorem fraction_complete {f left : List UInt8} (h : Frac f) (hleft : ∀ b ∈ left.head?, ¬isDigit b ∧ b ≠ 0x2E) :
    fraction (f ++ left) = .ok left := by
  cases h with
  | absent =>
    rw [List.nil_append, fraction, if_neg]
    exact fun h => (hleft _ h).2 rfl
  | @digits w hne hw =>
    have hdot : (0x2E :: w ++ left).head? = some 0x2E := rfl
    rw [fraction, if_pos hdot]
    exact requiredDigits_complete hne hw fun b hb => (hleft b hb).1

theorem exponent_complete {e left : List UInt8} (h : Exponent e) (hleft : Calm left) :
    exponent (e ++ left) = .ok left := by
  cases h with
  | absent =>
    rw [List.nil_append, exponent, if_neg]
    rintro (h | h)
    · exact (hleft _ h).2.2.1 rfl
    · exact (hleft _ h).2.2.2 rfl
  | @digits b s w he hs hne hw =>
    have hdigits := requiredDigits_complete hne hw fun b hb => (hleft b hb).1
    have hexp : (b :: (s ++ w) ++ left).head? = some 0x65 ∨ (b :: (s ++ w) ++ left).head? = some 0x45 := by
      rcases he with rfl | rfl
      · exact .inl rfl
      · exact .inr rfl
    rw [exponent, if_pos hexp, List.cons_append, List.tail_cons, List.append_assoc]
    simp only [List.mem_cons, List.not_mem_nil, or_false] at hs
    rcases hs with rfl | rfl | rfl
    · rw [List.nil_append, if_neg, hdigits]
      rcases w with _ | ⟨d, w⟩
      · exact absurd rfl hne
      · have hd := hw d List.mem_cons_self
        rintro (h | h) <;> rw [List.cons_append, List.head?_cons, Option.some.injEq] at h <;> subst h <;> cases hd
    · exact hdigits
    · exact hdigits

theorem number_complete {w left : List UInt8} (h : Number w) (hquiet : Quiet left) : number (w ++ left) = .ok left := by
  have hleft := calm_of_quiet hquiet
  obtain ⟨hs, hi, hf, he⟩ := h
  rename_i s i f e
  have hwhole := wholePart_complete hi (not_digit_of_frac hf he hleft)
  have hsign : (if (s ++ (i ++ (f ++ (e ++ left)))).head? = some 0x2D then (s ++ (i ++ (f ++ (e ++ left)))).tail
      else s ++ (i ++ (f ++ (e ++ left)))) = i ++ (f ++ (e ++ left)) := by
    cases hs with
    | minus => rfl
    | absent =>
      rw [List.nil_append, if_neg]
      cases hi with
      | zero => exact fun h => absurd (Option.some.inj h) (by decide)
      | digits hd =>
        rw [List.cons_append, List.head?_cons, Option.some.injEq]
        rintro rfl
        cases hd
  simp only [List.append_assoc]
  rw [number, hsign, hwhole, Checks.ok_bind, fraction_complete hf (not_digit_of_exponent he hleft), Checks.ok_bind,
    exponent_complete he hleft]

/-! ### Every fault is one of syntax -/

/-- Nothing but a syntax fault comes of it. -/
abbrev SyntaxOnly {α : Type} (x : Except ContentFault α) : Prop :=
  Checks.Refuses (· = syntaxFault) x

theorem nextByte_syntaxOnly (rest : List UInt8) : SyntaxOnly (nextByte rest) := by
  rcases rest with _ | ⟨b, rest⟩
  · exact .error rfl
  · exact .ok _

theorem hexDigits_syntaxOnly (k value : Nat) (rest : List UInt8) : SyntaxOnly (hexDigits value rest k) := by
  induction k generalizing value rest with
  | zero => exact .ok _
  | succ k ih =>
    refine (nextByte_syntaxOnly rest).bind fun ⟨b, rest⟩ => ?_
    dsimp only
    rcases hexDigit? b with _ | digit
    · exact .error rfl
    · exact ih _ _

theorem charFromU32_syntaxOnly (n : Nat) : SyntaxOnly (charFromU32 n) := by
  rw [charFromU32]
  split
  · exact .ok _
  · exact .error rfl

theorem escape_syntaxOnly (rest : List UInt8) : SyntaxOnly (escape rest) := by
  refine (nextByte_syntaxOnly rest).bind fun ⟨b, rest⟩ => .ite ?_ ?_
  · refine (hexDigits_syntaxOnly 4 0 rest).bind fun ⟨unit, rest⟩ => .ite ?_ (.ite (.error rfl) ?_)
    · refine (nextByte_syntaxOnly rest).bind fun ⟨_, rest⟩ => (nextByte_syntaxOnly rest).bind fun ⟨_, rest⟩ =>
        .ite ?_ (.error rfl)
      exact (hexDigits_syntaxOnly 4 0 rest).bind fun ⟨low, rest⟩ =>
        .ite ((charFromU32_syntaxOnly _).bind fun _ => .ok _) (.error rfl)
    · exact (charFromU32_syntaxOnly unit).bind fun _ => .ok _
  · rcases shortEscape? b with _ | ch
    · exact .error rfl
    · exact .ok _

theorem stringLoop_syntaxOnly (decoded : Option (List UInt8)) (rest : List UInt8) :
    SyntaxOnly (stringLoop decoded rest) := by
  fun_induction stringLoop decoded rest with
  | case1 => exact .error rfl
  | case2 => exact .ok _
  | case3 _ rest fault h => exact escape_syntaxOnly rest fault h ▸ .error rfl
  | case4 _ _ _ _ _ _ ih => exact ih
  | case5 => exact .error rfl
  | case6 _ _ _ _ _ _ ih => exact ih

theorem fromUtf8_syntaxOnly (bytes : List UInt8) : SyntaxOnly (fromUtf8 bytes) := by
  rw [fromUtf8]
  split
  · exact .ok _
  · exact .error rfl

theorem string_syntaxOnly (decode : Bool) (rest : List UInt8) : SyntaxOnly (string decode rest) := by
  refine (stringLoop_syntaxOnly _ _).bind fun ⟨decoded, left⟩ => (fromUtf8_syntaxOnly _).bind fun _ => ?_
  rcases decoded with _ | decoded
  · exact .ok _
  · exact (fromUtf8_syntaxOnly _).bind fun _ => .ok _

theorem literal_syntaxOnly (word rest : List UInt8) : SyntaxOnly (literal word rest) :=
  .ite (.ok _) (.error rfl)

theorem requiredDigits_syntaxOnly (rest : List UInt8) : SyntaxOnly (requiredDigits rest) :=
  .ite (.ok _) (.error rfl)

theorem number_syntaxOnly (rest : List UInt8) : SyntaxOnly (number rest) := by
  have hwhole : ∀ rest, SyntaxOnly (wholePart rest) := fun rest => by
    rcases rest with _ | ⟨b, rest⟩
    · exact .error rfl
    · exact .ite (.ok _) (.ite (.ok _) (.error rfl))
  exact (hwhole _).bind fun _ => (Checks.Refuses.ite (requiredDigits_syntaxOnly _) (.ok _)).bind fun _ =>
    .ite (.ite (requiredDigits_syntaxOnly _) (requiredDigits_syntaxOnly _)) (.ok _)

end JsonScan
end DeployCore
