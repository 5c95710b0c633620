import Mathlib

/-! # Standard base64 with canonical padding

`encode` writes three bytes as four letters, and the last one or two bytes as two or three letters and padding. `decode`
reads it back strictly: `decode_iff` says that a text is read exactly when it is what its bytes are written as. -/

namespace Base64

/-- The letter of a six-bit value. -/
def letter (n : Nat) : UInt8 :=
  if n < 26 then .ofNat (65 + n)
  else if n < 52 then .ofNat (71 + n)
  else if n < 62 then .ofNat (n - 4)
  else if n = 62 then 43
  else 47

/-- The value of a letter. -/
def sextet (c : UInt8) : Option Nat :=
  if 65 ≤ c.toNat ∧ c.toNat ≤ 90 then some (c.toNat - 65)
  else if 97 ≤ c.toNat ∧ c.toNat ≤ 122 then some (c.toNat - 71)
  else if 48 ≤ c.toNat ∧ c.toNat ≤ 57 then some (c.toNat + 4)
  else if c.toNat = 43 then some 62
  else if c.toNat = 47 then some 63
  else none

/-- The padding character. -/
def PAD : UInt8 := 61

def encode : List UInt8 → List UInt8
  | [] => []
  | [a] => [letter (a.toNat / 4), letter (a.toNat % 4 * 16), PAD, PAD]
  | [a, b] => [letter (a.toNat / 4), letter (a.toNat % 4 * 16 + b.toNat / 16), letter (b.toNat % 16 * 4), PAD]
  | a :: b :: c :: rest =>
    letter (a.toNat / 4) :: letter (a.toNat % 4 * 16 + b.toNat / 16) ::
      letter (b.toNat % 16 * 4 + c.toNat / 64) :: letter (c.toNat % 64) :: encode rest

/-- The bytes of the last four characters, if these are padded. -/
def decodePadded (w x : Nat) (third : UInt8) : Option (List UInt8) :=
  if third = PAD then if x % 16 = 0 then some [.ofNat (w * 4 + x / 16)] else none
  else do
    let y ← sextet third
    if y % 4 = 0 then some [.ofNat (w * 4 + x / 16), .ofNat (x % 16 * 16 + y / 4)] else none

def decode : List UInt8 → Option (List UInt8)
  | [] => some []
  | first :: second :: third :: fourth :: rest => do
    let w ← sextet first
    let x ← sextet second
    if fourth = PAD then if rest = [] then decodePadded w x third else none
    else do
      let y ← sextet third
      let z ← sextet fourth
      let bytes ← decode rest
      some (.ofNat (w * 4 + x / 16) :: .ofNat (x % 16 * 16 + y / 4) :: .ofNat (y % 4 * 64 + z) :: bytes)
  | _ => none

variable {c : UInt8} {n : Nat} {text bytes : List UInt8}

theorem toNat_ofNat_of_lt (h : n < 256) : (UInt8.ofNat n).toNat = n :=
  UInt8.toNat_ofNat_of_lt' h

theorem toNat_letter (h : n < 64) : (letter n).toNat =
    if n < 26 then 65 + n else if n < 52 then 71 + n else if n < 62 then n - 4 else if n = 62 then 43 else 47 := by
  unfold letter
  split
  · exact toNat_ofNat_of_lt (by omega)
  · split
    · exact toNat_ofNat_of_lt (by omega)
    · split
      · exact toNat_ofNat_of_lt (by omega)
      · split <;> rfl

theorem sextet_letter (h : n < 64) : sextet (letter n) = some n := by
  have hletter := toNat_letter h
  rw [sextet]
  split_ifs at hletter ⊢ <;> first | omega | (rw [Option.some_inj]; omega)

theorem letter_of_sextet (h : sextet c = some n) : n < 64 ∧ letter n = c := by
  have hn : n < 64 := by
    rw [sextet] at h
    split_ifs at h <;> (rw [Option.some_inj] at h; omega)
  refine ⟨hn, UInt8.toNat_inj.mp ?_⟩
  rw [toNat_letter hn]
  rw [sextet] at h
  split_ifs at h ⊢ <;> (rw [Option.some_inj] at h; omega)

theorem sextet_iff : sextet c = some n ↔ n < 64 ∧ letter n = c := by
  constructor
  · exact letter_of_sextet
  · rintro ⟨hn, rfl⟩
    exact sextet_letter hn

theorem letter_ne_pad (h : n < 64) : letter n ≠ PAD := by
  intro heq
  have hletter := toNat_letter h
  rw [heq, show PAD.toNat = 61 from rfl] at hletter
  split_ifs at hletter <;> omega

/-- What is written is read back. -/
theorem decode_encode (bytes : List UInt8) : decode (encode bytes) = some bytes := by
  induction bytes using encode.induct with
  | case1 => rfl
  | case2 a =>
    have ha := a.toNat_lt
    simp only [encode, decode, decodePadded, sextet_letter (show a.toNat / 4 < 64 by omega),
      sextet_letter (show a.toNat % 4 * 16 < 64 by omega), Option.bind_eq_bind, Option.bind_some, if_true]
    rw [if_pos (by omega), Option.some_inj, List.cons.injEq, ← UInt8.toNat_inj, toNat_ofNat_of_lt (by omega)]
    exact ⟨by omega, rfl⟩
  | case3 a b =>
    have ha := a.toNat_lt
    have hb := b.toNat_lt
    simp only [encode, decode, decodePadded, sextet_letter (show a.toNat / 4 < 64 by omega),
      sextet_letter (show a.toNat % 4 * 16 + b.toNat / 16 < 64 by omega),
      sextet_letter (show b.toNat % 16 * 4 < 64 by omega), Option.bind_eq_bind, Option.bind_some, if_true,
      if_neg (letter_ne_pad (show b.toNat % 16 * 4 < 64 by omega))]
    rw [if_pos (by omega), Option.some_inj, List.cons.injEq, List.cons.injEq, ← UInt8.toNat_inj, ← UInt8.toNat_inj,
      toNat_ofNat_of_lt (by omega), toNat_ofNat_of_lt (by omega)]
    exact ⟨by omega, by omega, rfl⟩
  | case4 a b c rest ih =>
    have ha := a.toNat_lt
    have hb := b.toNat_lt
    have hc := c.toNat_lt
    simp only [encode, decode, sextet_letter (show a.toNat / 4 < 64 by omega),
      sextet_letter (show a.toNat % 4 * 16 + b.toNat / 16 < 64 by omega),
      sextet_letter (show b.toNat % 16 * 4 + c.toNat / 64 < 64 by omega), sextet_letter (show c.toNat % 64 < 64 by omega),
      Option.bind_eq_bind, Option.bind_some, if_neg (letter_ne_pad (show c.toNat % 64 < 64 by omega)), ih]
    rw [Option.some_inj, List.cons.injEq, List.cons.injEq, List.cons.injEq, ← UInt8.toNat_inj, ← UInt8.toNat_inj,
      ← UInt8.toNat_inj, toNat_ofNat_of_lt (by omega), toNat_ofNat_of_lt (by omega), toNat_ofNat_of_lt (by omega)]
    exact ⟨by omega, by omega, by omega, rfl⟩

theorem encode_of_decodePadded {w x : Nat} {third : UInt8} (hw : w < 64) (hx : x < 64)
    (h : decodePadded w x third = some bytes) : [letter w, letter x, third, PAD] = encode bytes := by
  unfold decodePadded at h
  split at h
  next hpad =>
    obtain ⟨hzero, hbytes⟩ := Option.ite_none_right_eq_some.mp h
    obtain rfl := Option.some.inj hbytes
    have hbyte := toNat_ofNat_of_lt (show w * 4 + x / 16 < 256 by omega)
    rw [encode, hbyte, hpad, show (w * 4 + x / 16) / 4 = w by omega, show (w * 4 + x / 16) % 4 * 16 = x by omega]
  next =>
    obtain ⟨y, hy, hrest⟩ := Option.bind_eq_some_iff.mp h
    obtain ⟨hzero, hbytes⟩ := Option.ite_none_right_eq_some.mp hrest
    obtain ⟨hlt, rfl⟩ := sextet_iff.mp hy
    obtain rfl := Option.some.inj hbytes
    have hfirst := toNat_ofNat_of_lt (show w * 4 + x / 16 < 256 by omega)
    have hsecond := toNat_ofNat_of_lt (show x % 16 * 16 + y / 4 < 256 by omega)
    rw [encode, hfirst, hsecond, show (w * 4 + x / 16) / 4 = w by omega,
      show (w * 4 + x / 16) % 4 * 16 + (x % 16 * 16 + y / 4) / 16 = x by omega,
      show (x % 16 * 16 + y / 4) % 16 * 4 = y by omega]

/-- What is read is what its bytes are written as. -/
theorem encode_of_decode (h : decode text = some bytes) : text = encode bytes := by
  induction text using decode.induct generalizing bytes with
  | case1 =>
    obtain rfl := Option.some.inj h
    rfl
  | case2 first second third fourth rest ih =>
    simp only [decode, Option.bind_eq_bind, Option.bind_eq_some_iff] at h
    obtain ⟨w, hw, x, hx, h⟩ := h
    obtain ⟨hwlt, rfl⟩ := sextet_iff.mp hw
    obtain ⟨hxlt, rfl⟩ := sextet_iff.mp hx
    split at h
    next hpad =>
      obtain ⟨rfl, h⟩ := Option.ite_none_right_eq_some.mp h
      rw [hpad]
      exact encode_of_decodePadded hwlt hxlt h
    next =>
      obtain ⟨y, hy, z, hz, tail, htail, hbytes⟩ := by simpa only [Option.bind_eq_some_iff] using h
      obtain ⟨hylt, rfl⟩ := sextet_iff.mp hy
      obtain ⟨hzlt, rfl⟩ := sextet_iff.mp hz
      obtain rfl := Option.some.inj hbytes
      have hfirst := toNat_ofNat_of_lt (show w * 4 + x / 16 < 256 by omega)
      have hsecond := toNat_ofNat_of_lt (show x % 16 * 16 + y / 4 < 256 by omega)
      have hthird := toNat_ofNat_of_lt (show y % 4 * 64 + z < 256 by omega)
      rw [encode, hfirst, hsecond, hthird, ← ih htail, show (w * 4 + x / 16) / 4 = w by omega,
        show (w * 4 + x / 16) % 4 * 16 + (x % 16 * 16 + y / 4) / 16 = x by omega,
        show (x % 16 * 16 + y / 4) % 16 * 4 + (y % 4 * 64 + z) / 64 = y by omega,
        show (y % 4 * 64 + z) % 64 = z by omega]
  | case3 text hnil hfour =>
    rcases text with _ | ⟨first, _ | ⟨second, _ | ⟨third, _ | ⟨fourth, rest⟩⟩⟩⟩
    · exact absurd rfl hnil
    · cases h
    · cases h
    · cases h
    · exact absurd rfl (hfour first second third fourth rest)

theorem decode_iff : decode text = some bytes ↔ text = encode bytes := by
  constructor
  · exact encode_of_decode
  · rintro rfl
    exact decode_encode bytes

/-- Letters, digits, `+`, `/` and the padding: every character that is written. -/
def Alphabet (c : UInt8) : Prop := c = PAD ∨ ∃ n < 64, c = letter n

theorem alphabet_letter (h : n < 64) : Alphabet (letter n) := .inr ⟨n, h, rfl⟩

theorem alphabet_encode (hc : c ∈ encode bytes) : Alphabet c := by
  induction bytes using encode.induct with
  | case1 => cases hc
  | case2 a =>
    have ha := a.toNat_lt
    simp only [encode, List.mem_cons, List.not_mem_nil, or_false] at hc
    rcases hc with rfl | rfl | rfl | rfl
    · exact alphabet_letter (by omega)
    · exact alphabet_letter (by omega)
    · exact .inl rfl
    · exact .inl rfl
  | case3 a b =>
    have ha := a.toNat_lt
    have hb := b.toNat_lt
    simp only [encode, List.mem_cons, List.not_mem_nil, or_false] at hc
    rcases hc with rfl | rfl | rfl | rfl
    · exact alphabet_letter (by omega)
    · exact alphabet_letter (by omega)
    · exact alphabet_letter (by omega)
    · exact .inl rfl
  | case4 a b d rest ih =>
    have ha := a.toNat_lt
    have hb := b.toNat_lt
    have hd := d.toNat_lt
    simp only [encode, List.mem_cons] at hc
    rcases hc with rfl | rfl | rfl | rfl | hrest
    · exact alphabet_letter (by omega)
    · exact alphabet_letter (by omega)
    · exact alphabet_letter (by omega)
    · exact alphabet_letter (by omega)
    · exact ih hrest

/-- No character is below `+`, and none is `,`, `-` or `.`. -/
theorem Alphabet.toNat (h : Alphabet c) : 43 ≤ c.toNat ∧ (c.toNat = 43 ∨ 47 ≤ c.toNat) := by
  rcases h with rfl | ⟨n, hn, rfl⟩
  · decide
  · rw [toNat_letter hn]
    split_ifs <;> omega

end Base64
