import Mathlib

/-! # Decimal numerals in bytes

`write n` is the canonical ASCII numeral of `n`. `read bound` reads a run of digits, refusing a value that
reaches `bound` as soon as it does, as a fixed-width integer parser does. -/

namespace Decimal

/-- The canonical numeral: no sign, no leading zero. -/
def write (n : Nat) : List UInt8 :=
  (Nat.toDigits 10 n).map fun c => UInt8.ofNat c.toNat

/-- Reads digits behind those already read. -/
def read (bound : Nat) : Nat → List UInt8 → Option Nat
  | acc, [] => some acc
  | acc, byte :: bytes =>
    if 48 ≤ byte.toNat ∧ byte.toNat ≤ 57 then
      if 10 * acc + (byte.toNat - 48) < bound then read bound (10 * acc + (byte.toNat - 48)) bytes else none
    else none

variable {bound n acc : Nat}

theorem le_ofDigitChars (cs : List Char) (acc : Nat) : acc ≤ Nat.ofDigitChars 10 cs acc := by
  induction cs generalizing acc with
  | nil => simp
  | cons c cs ih =>
    rw [Nat.ofDigitChars_cons]
    have := ih (10 * acc + (c.toNat - '0'.toNat))
    omega

theorem digit_toNat {c : Char} (hc : c.isDigit = true) :
    (UInt8.ofNat c.toNat).toNat = c.toNat ∧ 48 ≤ c.toNat ∧ c.toNat ≤ 57 := by
  obtain ⟨hlo, hhi⟩ := Char.isDigit_iff_toNat.mp hc
  have hlo : 48 ≤ c.toNat := hlo
  have hhi : c.toNat ≤ 57 := hhi
  refine ⟨?_, hlo, hhi⟩
  rw [UInt8.toNat_ofNat']
  omega

theorem read_digits {cs : List Char} (hcs : ∀ c ∈ cs, c.isDigit = true)
    (hbound : Nat.ofDigitChars 10 cs acc < bound) :
    read bound acc (cs.map fun c => UInt8.ofNat c.toNat) = some (Nat.ofDigitChars 10 cs acc) := by
  induction cs generalizing acc with
  | nil => simp [read]
  | cons c cs ih =>
    obtain ⟨hc, hcs⟩ := List.forall_mem_cons.mp hcs
    obtain ⟨hbyte, hlo, hhi⟩ := digit_toNat hc
    have hzero : '0'.toNat = 48 := rfl
    rw [Nat.ofDigitChars_cons, hzero] at hbound ⊢
    have hle := le_ofDigitChars cs (10 * acc + (c.toNat - 48))
    rw [List.map_cons, read, hbyte, if_pos ⟨hlo, hhi⟩, if_pos (by omega)]
    exact ih hcs hbound

/-- A numeral below the bound reads back. -/
theorem read_write (h : n < bound) : read bound 0 (write n) = some n := by
  have hdigits : ∀ c ∈ Nat.toDigits 10 n, c.isDigit = true :=
    fun c hc => Nat.isDigit_of_mem_toDigits (by omega) (by omega) hc
  have hvalue : Nat.ofDigitChars 10 (Nat.toDigits 10 n) 0 = n := Nat.ofDigitChars_ten_toDigits
  have hread : read bound 0 (write n) = some (Nat.ofDigitChars 10 (Nat.toDigits 10 n) 0) :=
    read_digits hdigits (by rwa [hvalue])
  rwa [hvalue] at hread

/-- A numeral is made of digits. -/
theorem mem_write {byte : UInt8} (h : byte ∈ write n) : 48 ≤ byte.toNat ∧ byte.toNat ≤ 57 := by
  obtain ⟨c, hc, rfl⟩ := List.mem_map.mp h
  obtain ⟨hbyte, hlo, hhi⟩ := digit_toNat (Nat.isDigit_of_mem_toDigits (by omega) (by omega) hc)
  rw [hbyte]
  exact ⟨hlo, hhi⟩

/-- What reads as a numeral is made of digits. -/
theorem digits_of_read {bytes : List UInt8} (h : read bound acc bytes = some n) :
    ∀ byte ∈ bytes, 48 ≤ byte.toNat ∧ byte.toNat ≤ 57 := by
  induction bytes generalizing acc with
  | nil => exact fun _ hb => absurd hb List.not_mem_nil
  | cons byte bytes ih =>
    rw [read] at h
    split at h
    next hbyte =>
      split at h
      · exact List.forall_mem_cons.mpr ⟨hbyte, ih h⟩
      · cases h
    · cases h

theorem write_ne_nil : write n ≠ [] := by
  simp [write]

theorem head?_toDigits (h : n ≠ 0) : (Nat.toDigits 10 n).head? ≠ some '0' := by
  induction n using Nat.strongRecOn with
  | ind n ih =>
    by_cases hlt : n < 10
    · have hall : ∀ m < 10, m ≠ 0 → [Nat.digitChar m].head? ≠ some '0' := by decide
      rw [Nat.toDigits_of_lt_base hlt]
      exact hall n hlt h
    · have hhead := ih (n / 10) (by omega) (by omega)
      rw [Nat.toDigits_of_base_le (by omega) (by omega)]
      cases hdigits : Nat.toDigits 10 (n / 10) with
      | nil => exact absurd hdigits Nat.toDigits_ne_nil
      | cons c cs => rwa [hdigits] at hhead

/-- Only the numeral of zero begins with a zero. -/
theorem head?_write (h : n ≠ 0) : (write n).head? ≠ some 48 := by
  intro hhead
  rw [write, List.head?_map] at hhead
  obtain ⟨c, hc, hbyte⟩ := Option.map_eq_some_iff.mp hhead
  have hdigit := Nat.isDigit_of_mem_toDigits (by omega) (by omega) (List.mem_of_head? hc)
  obtain ⟨htoNat, -⟩ := digit_toNat hdigit
  rw [hbyte] at htoNat
  refine head?_toDigits h ?_
  rw [hc, show c = '0' from Char.toNat_inj.mp htoNat.symm]

/-! ### Canonical numerals -/

/-- The number that digits name. -/
def value (bytes : List UInt8) : Nat :=
  bytes.foldl (fun acc byte => 10 * acc + (byte.toNat - 48)) 0

theorem le_foldl (bytes : List UInt8) (acc : Nat) : acc ≤ bytes.foldl (fun acc byte => 10 * acc + (byte.toNat - 48)) acc := by
  induction bytes generalizing acc with
  | nil => exact le_rfl
  | cons byte bytes ih =>
    rw [List.foldl_cons]
    have := ih (10 * acc + (byte.toNat - 48))
    omega

/-- Only the value decides whether a run of digits is read. -/
theorem read_eq_some_iff {bytes : List UInt8} (hacc : acc < bound) :
    read bound acc bytes = some n ↔ (∀ byte ∈ bytes, 48 ≤ byte.toNat ∧ byte.toNat ≤ 57) ∧
      bytes.foldl (fun acc byte => 10 * acc + (byte.toNat - 48)) acc = n ∧ n < bound := by
  induction bytes generalizing acc with
  | nil =>
    simp only [read, Option.some.injEq, List.foldl_nil]
    exact ⟨fun h => ⟨fun _ hb => absurd hb List.not_mem_nil, h, h ▸ hacc⟩, fun h => h.2.1⟩
  | cons byte bytes ih =>
    rw [read, List.forall_mem_cons, List.foldl_cons]
    split_ifs with hbyte hlt
    · rw [ih hlt]
      simp [hbyte]
    · have := le_foldl bytes (10 * acc + (byte.toNat - 48))
      refine ⟨nofun, fun h => absurd h.2.2 ?_⟩
      omega
    · exact ⟨nofun, fun h => absurd h.1.1 hbyte⟩

theorem write_of_lt {d : Nat} (hd : d < 10) : write d = [UInt8.ofNat (48 + d)] := by
  have hall : ∀ d < 10, [UInt8.ofNat (Nat.digitChar d).toNat] = [UInt8.ofNat (48 + d)] := by decide
  rw [write, Nat.toDigits_of_lt_base hd]
  exact hall d hd

theorem write_snoc {m d : Nat} (hm : m ≠ 0) (hd : d < 10) : write (10 * m + d) = write m ++ [UInt8.ofNat (48 + d)] := by
  have hlast := write_of_lt hd
  rw [write, Nat.toDigits_of_lt_base hd] at hlast
  have hdiv : (10 * m + d) / 10 = m := by omega
  have hmod : (10 * m + d) % 10 = d := by omega
  rw [write, Nat.toDigits_of_base_le (by omega) (by omega), List.map_append, hdiv, hmod]
  exact congrArg _ hlast

/-- Digits without a leading zero are the numeral of their value. -/
theorem write_value {bytes : List UInt8} (hdigits : ∀ byte ∈ bytes, 48 ≤ byte.toNat ∧ byte.toNat ≤ 57) (hne : bytes ≠ [])
    (hhead : bytes.head? ≠ some 48) : write (value bytes) = bytes ∧ value bytes ≠ 0 := by
  induction bytes using List.reverseRecOn with
  | nil => exact absurd rfl hne
  | append_singleton bytes byte ih =>
    obtain ⟨hlo, hhi⟩ := hdigits byte (List.mem_append_right _ (List.mem_singleton_self byte))
    have hbyte : UInt8.ofNat (48 + (byte.toNat - 48)) = byte := by
      rw [Nat.add_sub_cancel' hlo, UInt8.ofNat_toNat]
    have hvalue : value (bytes ++ [byte]) = 10 * value bytes + (byte.toNat - 48) := List.foldl_append ..
    rcases eq_or_ne bytes [] with rfl | hne
    · have hbyte48 : byte.toNat ≠ 48 := fun h => hhead (congrArg some (UInt8.toNat_inj.mp h))
      refine ⟨?_, by rw [hvalue]; omega⟩
      rw [hvalue, show value [] = 0 from rfl, Nat.mul_zero, Nat.zero_add, write_of_lt (by omega), hbyte]
      rfl
    · obtain ⟨hwrite, hpos⟩ := ih (fun b hb => hdigits b (List.mem_append_left _ hb)) hne
        (by obtain ⟨b, bs, rfl⟩ := List.exists_cons_of_ne_nil hne; exact hhead)
      refine ⟨?_, by rw [hvalue]; omega⟩
      rw [hvalue, write_snoc hpos (by omega), hwrite, hbyte]

theorem length_write_le_iff {k : Nat} (hk : 0 < k) : (write n).length ≤ k ↔ n < 10 ^ k := by
  rw [write, List.length_map]
  exact Nat.length_toDigits_le_iff (by omega) hk

theorem length_write_pos : 0 < (write n).length :=
  List.length_pos_iff.mpr write_ne_nil

/-- The length of a text of `n` bytes and the numeral of that length. -/
def selfLength (n : Nat) : Nat :=
  n + (write (n + (write n).length)).length

theorem selfLength_eq (n : Nat) : n + (write (selfLength n)).length = selfLength n := by
  have hd := length_write_pos (n := n)
  have hlt : n < 10 ^ (write n).length := (length_write_le_iff hd).mp le_rfl
  have hgrow : (write n).length < 10 ^ (write n).length := Nat.lt_pow_self (by omega)
  have hle : (write (n + (write n).length)).length ≤ (write n).length + 1 := by
    rw [length_write_le_iff (by omega), Nat.pow_succ]
    omega
  have hmono {a b : Nat} (hab : a ≤ b) : (write a).length ≤ (write b).length :=
    (length_write_le_iff length_write_pos).mpr (hab.trans_lt ((length_write_le_iff length_write_pos).mp le_rfl))
  have hlow : (write n).length ≤ (write (n + (write n).length)).length := hmono (by omega)
  rcases hlow.eq_or_lt with heq | hlt'
  · rw [selfLength, ← heq, ← heq]
  · have hsucc : (write (n + (write n).length)).length = (write n).length + 1 := by omega
    have hhigh : (write (selfLength n)).length ≤ (write n).length + 1 := by
      rw [selfLength, hsucc, length_write_le_iff (by omega), Nat.pow_succ]
      omega
    have hself : (write (n + (write n).length)).length ≤ (write (selfLength n)).length := hmono (by rw [selfLength]; omega)
    rw [show (write (selfLength n)).length = (write (n + (write n).length)).length by omega]
    rfl

end Decimal
