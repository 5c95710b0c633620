import DeployCore.Lib.LittleEndian

/-! # Naturals in as few big-endian bytes as they take

`value` reads a byte list, most significant first, and `bytes` writes a number without a leading zero byte; zero is one
zero byte. The two are inverse to each other between the numbers and the byte lists that are `Minimal`, and length,
bit length, order and parity can be read off the bytes. -/

namespace BigEndian
open LittleEndian

/-- The number that bytes spell, most significant first. -/
def value (bs : List UInt8) : Nat := bs.foldl (fun n b => n * 256 + b.toNat) 0

/-- How many bytes a number takes. -/
def width (n : Nat) : Nat := max 1 ((n.size + 7) / 8)

/-- A number without a leading zero byte. -/
def bytes (n : Nat) : List UInt8 := (toLE (width n) n).reverse

/-- Bytes without a leading zero byte, or those of zero. -/
def Minimal (bs : List UInt8) : Prop := bs = [0] ∨ ∃ head tail, bs = head :: tail ∧ head ≠ 0

variable {n m k : Nat} {bs cs : List UInt8} {b : UInt8}

theorem value_concat : value (bs ++ [b]) = value bs * 256 + b.toNat := by
  simp [value]

theorem value_eq_ofLE (bs : List UInt8) : value bs = ofLE bs.reverse := by
  induction bs using List.reverseRecOn with
  | nil => rfl
  | append_singleton bs b ih =>
    rw [value_concat, ih, List.reverse_append, List.reverse_singleton, List.singleton_append, ofLE]
    ring

theorem value_lt (bs : List UInt8) : value bs < 256 ^ bs.length := by
  rw [value_eq_ofLE, ← List.length_reverse]
  exact ofLE_lt _

theorem value_append : value (bs ++ cs) = value bs * 256 ^ cs.length + value cs := by
  induction cs using List.reverseRecOn with
  | nil => simp [value]
  | append_singleton cs c ih =>
    rw [← List.append_assoc, value_concat, value_concat, ih, List.length_append, List.length_singleton, pow_succ]
    ring

theorem value_cons : value (b :: bs) = b.toNat * 256 ^ bs.length + value bs := by
  rw [← List.singleton_append, value_append]
  simp [value]

theorem one_le_toNat (h : b ≠ 0) : 1 ≤ b.toNat :=
  Nat.one_le_iff_ne_zero.mpr fun h0 => h (UInt8.toNat_inj.mp h0)

theorem two_pow_mul (k : Nat) : 2 ^ (8 * k) = 256 ^ k := by
  rw [pow_mul]
  norm_num

/-- The bit length of a number is that of its first byte and eight for each further byte. -/
theorem size_value (h : b ≠ 0) : (value (b :: bs)).size = b.toNat.size + 8 * bs.length := by
  have htail := value_lt bs
  have hpos : 0 < b.toNat.size := Nat.size_pos.mpr (one_le_toNat h)
  rw [value_cons]
  apply le_antisymm
  · rw [Nat.size_le, pow_add, two_pow_mul]
    have hhead : b.toNat + 1 ≤ 2 ^ b.toNat.size := Nat.lt_size_self _
    calc b.toNat * 256 ^ bs.length + value bs < (b.toNat + 1) * 256 ^ bs.length := by rw [add_mul]; omega
      _ ≤ _ := Nat.mul_le_mul_right _ hhead
  · have hhead : 2 ^ (b.toNat.size - 1) ≤ b.toNat := Nat.lt_size.mp (by omega)
    have hle : 2 ^ (b.toNat.size - 1 + 8 * bs.length) ≤ b.toNat * 256 ^ bs.length + value bs := by
      rw [pow_add, two_pow_mul]
      exact (Nat.mul_le_mul_right _ hhead).trans (Nat.le_add_right _ _)
    have := Nat.lt_size.mpr hle
    omega

theorem size_toNat_le (b : UInt8) : b.toNat.size ≤ 8 :=
  Nat.size_le.mpr b.toNat_lt

theorem width_value (h : b ≠ 0) : width (value (b :: bs)) = bs.length + 1 := by
  have hpos : 0 < b.toNat.size := Nat.size_pos.mpr (one_le_toNat h)
  have hle := size_toNat_le b
  rw [width, size_value h]
  omega

/-- A number takes the bytes it was spelled with, when these are minimal. -/
theorem bytes_value (h : Minimal bs) : bytes (value bs) = bs := by
  rcases h with rfl | ⟨head, tail, rfl, hhead⟩
  · rfl
  · rw [bytes, width_value hhead, value_eq_ofLE, show tail.length + 1 = (head :: tail).reverse.length by simp, toLE_ofLE,
      List.reverse_reverse]

theorem lt_pow_width (n : Nat) : n < 256 ^ width n := by
  rw [← two_pow_mul, ← Nat.size_le, width]
  omega

@[simp] theorem value_bytes (n : Nat) : value (bytes n) = n := by
  rw [value_eq_ofLE, bytes, List.reverse_reverse, ofLE_toLE_of_lt (lt_pow_width n)]

@[simp] theorem length_bytes (n : Nat) : (bytes n).length = width n := by
  rw [bytes, List.length_reverse, length_toLE]

theorem bytes_ne_nil (n : Nat) : bytes n ≠ [] := by
  rw [← List.length_pos_iff, length_bytes]
  exact Nat.lt_of_lt_of_le Nat.one_pos (Nat.le_max_left _ _)

theorem minimal_bytes (n : Nat) : Minimal (bytes n) := by
  rcases hbytes : bytes n with _ | ⟨head, tail⟩
  · exact absurd hbytes (bytes_ne_nil n)
  · by_cases hhead : head = 0
    · -- A leading zero leaves a number that takes fewer bytes, unless it is the only one.
      have hn : n = value tail := by rw [← value_bytes n, hbytes, value_cons, hhead]; simp
      have hlength : tail.length + 1 = width n := by rw [← length_bytes, hbytes, List.length_cons]
      have hsize : n.size ≤ 8 * tail.length := by
        rw [Nat.size_le, two_pow_mul, hn]
        exact value_lt tail
      have htail : tail = [] := by
        rw [← List.length_eq_zero_iff]
        unfold width at hlength
        omega
      exact .inl (by rw [hhead, htail])
    · exact .inr ⟨head, tail, rfl, hhead⟩

theorem bytes_inj : bytes n = bytes m ↔ n = m := by
  constructor
  · intro h
    rw [← value_bytes n, h, value_bytes]
  · exact congrArg bytes

/-- Among bytes of one length the order of the numbers is that of the lists. -/
theorem lt_iff_value_lt (h : bs.length = cs.length) : bs < cs ↔ value bs < value cs := by
  induction bs generalizing cs with
  | nil =>
    obtain rfl := List.length_eq_zero_iff.mp h.symm
    simp [value]
  | cons b bs ih =>
    obtain ⟨c, cs, rfl⟩ := List.exists_cons_of_length_eq_add_one h.symm
    have hlength : bs.length = cs.length := by simpa using h
    have hbs := value_lt bs
    have hcs := value_lt cs
    rw [List.cons_lt_cons_iff, ih hlength, value_cons, value_cons, hlength]
    rw [hlength] at hbs
    rcases Nat.lt_trichotomy b.toNat c.toNat with hlt | heq | hlt
    · have hmul : (b.toNat + 1) * 256 ^ cs.length ≤ c.toNat * 256 ^ cs.length := Nat.mul_le_mul_right _ hlt
      rw [add_mul] at hmul
      have hbc : b < c := UInt8.lt_iff_toNat_lt.mpr hlt
      simp only [hbc, true_or, true_iff]
      omega
    · obtain rfl := UInt8.toNat_inj.mp heq
      simp
    · have hmul : (c.toNat + 1) * 256 ^ cs.length ≤ b.toNat * 256 ^ cs.length := Nat.mul_le_mul_right _ hlt
      rw [add_mul] at hmul
      have hbc : ¬ b < c := fun hbc => hlt.not_gt (UInt8.lt_iff_toNat_lt.mp hbc)
      have hne : b ≠ c := fun heq => hlt.ne (congrArg UInt8.toNat heq).symm
      simp only [hbc, hne, false_and, or_self, false_iff]
      omega

/-- The last byte tells the parity. -/
theorem value_concat_mod_two : value (bs ++ [b]) % 2 = b.toNat % 2 := by
  rw [value_concat]
  omega

end BigEndian
