import Mathlib

/-! # Fixed-width little-endian numbers in byte lists

`toLE w n` is the `w` low bytes of `n`, least significant first, and `ofLE` reads a byte list back.
Besides the round trip, `getElem?_toLE` says which byte of a number sits at each position: this is
what a reader that probes the middle of an encoded field sees. `slice` is the run of bytes a reader
gets when it seeks and reads an exact count. -/

namespace LittleEndian

/-- The `w` low bytes of `n`, least significant first. -/
def toLE : Nat → Nat → List UInt8
  | 0, _ => []
  | w + 1, n => UInt8.ofNat (n % 256) :: toLE w (n / 256)

/-- The number whose bytes, least significant first, are given. -/
def ofLE : List UInt8 → Nat
  | [] => 0
  | b :: bs => b.toNat + 256 * ofLE bs

variable {w n m : Nat}

@[simp] theorem length_toLE (w n : Nat) : (toLE w n).length = w := by
  induction w generalizing n with
  | zero => rfl
  | succ w ih => simp only [toLE, List.length_cons, ih]

theorem toNat_ofNat_mod (n : Nat) : (UInt8.ofNat (n % 256)).toNat = n % 256 := by
  simp

theorem ofLE_toLE (w n : Nat) : ofLE (toLE w n) = n % 256 ^ w := by
  induction w generalizing n with
  | zero => simp only [toLE, ofLE, pow_zero, Nat.mod_one]
  | succ w ih => rw [toLE, ofLE, toNat_ofNat_mod, ih, pow_succ', Nat.mod_mul]

theorem ofLE_toLE_of_lt (h : n < 256 ^ w) : ofLE (toLE w n) = n := by
  rw [ofLE_toLE, Nat.mod_eq_of_lt h]

theorem toLE_ofLE (bs : List UInt8) : toLE bs.length (ofLE bs) = bs := by
  induction bs with
  | nil => rfl
  | cons b bs ih =>
    have hb : b.toNat < 256 := b.toNat_lt
    rw [List.length_cons, toLE, ofLE, Nat.add_mul_mod_self_left, Nat.mod_eq_of_lt hb,
      Nat.add_mul_div_left _ _ (by omega), Nat.div_eq_of_lt hb, Nat.zero_add, ih, UInt8.ofNat_toNat]

theorem ofLE_lt (bs : List UInt8) : ofLE bs < 256 ^ bs.length := by
  induction bs with
  | nil => simp [ofLE]
  | cons b bs ih =>
    have hb : b.toNat < 256 := b.toNat_lt
    rw [ofLE, List.length_cons, pow_succ]
    omega

/-- Byte `i` of an encoded number is its `i`-th base-256 digit. -/
theorem getElem?_toLE {i : Nat} (h : i < w) : (toLE w n)[i]? = some (UInt8.ofNat (n / 256 ^ i % 256)) := by
  induction w generalizing n i with
  | zero => omega
  | succ w ih =>
    cases i with
    | zero => simp [toLE]
    | succ i => rw [toLE, List.getElem?_cons_succ, ih (by omega), Nat.div_div_eq_div_mul, pow_succ']

/-! ### `u64` fields -/

/-- A `u64` in its eight bytes. -/
def le64 (x : UInt64) : List UInt8 :=
  toLE 8 x.toNat

/-- The `u64` eight bytes spell. -/
def ofLE64 (bs : List UInt8) : UInt64 :=
  UInt64.ofNat (ofLE bs)

@[simp] theorem length_le64 (x : UInt64) : (le64 x).length = 8 :=
  length_toLE _ _

@[simp] theorem ofLE64_le64 (x : UInt64) : ofLE64 (le64 x) = x := by
  rw [ofLE64, le64, ofLE_toLE_of_lt (by simpa using x.toNat_lt), UInt64.ofNat_toNat]

theorem le64_ofLE64 {bs : List UInt8} (h : bs.length = 8) : le64 (ofLE64 bs) = bs := by
  have hlt : ofLE bs < 2 ^ 64 := by simpa [h] using ofLE_lt bs
  rw [le64, ofLE64, UInt64.toNat_ofNat_of_lt' hlt, ← h, toLE_ofLE]

/-- The most significant byte of an encoded `u64`. -/
theorem le64_top (x : UInt64) : (le64 x)[7]? = some (UInt8.ofNat (x.toNat / 2 ^ 56)) := by
  have hx := x.toNat_lt
  have h256 : 256 ^ 7 = 2 ^ 56 := by norm_num
  rw [le64, getElem?_toLE (by omega), h256, Nat.mod_eq_of_lt (by omega)]

/-- The most significant byte of an encoded `u64`, as what is left after the first seven. -/
theorem drop_le64 (x : UInt64) : (le64 x).drop 7 = [UInt8.ofNat (x.toNat / 2 ^ 56)] := by
  refine List.ext_getElem? fun i => ?_
  rw [List.getElem?_drop]
  cases i with
  | zero => simpa using le64_top x
  | succ i => rw [List.getElem?_eq_none (by simp; omega)]; simp

theorem length_flatMap_le64 (xs : List UInt64) : (xs.flatMap le64).length = 8 * xs.length := by
  induction xs with
  | nil => rfl
  | cons x xs ih =>
    simp only [List.flatMap_cons, List.length_append, length_le64, ih, List.length_cons]
    omega

theorem drop_flatMap_le64 (xs : List UInt64) (k : Nat) :
    (xs.flatMap le64).drop (8 * k) = (xs.drop k).flatMap le64 := by
  induction k generalizing xs with
  | zero => simp
  | succ k ih =>
    cases xs with
    | nil => simp
    | cons x xs =>
      rw [List.flatMap_cons, List.drop_append, List.drop_eq_nil_of_le (by simp), List.nil_append,
        length_le64, show 8 * (k + 1) - 8 = 8 * k by omega, ih, List.drop_succ_cons]

/-! ### Slices -/

/-- The `len` bytes of `bs` from position `start` on. -/
def slice (bs : List UInt8) (start len : Nat) : List UInt8 :=
  (bs.drop start).take len

theorem length_slice (bs : List UInt8) {start len : Nat} (h : start + len ≤ bs.length) :
    (slice bs start len).length = len := by
  simp only [slice, List.length_take, List.length_drop]
  omega

theorem slice_append_right (as bs : List UInt8) (start len : Nat) :
    slice (as ++ bs) (as.length + start) len = slice bs start len := by
  rw [slice, slice, List.drop_append, List.drop_eq_nil_of_le (by omega), List.nil_append,
    Nat.add_sub_cancel_left]

/-- The middle of three adjacent blocks is read back whole. -/
theorem slice_middle (as bs cs : List UInt8) : slice (as ++ bs ++ cs) as.length bs.length = bs := by
  rw [List.append_assoc]
  simp [slice]

@[simp] theorem slice_zero_length (bs : List UInt8) : slice bs 0 bs.length = bs := by
  simp [slice]

/-- The last `n` bytes. -/
theorem slice_suffix (as bs : List UInt8) {n : Nat} (h : n ≤ bs.length) :
    slice (as ++ bs) ((as ++ bs).length - n) n = bs.drop (bs.length - n) := by
  have hpos : (as ++ bs).length - n = as.length + (bs.length - n) := by simp; omega
  rw [hpos, slice_append_right, slice, List.take_of_length_le (by simp; omega)]

end LittleEndian
