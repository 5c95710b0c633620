import Mathlib

/-! # Checked `u64` arithmetic

`add` and `sub` answer `none` where the exact result does not fit. Each is characterised by the exact
equation between natural numbers, which is how the proofs use them. -/

namespace Checked
variable {a b c : UInt64}

/-- `checked_add`. -/
def add (a b : UInt64) : Option UInt64 :=
  if a.toNat + b.toNat < 2 ^ 64 then some (a + b) else none

/-- `checked_sub`. -/
def sub (a b : UInt64) : Option UInt64 :=
  if b.toNat ≤ a.toNat then some (a - b) else none

theorem toNat_add_of_lt (h : a.toNat + b.toNat < 2 ^ 64) : (a + b).toNat = a.toNat + b.toNat := by
  rw [UInt64.toNat_add, Nat.mod_eq_of_lt h]

theorem add_eq_some : add a b = some c ↔ a.toNat + b.toNat = c.toNat := by
  unfold add
  split
  · next h => rw [Option.some_inj, ← UInt64.toNat_inj, toNat_add_of_lt h]
  · next h =>
    have := c.toNat_lt
    simp only [reduceCtorEq, false_iff]
    omega

theorem sub_eq_some : sub a b = some c ↔ a.toNat = b.toNat + c.toNat := by
  unfold sub
  split
  · next h =>
    rw [Option.some_inj, ← UInt64.toNat_inj, UInt64.toNat_sub_of_le _ _ (UInt64.le_iff_toNat_le.mpr h)]
    omega
  · next h =>
    simp only [reduceCtorEq, false_iff]
    omega

theorem toNat_ofNat {n : Nat} (h : n < 2 ^ 64) : (UInt64.ofNat n).toNat = n :=
  UInt64.toNat_ofNat_of_lt' h

end Checked
