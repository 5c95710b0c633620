import DeployCore.KeyAcceptance

/-! # What the checks on an RSA key say about its product

The lengths of the factors and the divisibility by the modulus leave two products: the modulus itself, and, where its
bit length is odd, three times the modulus. The factors are not tested for primality, so a factor may be divisible by
three, and then the second product is reached. -/

namespace DeployCore
namespace KeyProfile
open BigEndian Der

namespace RsaIntegers
variable {k : RsaIntegers}

/-- The product is an odd multiple of the modulus. -/
theorem InProfile.product_eq_mul (h : k.InProfile) : ∃ c, k.p * k.q = k.modulus * c ∧ c % 2 = 1 := by
  obtain ⟨c, hc⟩ := Nat.dvd_of_mod_eq_zero h.related.divides
  refine ⟨c, hc, ?_⟩
  have hodd : k.p * k.q % 2 = 1 := by rw [Nat.mul_mod, h.sized.p_fits.1, h.sized.q_fits.1]
  rw [hc, Nat.mul_mod, h.sized.modulus_odd, Nat.one_mul, Nat.mod_mod] at hodd
  exact hodd

theorem InProfile.two_pow_le_modulus (h : k.InProfile) : 2 ^ (k.modulus.size - 1) ≤ k.modulus := by
  have hpos : 0 < k.modulus.size := Nat.size_pos.mpr (Nat.pos_of_ne_zero h.sized.modulus_ne_zero)
  exact Nat.lt_size.mp (by omega)

/-- The product of the factors is the modulus when it is no longer than the modulus. -/
theorem InProfile.product_eq_iff (h : k.InProfile) : k.p * k.q = k.modulus ↔ (k.p * k.q).size ≤ k.modulus.size := by
  constructor
  · intro heq
    rw [heq]
  · intro hsize
    obtain ⟨c, hc, hodd⟩ := h.product_eq_mul
    have hpos : 0 < k.modulus.size := Nat.size_pos.mpr (Nat.pos_of_ne_zero h.sized.modulus_ne_zero)
    have hlow := h.two_pow_le_modulus
    have hproduct : k.p * k.q < 2 ^ (k.modulus.size - 1 + 1) := by rwa [Nat.sub_add_cancel hpos, ← Nat.size_le]
    rw [pow_succ, hc] at hproduct
    have hone : c = 1 := by
      by_contra hne
      have hthree : k.modulus * 3 ≤ k.modulus * c := Nat.mul_le_mul_left _ (by omega)
      omega
    rw [hc, hone, Nat.mul_one]

/-- Otherwise the modulus has an odd bit length and the product is three times the modulus. -/
theorem InProfile.product_cases (h : k.InProfile) :
    k.p * k.q = k.modulus ∨ k.modulus.size % 2 = 1 ∧ k.p * k.q = 3 * k.modulus := by
  obtain ⟨c, hc, hodd⟩ := h.product_eq_mul
  have hp : k.p < 2 ^ k.halfBits := Nat.size_le.mp h.sized.p_fits.2.1.le
  have hq : k.q < 2 ^ k.halfBits := Nat.size_le.mp h.sized.q_fits.2.1.le
  have hproduct : k.p * k.q < 2 ^ (k.halfBits + k.halfBits) := by
    rw [pow_add]
    exact Nat.mul_lt_mul'' hp hq
  rcases Nat.mod_two_eq_zero_or_one k.modulus.size with heven | hoddBits
  · refine .inl (h.product_eq_iff.mpr (Nat.size_le.mpr (hproduct.trans_eq ?_)))
    congr 1
    unfold halfBits
    omega
  · have hlow := h.two_pow_le_modulus
    have hexponent : k.halfBits + k.halfBits = k.modulus.size - 1 + 1 + 1 := by
      unfold halfBits
      omega
    rw [hexponent, pow_succ, pow_succ, hc] at hproduct
    have hfour : c < 4 := by
      by_contra hge
      have : k.modulus * 4 ≤ k.modulus * c := Nat.mul_le_mul_left _ (by omega)
      omega
    have hthree : c = 1 ∨ c = 3 := by omega
    rcases hthree with rfl | rfl
    · exact .inl (by rw [hc, Nat.mul_one])
    · exact .inr ⟨hoddBits, by rw [hc, Nat.mul_comm]⟩

end RsaIntegers

/-! ### What is meant -/

/-- Reading these bytes does not panic, and for the RSA key they are accepted as, the factors multiply to the modulus and
the coefficient inverts the second factor. -/
structure RsaSound (bs : Bytes) : Prop where
  noPanic : ∃ read, classify bs = .ok read
  product : ∀ key, classify bs = .ok (some (.rsa key)) →
    value key.primes.1 * value key.primes.2 = value key.modulus
  inverse : ∀ key, classify bs = .ok (some (.rsa key)) →
    value key.crtCoefficient * value key.primes.2 % value key.primes.1 = 1

/-- If these bytes encode an RSA key inside the profile, its factors' product has no more bits than its modulus. -/
def ProductFits (bs : Bytes) : Prop :=
  ∀ k attributes, (PrivateKeyInfo.mk (.rsa k) attributes).InProfile →
    bs = (PrivateKeyInfo.mk (.rsa k) attributes).encode →
    (k.p * k.q).size ≤ k.modulus.size

theorem noPanic (bs : Bytes) : ∃ read, classify bs = .ok read := by
  obtain ⟨read, hread, -⟩ := classify_iff bs
  exact ⟨read, hread⟩

/-- The RSA keys that are accepted are those of an encoding inside the profile. -/
theorem classify_rsa_iff {bs : Bytes} {key : RsaKey} : classify bs = .ok (some (.rsa key)) ↔
    ∃ k attributes, (PrivateKeyInfo.mk (.rsa k) attributes).InProfile ∧
      bs = (PrivateKeyInfo.mk (.rsa k) attributes).encode ∧ key = k.toKey := by
  obtain ⟨read, hread, hiff⟩ := classify_iff bs
  rw [hread, Except.ok.injEq, hiff]
  constructor
  · rintro ⟨⟨⟨name, scalar, named, coordinates⟩ | k, attributes⟩, hprofile, hbs, hkey⟩
    · cases name <;> cases hkey
    · exact ⟨k, attributes, hprofile, hbs, ProfiledKey.rsa.inj hkey⟩
  · rintro ⟨k, attributes, hprofile, hbs, rfl⟩
    exact ⟨_, hprofile, hbs, rfl⟩

/-- The coefficient of an accepted key inverts the second factor modulo the first. -/
theorem inverse {bs : Bytes} {key : RsaKey} (h : classify bs = .ok (some (.rsa key))) :
    value key.crtCoefficient * value key.primes.2 % value key.primes.1 = 1 := by
  obtain ⟨k, attributes, hprofile, -, rfl⟩ := classify_rsa_iff.mp h
  simp only [RsaIntegers.toKey, value_bytes]
  exact hprofile.key.related.inverts

/-- What is meant holds of a byte string exactly when the product of an encoded key's factors is not too long. -/
theorem rsaSound_iff (bs : Bytes) : RsaSound bs ↔ ProductFits bs := by
  constructor
  · intro h k attributes hprofile hbs
    have hproduct := h.product k.toKey (classify_rsa_iff.mpr ⟨k, attributes, hprofile, hbs, rfl⟩)
    simp only [RsaIntegers.toKey, value_bytes] at hproduct
    rw [hproduct]
  · intro h
    refine ⟨noPanic bs, fun key hkey => ?_, fun key hkey => inverse hkey⟩
    obtain ⟨k, attributes, hprofile, hbs, rfl⟩ := classify_rsa_iff.mp hkey
    simp only [RsaIntegers.toKey, value_bytes]
    exact hprofile.key.product_eq_iff.mpr (h k attributes hprofile hbs)

/-- A key of a 2047-bit modulus whose first factor, 2 ^ 1024 - 1, is divisible by three. -/
def tripled : RsaIntegers where
  modulus := (2 ^ 1024 - 1) / 3 * (2 ^ 1024 - 3)
  publicExponent := 65537
  privateExponent := (2 ^ 1024 - 1) / 3 * (2 ^ 1024 - 3) - 2
  p := 2 ^ 1024 - 1
  q := 2 ^ 1024 - 3
  dp := 1
  dq := 1
  crtCoefficient := 2 ^ 1023 - 1

theorem size_eq_of_bounds {n s : Nat} (hlow : 2 ^ s ≤ n) (hhigh : n < 2 ^ (s + 1)) : n.size = s + 1 :=
  le_antisymm (Nat.size_le.mpr hhigh) (Nat.lt_size.mpr hlow)

theorem tripled_inProfile : tripled.InProfile := by
  have hmodulus : tripled.modulus.size = 2047 := size_eq_of_bounds (by decide +kernel) (by decide +kernel)
  have hprivate : tripled.privateExponent.size = 2047 := size_eq_of_bounds (by decide +kernel) (by decide +kernel)
  have hp : tripled.p.size = 1024 := size_eq_of_bounds (by decide +kernel) (by decide +kernel)
  have hq : tripled.q.size = 1024 := size_eq_of_bounds (by decide +kernel) (by decide +kernel)
  have hhalf : tripled.halfBits = 1024 := by rw [RsaIntegers.halfBits, hmodulus]
  refine ⟨⟨by decide +kernel, by rw [width, hmodulus]; decide, by rw [hmodulus]; decide, by decide, by decide, by decide,
    ⟨by decide +kernel, by rw [hp, hhalf], by rw [hp]⟩, ⟨by decide +kernel, by rw [hq, hhalf], by rw [hq]⟩,
    by decide +kernel, by rw [hhalf, hprivate]; decide, by decide +kernel⟩, ?_⟩
  exact ⟨by decide, by decide +kernel, by decide, by decide +kernel, by decide +kernel, by decide +kernel,
    by decide +kernel⟩

/-- The encoding of that key is accepted, and the product of its factors is three times its modulus. -/
theorem not_rsaSound_tripled : ¬ RsaSound (PrivateKeyInfo.encode ⟨.rsa tripled, none⟩) := by
  intro h
  have hprofile : (PrivateKeyInfo.mk (.rsa tripled) none).InProfile :=
    ⟨tripled_inProfile, PrivateKey.fits_contents tripled_inProfile⟩
  have hproduct := h.product tripled.toKey (classify_rsa_iff.mpr ⟨tripled, none, hprofile, rfl, rfl⟩)
  simp only [RsaIntegers.toKey, value_bytes] at hproduct
  have htripled : tripled.p * tripled.q = 3 * tripled.modulus := by decide +kernel
  have hpositive : 0 < tripled.modulus := by decide +kernel
  omega

end KeyProfile
end DeployCore
