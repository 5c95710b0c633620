import DeployCore.KeyEncoding

/-! # A key is returned exactly for an encoding inside the profile

One lemma for each reader, from the innermost out. That an element's contents fit two length octets follows, inwards,
from the outermost contents, and for a key inside the profile from the sizes of its parts. -/

namespace DeployCore
namespace KeyProfile
open BigEndian Der

theorem fits_append_left {xs ys : Bytes} (h : Fits (xs ++ ys)) : Fits xs :=
  h.of_le (by simp)

theorem fits_append_right {xs ys : Bytes} (h : Fits (xs ++ ys)) : Fits ys :=
  h.of_le (by simp)

theorem fits_of_element {tag : UInt8} {contents : Bytes} (h : Fits (element tag contents)) : Fits contents :=
  h.of_le (length_le_element _ _)

/-! ### Elliptic curves -/

theorem peek_iff {der : Bytes} {tag : UInt8} : Cursor.peek der tag = true ↔ der.head? = some tag := by
  simp [Cursor.peek]

theorem splitFirst_iff {bs rest : Bytes} {first : UInt8} : splitFirst bs = some (first, rest) ↔ bs = first :: rest := by
  rcases bs with _ | ⟨b, bs⟩ <;> simp [splitFirst]

theorem ecParameters_iff {key left : Bytes} {curve : Curve} : ecParameters key curve = some left ↔
    (key.head? ≠ some TAG_CONTEXT_0 ∧ left = key) ∨ (Fits curve.oid ∧ key = element TAG_CONTEXT_0 curve.oid ++ left) := by
  unfold ecParameters
  split
  next hpeek =>
    rw [peek_iff] at hpeek
    simp only [Option.bind_eq_bind, Option.bind_eq_some_iff, Prod.exists, Option.ite_none_left_eq_some, ne_eq, not_not,
      expect_iff TAG_CONTEXT_0 (by decide), Option.some.injEq, hpeek, not_true, false_and, false_or]
    constructor
    · rintro ⟨_, _, hkey, rfl, rfl⟩
      exact hkey
    · intro hkey
      exact ⟨_, _, hkey, rfl, rfl⟩
  next hpeek =>
    rw [peek_iff] at hpeek
    rw [Option.some.injEq]
    constructor
    · intro heq
      exact .inl ⟨hpeek, heq.symm⟩
    · rintro (⟨-, heq⟩ | ⟨-, heq⟩)
      · exact heq.symm
      · exact absurd (by rw [heq]; rfl) hpeek

theorem toNat_one : (1 : UInt8).toNat = 1 := rfl

/-- A point is read exactly out of a key of the curve with that point. -/
theorem ecPublicKey_iff {name : CurveName} {bs point : Bytes} : ecPublicKey bs name.curve = some point ↔
    ∃ k : EcKey, k.name = name ∧ k.InProfile ∧ Fits k.contents ∧ bs = k.encode ∧ point = k.point := by
  simp only [ecPublicKey, Option.bind_eq_bind, Option.bind_eq_some_iff, Prod.exists, Option.ite_none_left_eq_some,
    only_iff TAG_SEQUENCE (by decide), smallInteger_iff, expect_iff TAG_OCTET_STRING (by decide),
    expect_iff TAG_CONTEXT_1 (by decide), only_iff TAG_BIT_STRING (by decide), not_not,
    Option.ite_none_right_eq_some, Option.some.injEq, ne_eq, List.isEmpty_iff, splitFirst_iff, ecParameters_iff]
  constructor
  · rintro ⟨contents, ⟨hfits, rfl⟩, version, _, hcontents, rfl, scalar, afterScalar, ⟨-, rfl⟩, hscalar, field, hparameters,
      _, _, ⟨-, rfl⟩, rfl, bits, ⟨-, rfl⟩, _, _, rfl, ⟨rfl, hpoint, hlength⟩, rfl⟩
    obtain ⟨coordinates, rfl⟩ := List.head?_eq_some_iff.mp hpoint
    have hcoordinates : coordinates.length = name.curve.scalarLen * 2 := by simpa using hlength
    rcases hparameters with ⟨-, hnone⟩ | ⟨-, hsome⟩
    · refine ⟨⟨name, scalar, false, coordinates⟩, rfl, ⟨hscalar, hcoordinates⟩, ?_⟩
      have heq : EcKey.contents ⟨name, scalar, false, coordinates⟩ = contents := by
        rw [hcontents, ← hnone]
        simp [EcKey.contents, EcKey.parameters, EcKey.point]
      exact ⟨heq.symm ▸ hfits, by rw [EcKey.encode, heq], rfl⟩
    · refine ⟨⟨name, scalar, true, coordinates⟩, rfl, ⟨hscalar, hcoordinates⟩, ?_⟩
      have heq : EcKey.contents ⟨name, scalar, true, coordinates⟩ = contents := by
        rw [hcontents, hsome]
        simp [EcKey.contents, EcKey.parameters, EcKey.point]
      exact ⟨heq.symm ▸ hfits, by rw [EcKey.encode, heq], rfl⟩
  · rintro ⟨k, rfl, ⟨hscalar, hcoordinates⟩, hfits, rfl, rfl⟩
    have hfield : Fits (element TAG_CONTEXT_1 (element TAG_BIT_STRING (0 :: k.point))) := fits_append_right hfits
    have hparameters : Fits (element TAG_OCTET_STRING k.scalar ++ k.parameters) := by
      rw [EcKey.contents, List.append_assoc (integer 1)] at hfits
      exact fits_append_right (fits_append_left hfits)
    refine ⟨k.contents, ⟨hfits, rfl⟩, 1, _, by rw [EcKey.contents, toNat_one, List.append_assoc, List.append_assoc], rfl,
      k.scalar, _, ⟨fits_of_element (fits_append_left hparameters), rfl⟩, hscalar,
      element TAG_CONTEXT_1 (element TAG_BIT_STRING (0 :: k.point)), ?_, _, [],
      ⟨fits_of_element hfield, (List.append_nil _).symm⟩, rfl, 0 :: k.point,
      ⟨fits_of_element (fits_of_element hfield), rfl⟩, 0, k.point, rfl, ⟨rfl, rfl, by simp [EcKey.point, hcoordinates]⟩, rfl⟩
    rcases hnamed : k.named with _ | _
    · have hhead : (k.parameters ++ element TAG_CONTEXT_1 (element TAG_BIT_STRING (0 :: k.point))).head? =
          some TAG_CONTEXT_1 := by
        rw [EcKey.parameters, if_neg (by simp [hnamed])]
        rfl
      exact .inl ⟨by rw [hhead]; decide, by simp [EcKey.parameters, hnamed]⟩
    · refine .inr ⟨?_, by simp [EcKey.parameters, hnamed]⟩
      have hoid := fits_append_right hparameters
      rw [EcKey.parameters, if_pos hnamed] at hoid
      exact fits_of_element hoid

/-- An EC key inside the profile is short. -/
theorem EcKey.length_contents_lt {k : EcKey} (h : k.InProfile) : k.contents.length < 400 := by
  obtain ⟨hscalar, hcoordinates⟩ := h
  have hversion : (integer 1).length = 3 := rfl
  have hoctets := length_element_le TAG_OCTET_STRING k.scalar
  have hbits := length_element_le TAG_BIT_STRING (0 :: k.point)
  have hfield := length_element_le TAG_CONTEXT_1 (element TAG_BIT_STRING (0 :: k.point))
  have hlen : k.name.curve.scalarLen ≤ 48 := by cases k.name <;> decide
  have hparameters : k.parameters.length ≤ 12 := by
    unfold EcKey.parameters
    split
    · cases k.name <;> decide
    · simp
  simp only [EcKey.contents, List.length_append, EcKey.point, List.length_cons] at *
  omega

/-! ### The checks on sizes -/

section Sizes
variable {n m : Nat} {b : UInt8}

theorem bitWidth_eq (b : UInt8) : bitWidth b = b.toNat.size := by
  by_cases hb : b = 0
  · rw [hb]
    rfl
  · have hne : b.toNat ≠ 0 := fun h => hb (UInt8.toNat_inj.mp h)
    rw [bitWidth, if_neg hb]
    apply le_antisymm
    · exact Nat.lt_size.mpr ((Nat.le_log2 hne).mp le_rfl)
    · exact Nat.size_le.mpr Nat.lt_log2_self

theorem size_le_width (n : Nat) : n.size ≤ 8 * width n := by
  unfold width
  omega

/-- A positive number's bit length is its size. -/
theorem bitLen_bytes (hwidth : width n < 2 ^ 16) : bitLen (bytes n) = if n = 0 then none else some n.size := by
  by_cases hn : n = 0
  · rw [hn]
    rfl
  · rw [if_neg hn]
    rcases minimal_bytes n with hzero | ⟨head, tail, hbytes, hhead⟩
    · exact absurd (by rw [← value_bytes n, hzero]; rfl) hn
    · have hsize : n.size = head.toNat.size + 8 * tail.length := by rw [← size_value hhead, ← hbytes, value_bytes]
      have hle := size_le_width n
      rw [hbytes]
      have hbits : bitLen (head :: tail) = bitsOf tail.length (bitWidth head) := if_neg hhead
      rw [hbits, bitsOf, bitWidth_eq, if_pos (by omega), hsize]
      congr 1
      omega

theorem isOdd_bytes (n : Nat) : isOdd (bytes n) = decide (n % 2 = 1) := by
  rcases List.eq_nil_or_concat (bytes n) with hnil | ⟨init, last, hbytes⟩
  · exact absurd hnil (bytes_ne_nil n)
  · rw [List.concat_eq_append] at hbytes
    have hmod : n % 2 = last.toNat % 2 := by rw [← @value_concat_mod_two init last, ← hbytes, value_bytes]
    have hbit : (last &&& 1 == 1) = decide (last.toNat % 2 = 1) := by
      rw [Bool.eq_iff_iff, beq_iff_eq, decide_eq_true_iff, ← UInt8.toNat_inj, UInt8.toNat_and]
      simp [Nat.and_one_is_mod]
    rw [isOdd, hbytes, hmod, ← hbit]
    simp

/-- Shifting in bytes reads the number, as long as it stays below 2 ^ 64. -/
theorem toNat_foldl_shift {bs : Bytes} {v : UInt64} (h : (v.toNat + 1) * 256 ^ bs.length ≤ 2 ^ 64) :
    (bs.foldl (fun (value : UInt64) byte => (value <<< 8) ||| byte.toUInt64) v).toNat =
      v.toNat * 256 ^ bs.length + BigEndian.value bs := by
  induction bs generalizing v with
  | nil => simp [BigEndian.value]
  | cons b bs ih =>
    have hpos : 0 < 256 ^ bs.length := Nat.pow_pos (by norm_num)
    have hb := b.toNat_lt
    rw [List.length_cons, pow_succ, Nat.mul_comm (256 ^ bs.length), ← Nat.mul_assoc] at h
    have hv : (v.toNat + 1) * 256 ≤ 2 ^ 64 := le_of_mul_le_of_one_le_left h hpos
    have hstep : ((v <<< 8) ||| b.toUInt64).toNat = v.toNat * 256 + b.toNat := by
      rw [UInt64.toNat_or, UInt64.toNat_shiftLeft, UInt8.toNat_toUInt64, show (8 : UInt64).toNat % 64 = 8 from rfl,
        Nat.shiftLeft_eq, Nat.mod_eq_of_lt (by omega), Nat.mul_comm, ← Nat.two_pow_add_eq_or_of_lt hb, Nat.mul_comm]
    rw [List.foldl_cons, ih, hstep, value_cons, List.length_cons, pow_succ]
    · ring
    · rw [hstep]
      exact (Nat.mul_le_mul_right _ (by omega)).trans h

theorem exponentInProfile_bytes (n : Nat) :
    exponentInProfile (bytes n) = true ↔ n % 2 = 1 ∧ 65537 ≤ n ∧ n < 2 ^ 33 := by
  by_cases hlong : width n ≤ 5
  · rcases minimal_bytes n with hzero | ⟨head, tail, hbytes, hhead⟩
    · have hn : n = 0 := by rw [← value_bytes n, hzero]; rfl
      rw [hn]
      simp only [show exponentInProfile (bytes 0) = false from rfl, Bool.false_eq_true, false_iff]
      omega
    · have hlength : (head :: tail).length ≤ 5 := by rw [← hbytes, length_bytes]; exact hlong
      have hfold := @toNat_foldl_shift (head :: tail) 0 (by
        calc ((0 : UInt64).toNat + 1) * 256 ^ (head :: tail).length = 256 ^ (head :: tail).length := by simp
          _ ≤ 256 ^ 5 := Nat.pow_le_pow_right (by norm_num) hlength
          _ ≤ 2 ^ 64 := by norm_num)
      have hvalue : BigEndian.value (head :: tail) = n := by rw [← hbytes, value_bytes]
      rw [hvalue, UInt64.toNat_zero, Nat.zero_mul, Nat.zero_add] at hfold
      have hnot : ¬ ((head :: tail).head?.all (· == 0) = true ∨ (head :: tail).length > RSA_MAX_EXPONENT_BYTES) := by
        rintro (hzero | hlong)
        · exact hhead (by simpa using hzero)
        · exact absurd hlength (Nat.not_le.mpr hlong)
      rw [hbytes, exponentInProfile, if_neg hnot]
      simp only [Bool.and_eq_true, decide_eq_true_eq, beq_iff_eq, UInt64.le_iff_toNat_le, ← UInt64.toNat_inj,
        UInt64.toNat_and, hfold]
      have hmin : RSA_MIN_EXPONENT.toNat = 65537 := rfl
      have hmax : RSA_MAX_EXPONENT.toNat = 2 ^ 33 - 1 := rfl
      have hone : n &&& (1 : UInt64).toNat = n % 2 := Nat.and_one_is_mod n
      rw [hmin, hmax, hone, UInt64.toNat_one]
      omega
  · have hbig : 2 ^ 40 ≤ n := by
      rw [← Nat.lt_size]
      unfold width at hlong
      omega
    have hrefused : exponentInProfile (bytes n) = false := if_pos (.inr (by
      rw [length_bytes]
      exact Nat.not_le.mp hlong))
    rw [hrefused]
    simp only [Bool.false_eq_true, false_iff]
    omega

end Sizes

/-! ### RSA -/

namespace RsaIntegers
variable {k : RsaIntegers}

theorem width_lt (hfits : Fits k.contents) {n : Nat} (hn : n ∈ k.all) : width n < 2 ^ 16 := by
  have hcontents : (integerContents n).length ≤ k.contents.length := by
    refine (length_le_element Der.TAG_INTEGER _).trans ?_
    obtain ⟨before, after, hall⟩ := List.append_of_mem hn
    rw [contents, hall, List.flatMap_append, List.flatMap_cons, List.length_append, List.length_append]
    show _ ≤ _ + ((integer n).length + _)
    rw [integer]
    omega
  have hwidth : width n ≤ (integerContents n).length := by
    rw [← length_bytes]
    unfold integerContents
    split <;> simp
  exact Nat.lt_of_le_of_lt (hwidth.trans hcontents) hfits

theorem primeInProfile_iff {prime : Nat} (hwidth : width prime < 2 ^ 16) :
    primeInProfile k.halfBits (bytes prime) = true ↔ k.PrimeFits prime := by
  rw [primeInProfile, bitLen_bytes hwidth, isOdd_bytes, PrimeFits]
  split
  next hzero =>
    subst hzero
    simp
  next hzero => simp [RSA_PRIME_BITS_MULTIPLE, and_assoc]

theorem private_lt_iff {d n : Nat} : (d.size < n.size ∨ d.size = n.size ∧ bytes d < bytes n) ↔ d < n := by
  have hlex : d.size = n.size → (bytes d < bytes n ↔ d < n) := by
    intro heq
    have hlength : (bytes d).length = (bytes n).length := by rw [length_bytes, length_bytes, width, width, heq]
    rw [lt_iff_value_lt hlength, value_bytes, value_bytes]
  constructor
  · rintro (hlt | ⟨heq, hlt⟩)
    · exact Nat.lt_of_not_le fun hle => hlt.not_ge (Nat.size_le_size hle)
    · exact (hlex heq).mp hlt
  · intro hlt
    rcases (Nat.size_le_size hlt.le).lt_or_eq with hsize | heq
    · exact .inl hsize
    · exact .inr ⟨heq, (hlex heq).mpr hlt⟩

theorem sizesHold_iff (hfits : Fits k.contents) : sizesHold k.toKey (bytes k.privateExponent) = true ↔ k.Sized := by
  have hmodulus := bitLen_bytes (width_lt hfits (n := k.modulus) (by simp [all]))
  have hprivate := bitLen_bytes (width_lt hfits (n := k.privateExponent) (by simp [all]))
  have hp := primeInProfile_iff (k := k) (width_lt hfits (n := k.p) (by simp [all]))
  have hq := primeInProfile_iff (k := k) (width_lt hfits (n := k.q) (by simp [all]))
  rw [sizesHold, show k.toKey.modulus = bytes k.modulus from rfl, hmodulus, hprivate]
  by_cases hzero : k.modulus = 0
  · rw [if_pos hzero]
    simp only [Option.any_none, Bool.false_eq_true, false_iff]
    exact fun h => by simpa [hzero] using h.modulus_odd
  · rw [if_neg hzero]
    by_cases hd : k.privateExponent = 0
    · rw [if_pos hd]
      simp only [Option.any_none, Option.any_some, Bool.and_false, Bool.false_eq_true, false_iff]
      exact fun h => by simpa [hd] using h.private_odd
    · rw [if_neg hd]
      have hhalf' : (k.modulus.size + 1) / 2 = k.halfBits := rfl
      simp only [Option.any_some, Bool.and_eq_true, decide_eq_true_eq, isOdd_bytes, length_bytes, toKey, hhalf',
        hp, hq, exponentInProfile_bytes, private_lt_iff, RSA_MIN_MODULUS_BYTES, RSA_MAX_MODULUS_BITS,
        ge_iff_le, gt_iff_lt, and_assoc]
      constructor
      · rintro ⟨hodd, hmin, hmax, heodd, hemin, hemax, hpfits, hqfits, hdodd, hdbits, hdlt⟩
        exact ⟨hodd, hmin, hmax, heodd, hemin, hemax, hpfits, hqfits, hdodd, hdbits, hdlt⟩
      · rintro ⟨hodd, hmin, hmax, heodd, hemin, hemax, hpfits, hqfits, hdodd, hdbits, hdlt⟩
        exact ⟨hodd, hmin, hmax, heodd, hemin, hemax, hpfits, hqfits, hdodd, hdbits, hdlt⟩

theorem Sized.modulus_ne_zero (h : k.Sized) : k.modulus ≠ 0 := by
  intro hzero
  simpa [hzero] using h.modulus_odd

theorem Sized.p_ne_zero (h : k.Sized) : k.p ≠ 0 := by
  intro hzero
  simpa [hzero] using h.p_fits.1

/-- The divisors are not zero, and the relations are those of the numbers. -/
theorem rsaRelationsHold_iff (h : k.Sized) :
    ∃ hold, rsaRelationsHold k.toKey = .ok hold ∧ (hold = true ↔ k.Related) := by
  have hp : bigRem (k.crtCoefficient * k.q) k.p = .ok (k.crtCoefficient * k.q % k.p) := if_neg h.p_ne_zero
  have hmodulus : bigRem (k.p * k.q) k.modulus = .ok (k.p * k.q % k.modulus) := if_neg h.modulus_ne_zero
  simp only [rsaRelationsHold, toKey, value_bytes, isOdd_bytes, hp, hmodulus, bind, Except.bind, Bool.and_eq_true,
    decide_eq_true_eq, ge_iff_le, ne_eq]
  split
  next hrange =>
    refine ⟨false, rfl, by simp, fun hrelated => absurd ?_ hrange⟩
    exact ⟨⟨hrelated.dp_odd, hrelated.dp_lt⟩, hrelated.dq_odd, hrelated.dq_lt⟩
  next hrange =>
    obtain ⟨⟨hdpOdd, hdpLt⟩, hdqOdd, hdqLt⟩ := not_not.mp hrange
    split
    next hge => exact ⟨false, rfl, by simp, fun hrelated => absurd hrelated.coefficient_lt hge.not_gt⟩
    next hlt =>
      split
      next hne => exact ⟨false, rfl, by simp, fun hrelated => absurd hrelated.divides hne⟩
      next hdivides =>
        refine ⟨_, rfl, ?_⟩
        rw [decide_eq_true_iff]
        constructor
        · intro hinverts
          exact ⟨hdpOdd, hdpLt, hdqOdd, hdqLt, Nat.lt_of_not_le hlt, not_not.mp hdivides, hinverts⟩
        · exact Related.inverts

theorem length_integers_le {ns : List Nat} {w : Nat} (h : ∀ n ∈ ns, width n ≤ w) :
    (ns.flatMap integer).length ≤ ns.length * (w + 5) := by
  induction ns with
  | nil => simp
  | cons n ns ih =>
    obtain ⟨hn, hns⟩ := List.forall_mem_cons.mp h
    have hinteger := length_integer_le n
    have hrest := ih hns
    rw [List.flatMap_cons, List.length_append, List.length_cons, Nat.add_mul]
    omega

theorem width_le_of_size {n : Nat} (h : n.size ≤ 4096) : width n ≤ 512 := by
  unfold width
  omega

/-- An RSA key inside the profile is short. -/
theorem length_contents_lt (h : k.InProfile) : k.contents.length < 4700 := by
  obtain ⟨hsized, hrelated⟩ := h
  have hmodulus := hsized.modulus_bits
  have hhalf : k.halfBits ≤ 2048 := by
    unfold halfBits
    omega
  have hp : k.p.size ≤ 2048 := hsized.p_fits.2.1 ▸ hhalf
  have hq : k.q.size ≤ 2048 := hsized.q_fits.2.1 ▸ hhalf
  have hsizes : ∀ n ∈ k.all, n.size ≤ 4096 := by
    intro n hn
    simp only [all, List.mem_cons, List.not_mem_nil, or_false] at hn
    rcases hn with rfl | rfl | rfl | rfl | rfl | rfl | rfl | rfl | rfl
    · decide
    · exact hmodulus
    · exact (Nat.size_le.mpr hsized.exponent_max).trans (by norm_num)
    · exact (Nat.size_le_size hsized.private_lt.le).trans hmodulus
    · omega
    · omega
    · exact (Nat.size_le_size hrelated.dp_lt.le).trans (by omega)
    · exact (Nat.size_le_size hrelated.dq_lt.le).trans (by omega)
    · exact (Nat.size_le_size hrelated.coefficient_lt.le).trans (by omega)
  have hlength := length_integers_le fun n hn => width_le_of_size (hsizes n hn)
  exact Nat.lt_of_le_of_lt hlength (by simp [all])

end RsaIntegers

/-- The integers of an `RSAPrivateKey` are read exactly where they are encoded. -/
theorem rsaIntegers_iff {bs privateExponent : Bytes} {key : RsaKey} :
    rsaIntegers bs = some (key, privateExponent) ↔ ∃ k : RsaIntegers,
      Fits k.contents ∧ bs = k.encode ∧ key = k.toKey ∧ privateExponent = bytes k.privateExponent := by
  simp only [rsaIntegers, Option.bind_eq_bind, Option.bind_eq_some_iff, Prod.exists, Option.ite_none_left_eq_some,
    only_iff TAG_SEQUENCE (by decide), smallInteger_iff, not_not, Option.ite_none_right_eq_some,
    Option.some.injEq, ne_eq, List.isEmpty_iff, Prod.mk.injEq]
  constructor
  · rintro ⟨contents, ⟨hfits, rfl⟩, version, _, hcontents, rfl, _, _, hn, _, _, he, _, _, hd, _, _, hp, _, _, hq, _, _, hdp,
      _, _, hdq, _, _, hqinv, rfl, rfl, rfl⟩
    obtain ⟨n, rfl, -, rfl⟩ := nonnegativeInteger_iff.mp hn
    obtain ⟨e, rfl, -, rfl⟩ := nonnegativeInteger_iff.mp he
    obtain ⟨d, rfl, -, rfl⟩ := nonnegativeInteger_iff.mp hd
    obtain ⟨p, rfl, -, rfl⟩ := nonnegativeInteger_iff.mp hp
    obtain ⟨q, rfl, -, rfl⟩ := nonnegativeInteger_iff.mp hq
    obtain ⟨dp, rfl, -, rfl⟩ := nonnegativeInteger_iff.mp hdp
    obtain ⟨dq, rfl, -, rfl⟩ := nonnegativeInteger_iff.mp hdq
    obtain ⟨qinv, rfl, -, rfl⟩ := nonnegativeInteger_iff.mp hqinv
    have heq : RsaIntegers.contents ⟨n, e, d, p, q, dp, dq, qinv⟩ = contents := by
      rw [hcontents]
      simp [RsaIntegers.contents, RsaIntegers.all]
    exact ⟨⟨n, e, d, p, q, dp, dq, qinv⟩, heq.symm ▸ hfits, by rw [RsaIntegers.encode, heq], rfl, rfl⟩
  · rintro ⟨k, hfits, rfl, rfl, rfl⟩
    have hread : ∀ {n : Nat} {rest : Bytes}, n ∈ k.all →
        nonnegativeInteger (integer n ++ rest) = some (bytes n, rest) := by
      intro n rest hn
      refine nonnegativeInteger_iff.mpr ⟨n, rfl, ?_, rfl⟩
      have hwidth := length_integerContents_le n
      obtain ⟨before, after, hall⟩ := List.append_of_mem hn
      rw [RsaIntegers.contents, hall, List.flatMap_append, List.flatMap_cons] at hfits
      exact fits_of_element (fits_append_left (fits_append_right hfits))
    refine ⟨k.contents, ⟨hfits, rfl⟩, 0, _, rfl, rfl, _, _, hread (by simp [RsaIntegers.all]), _, _,
      hread (by simp [RsaIntegers.all]), _, _, hread (by simp [RsaIntegers.all]), _, _,
      hread (by simp [RsaIntegers.all]), _, _, hread (by simp [RsaIntegers.all]), _, _,
      hread (by simp [RsaIntegers.all]), _, _, hread (by simp [RsaIntegers.all]), _, _,
      hread (by simp [RsaIntegers.all]), rfl, rfl, rfl⟩

theorem RsaIntegers.eq_of_toKey {k k' : RsaIntegers} (hkey : k.toKey = k'.toKey)
    (hd : bytes k.privateExponent = bytes k'.privateExponent) : k = k' := by
  simp only [RsaIntegers.toKey, RsaKey.mk.injEq, Prod.mk.injEq, bytes_inj] at hkey hd
  obtain ⟨hn, he, ⟨hp, hq⟩, ⟨hdp, hdq⟩, hqinv⟩ := hkey
  cases k
  cases k'
  simp_all

theorem RsaIntegers.InProfile.fits {k : RsaIntegers} (h : k.InProfile) : Fits k.contents :=
  Nat.lt_trans (length_contents_lt h) (by norm_num)

/-- An RSA key is read, without a panic, exactly where one inside the profile is encoded. -/
theorem rsaKey_iff (bs : Bytes) : ∃ read, rsaKey bs = .ok read ∧ ∀ key, read = some key ↔
    ∃ k : RsaIntegers, k.InProfile ∧ bs = k.encode ∧ key = k.toKey := by
  rcases hintegers : rsaIntegers bs with _ | ⟨key, privateExponent⟩
  · refine ⟨none, by rw [rsaKey, hintegers], fun key => ?_⟩
    simp only [reduceCtorEq, false_iff]
    rintro ⟨k, hk, hbs, -⟩
    have hread := rsaIntegers_iff.mpr ⟨k, hk.fits, hbs, rfl, rfl⟩
    rw [hintegers] at hread
    cases hread
  · obtain ⟨k, hfits, hbs, rfl, rfl⟩ := rsaIntegers_iff.mp hintegers
    -- No other key has this encoding.
    have honly : ∀ k' : RsaIntegers, k'.InProfile → bs = k'.encode → k' = k := by
      intro k' hk' hbs'
      have hread := rsaIntegers_iff.mpr ⟨k', hk'.fits, hbs', rfl, rfl⟩
      rw [hintegers] at hread
      obtain ⟨hkey, hd⟩ := Prod.mk.inj (Option.some.inj hread)
      exact RsaIntegers.eq_of_toKey hkey.symm hd.symm
    have hsizes := RsaIntegers.sizesHold_iff hfits
    by_cases hsized : k.Sized
    · obtain ⟨hold, hrelations, hrelated⟩ := RsaIntegers.rsaRelationsHold_iff hsized
      refine ⟨if hold then some k.toKey else none, by rw [rsaKey, hintegers]; simp [hsizes.mpr hsized, hrelations]; rfl,
        fun key => ?_⟩
      rw [Option.ite_none_right_eq_some, Option.some.injEq, hrelated]
      constructor
      · rintro ⟨hrelated, rfl⟩
        exact ⟨k, ⟨hsized, hrelated⟩, hbs, rfl⟩
      · rintro ⟨k', hk', hbs', rfl⟩
        obtain rfl := honly k' hk' hbs'
        exact ⟨hk'.related, rfl⟩
    · refine ⟨none, by rw [rsaKey, hintegers]; exact if_neg fun h => hsized (hsizes.mp h), fun key => ?_⟩
      simp only [reduceCtorEq, false_iff]
      rintro ⟨k', hk', hbs', -⟩
      obtain rfl := honly k' hk' hbs'
      exact hsized hk'.sized

/-! ### PKCS#8 -/

theorem skipAttributes_iff {info left : Bytes} : skipAttributes info = some left ↔
    (info.head? ≠ some TAG_CONTEXT_0 ∧ left = info) ∨
      ∃ attributes, Fits attributes ∧ info = element TAG_CONTEXT_0 attributes ++ left := by
  unfold skipAttributes
  split
  next hpeek =>
    rw [peek_iff] at hpeek
    simp only [Option.map_eq_some_iff, Prod.exists, read_iff, hpeek, ne_eq, not_true, false_and, false_or]
    constructor
    · rintro ⟨tag, attributes, rest, ⟨-, hfits, hinfo⟩, rfl⟩
      rw [hinfo] at hpeek
      obtain rfl : tag = TAG_CONTEXT_0 := Option.some.inj hpeek
      exact ⟨attributes, hfits, hinfo⟩
    · rintro ⟨attributes, hfits, hinfo⟩
      exact ⟨TAG_CONTEXT_0, attributes, left, ⟨by decide, hfits, hinfo⟩, rfl⟩
  next hpeek =>
    rw [peek_iff] at hpeek
    rw [Option.some.injEq]
    constructor
    · intro heq
      exact .inl ⟨hpeek, heq.symm⟩
    · rintro (⟨-, heq⟩ | ⟨attributes, -, heq⟩)
      · exact heq.symm
      · exact absurd (by rw [heq]; rfl) hpeek

/-- The contents of a `PrivateKeyInfo` of this algorithm and these octets of a private key. -/
def infoContents (algorithm privateKey : Bytes) (attributes : Option Bytes) : Bytes :=
  integer 0 ++ element TAG_SEQUENCE algorithm ++ element TAG_OCTET_STRING privateKey ++
    attributes.elim [] (element TAG_CONTEXT_0)

theorem privateKeyInfo_iff {bs algorithm privateKey : Bytes} : privateKeyInfo bs = some (algorithm, privateKey) ↔
    ∃ attributes, Fits (infoContents algorithm privateKey attributes) ∧
      bs = element TAG_SEQUENCE (infoContents algorithm privateKey attributes) := by
  simp only [privateKeyInfo, Option.bind_eq_bind, Option.bind_eq_some_iff, Prod.exists, Option.ite_none_left_eq_some,
    only_iff TAG_SEQUENCE (by decide), expect_iff TAG_SEQUENCE (by decide), smallInteger_iff,
    expect_iff TAG_OCTET_STRING (by decide), not_not, Option.ite_none_right_eq_some, Option.some.injEq, ne_eq,
    List.isEmpty_iff, Prod.mk.injEq, skipAttributes_iff]
  constructor
  · rintro ⟨contents, ⟨hfits, rfl⟩, version, _, hcontents, rfl, algorithm, _, ⟨-, rfl⟩, privateKey, left, ⟨-, rfl⟩, _,
      hattributes, rfl, rfl, rfl⟩
    rcases hattributes with ⟨-, hnone⟩ | ⟨attributes, -, hsome⟩
    · refine ⟨none, ?_⟩
      have heq : infoContents algorithm privateKey none = contents := by
        rw [hcontents, ← hnone]
        simp [infoContents]
      rw [heq]
      exact ⟨hfits, rfl⟩
    · refine ⟨some attributes, ?_⟩
      have heq : infoContents algorithm privateKey (some attributes) = contents := by
        rw [hcontents, hsome]
        simp [infoContents]
      rw [heq]
      exact ⟨hfits, rfl⟩
  · rintro ⟨attributes, hfits, rfl⟩
    have hkey := fits_append_left hfits
    refine ⟨_, ⟨hfits, rfl⟩, 0, element TAG_SEQUENCE algorithm ++ (element TAG_OCTET_STRING privateKey ++
      attributes.elim [] (element TAG_CONTEXT_0)), by simp [infoContents], rfl, algorithm, _,
      ⟨fits_of_element (fits_append_right (fits_append_left hkey)), rfl⟩, privateKey, _,
      ⟨fits_of_element (fits_append_right hkey), rfl⟩, [], ?_, rfl, rfl, rfl⟩
    rcases attributes with _ | attributes
    · exact .inl ⟨by simp, rfl⟩
    · exact .inr ⟨attributes, fits_of_element (fits_append_right hfits), (List.append_nil _).symm⟩

theorem EcKey.InProfile.fits {k : EcKey} (h : k.InProfile) : Fits k.contents :=
  Nat.lt_trans (length_contents_lt h) (by norm_num)

theorem CurveName.algorithm_inj {name name' : CurveName} (h : name.algorithm = name'.algorithm) : name = name' := by
  cases name <;> cases name' <;> first | rfl | exact absurd h (by decide)

theorem CurveName.algorithm_ne (name : CurveName) : name.algorithm ≠ RSA_ALGORITHM := by
  cases name <;> decide

/-- The algorithm and the octets of an encoded key are read back. -/
theorem privateKeyInfo_encode {info : PrivateKeyInfo} (h : info.InProfile) :
    privateKeyInfo info.encode = some (info.key.algorithm, info.key.encode) :=
  privateKeyInfo_iff.mpr ⟨info.attributes, h.fits, rfl⟩

/-- What `classify` makes of a key of this algorithm. -/
theorem classify_ec {bs privateKey : Bytes} {name : CurveName} (h : privateKeyInfo bs = some (name.algorithm, privateKey)) :
    classify bs = .ok ((ecPublicKey privateKey name.curve).map name.profiled) := by
  rw [classify, h]
  cases name
  · exact if_pos rfl
  · exact (if_neg (by decide)).trans (if_pos rfl)

theorem classify_rsa {bs privateKey : Bytes} (h : privateKeyInfo bs = some (RSA_ALGORITHM, privateKey)) :
    classify bs = (rsaKey privateKey).map fun key => key.map .rsa := by
  rw [classify, h]
  exact (if_neg (by decide)).trans ((if_neg (by decide)).trans (if_pos rfl))

theorem classify_other {bs algorithm privateKey : Bytes} (h : privateKeyInfo bs = some (algorithm, privateKey))
    (hec : ∀ name : CurveName, algorithm ≠ name.algorithm) (hrsa : algorithm ≠ RSA_ALGORITHM) :
    classify bs = .ok none := by
  rw [classify, h]
  exact (if_neg (hec .p256)).trans ((if_neg (hec .p384)).trans (if_neg hrsa))

/-- A key is returned, without a panic, for the encodings of a `PrivateKeyInfo` inside the profile, and it is the one
that is encoded. -/
theorem classify_iff (bs : Bytes) : ∃ read, classify bs = .ok read ∧ ∀ key, read = some key ↔
    ∃ info : PrivateKeyInfo, info.InProfile ∧ bs = info.encode ∧ key = info.key.profiled := by
  rcases hinfo : privateKeyInfo bs with _ | ⟨algorithm, privateKey⟩
  · refine ⟨none, by rw [classify, hinfo], fun key => ?_⟩
    simp only [reduceCtorEq, false_iff]
    rintro ⟨info, hprofile, rfl, -⟩
    rw [privateKeyInfo_encode hprofile] at hinfo
    cases hinfo
  · obtain ⟨attributes, hfits, hbs⟩ := privateKeyInfo_iff.mp hinfo
    -- Whatever is encoded has this algorithm and these octets.
    have hread : ∀ info : PrivateKeyInfo, info.InProfile → bs = info.encode →
        info.key.algorithm = algorithm ∧ info.key.encode = privateKey := by
      rintro info hprofile rfl
      rw [privateKeyInfo_encode hprofile] at hinfo
      exact Prod.mk.inj (Option.some.inj hinfo)
    by_cases hec : ∃ name : CurveName, algorithm = name.algorithm
    · obtain ⟨name, rfl⟩ := hec
      refine ⟨_, classify_ec hinfo, fun key => ?_⟩
      rw [Option.map_eq_some_iff]
      constructor
      · rintro ⟨point, hpoint, rfl⟩
        obtain ⟨k, rfl, hk, -, rfl, rfl⟩ := ecPublicKey_iff.mp hpoint
        exact ⟨⟨.ec k, attributes⟩, ⟨hk, hfits⟩, hbs, rfl⟩
      · rintro ⟨⟨_ | k, attributes'⟩, hprofile, hencode, rfl⟩
        · obtain ⟨halgorithm, rfl⟩ := hread _ hprofile hencode
          next k =>
          exact ⟨k.point, ecPublicKey_iff.mpr ⟨k, CurveName.algorithm_inj halgorithm, hprofile.key, hprofile.key.fits, rfl,
            rfl⟩, by rw [← CurveName.algorithm_inj halgorithm]; rfl⟩
        · exact absurd (hread _ hprofile hencode).1.symm name.algorithm_ne
    · by_cases hrsa : algorithm = RSA_ALGORITHM
      · subst hrsa
        obtain ⟨read, hkey, hiff⟩ := rsaKey_iff privateKey
        refine ⟨read.map .rsa, by rw [classify_rsa hinfo, hkey]; rfl, fun key => ?_⟩
        rw [Option.map_eq_some_iff]
        constructor
        · rintro ⟨_, hsome, rfl⟩
          obtain ⟨k, hk, rfl, rfl⟩ := (hiff _).mp hsome
          exact ⟨⟨.rsa k, attributes⟩, ⟨hk, hfits⟩, hbs, rfl⟩
        · rintro ⟨⟨k | k, attributes'⟩, hprofile, hencode, rfl⟩
          · exact absurd (hread _ hprofile hencode).1 k.name.algorithm_ne
          · obtain ⟨-, rfl⟩ := hread _ hprofile hencode
            exact ⟨k.toKey, (hiff _).mpr ⟨k, hprofile.key, rfl, rfl⟩, rfl⟩
      · have hnone : ∀ name : CurveName, algorithm ≠ name.algorithm := fun name heq => hec ⟨name, heq⟩
        refine ⟨none, classify_other hinfo hnone hrsa, fun key => ?_⟩
        simp only [reduceCtorEq, false_iff]
        rintro ⟨⟨k | k, attributes'⟩, hprofile, hencode, -⟩
        · exact hnone k.name (hread _ hprofile hencode).1.symm
        · exact hrsa (hread _ hprofile hencode).1.symm

theorem PrivateKey.fits_contents {key : PrivateKey} (h : key.InProfile) : Fits (PrivateKeyInfo.contents ⟨key, none⟩) := by
  have hversion : (integer 0).length = 3 := rfl
  have hkey : key.encode.length < 4704 := by
    rcases key with k | k
    · exact Nat.lt_of_le_of_lt (length_element_le _ _) (by have := EcKey.length_contents_lt h; omega)
    · exact Nat.lt_of_le_of_lt (length_element_le _ _) (by have := RsaIntegers.length_contents_lt h; omega)
  have halgorithm : key.algorithm.length ≤ 19 := by
    rcases key with k | k
    · simp only [PrivateKey.algorithm]
      cases k.name <;> decide
    · exact (by decide : RSA_ALGORITHM.length ≤ 19)
  have hsequence := length_element_le TAG_SEQUENCE key.algorithm
  have hoctets := length_element_le TAG_OCTET_STRING key.encode
  simp only [Fits, PrivateKeyInfo.contents, List.length_append, Option.elim_none, List.length_nil]
  omega

/-- `classify` returns exactly the keys inside the profile, each for its encodings; and every key has one. -/
theorem classify_exact :
    (∀ bs key, classify bs = .ok (some key) ↔
      ∃ info : PrivateKeyInfo, info.InProfile ∧ bs = info.encode ∧ key = info.key.profiled) ∧
    ∀ key : PrivateKey, key.InProfile → classify (PrivateKeyInfo.encode ⟨key, none⟩) = .ok (some key.profiled) := by
  have hiff : ∀ bs key, classify bs = .ok (some key) ↔
      ∃ info : PrivateKeyInfo, info.InProfile ∧ bs = info.encode ∧ key = info.key.profiled := by
    intro bs key
    obtain ⟨read, hread, hkey⟩ := classify_iff bs
    rw [hread, Except.ok.injEq]
    exact hkey key
  exact ⟨hiff, fun key hkey => (hiff _ _).mpr ⟨⟨key, none⟩, ⟨hkey, PrivateKey.fits_contents hkey⟩, rfl, rfl⟩⟩

/-- A key's public key is the one encoding of its modulus and its exponent. -/
theorem publicKeyIs_iff {k : RsaIntegers} {bs : Bytes} : k.toKey.publicKeyIs bs = true ↔
    Fits (integer k.modulus ++ integer k.publicExponent) ∧
      bs = element TAG_SEQUENCE (integer k.modulus ++ integer k.publicExponent) := by
  simp only [RsaKey.publicKeyIs, Option.any_eq_true, Bool.and_eq_true, beq_iff_eq, List.isEmpty_iff, Prod.exists,
    only_iff TAG_SEQUENCE (by decide), nonnegativeInteger_iff, RsaIntegers.toKey]
  constructor
  · rintro ⟨_, ⟨hfits, rfl⟩, _, _, ⟨n, rfl, -, rfl⟩, hn, _, _, ⟨e, rfl, -, rfl⟩, he, rfl⟩
    rw [bytes_inj] at hn he
    subst hn he
    rw [List.append_nil] at hfits ⊢
    exact ⟨hfits, rfl⟩
  · rintro ⟨hfits, rfl⟩
    exact ⟨_, ⟨hfits, rfl⟩, _, _, ⟨_, rfl, fits_of_element (fits_append_left hfits), rfl⟩, rfl, _, [],
      ⟨_, rfl, fits_of_element (fits_append_right hfits), (List.append_nil _).symm⟩, rfl, rfl⟩

end KeyProfile
end DeployCore
