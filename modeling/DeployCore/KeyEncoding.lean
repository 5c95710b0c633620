import DeployCore.KeyProfile

/-! # What the private-key profile accepts

The cursor reads an element exactly when its input starts with the element's encoding, so every reader of
`KeyProfile` has one `_iff` lemma, and `classify_iff` puts them together: a key is returned for the encodings of a
`PrivateKeyInfo` inside the profile, and it is the one that is encoded. -/

namespace DeployCore
namespace KeyProfile
open BigEndian Der

/-! ### The cursor -/

section Cursor
variable {der rest contents left : Bytes} {tag first : UInt8} {len n : Nat}

theorem and_high_eq_zero (b : UInt8) : b &&& 0x80 = 0 ↔ b.toNat < 0x80 := by
  have hlt := b.toNat_lt
  rw [← UInt8.toNat_inj, UInt8.toNat_and, show (0x80 : UInt8).toNat = 2 ^ 7 from rfl, Nat.and_two_pow,
    Nat.testBit_eq_decide_div_mod_eq]
  rcases Nat.lt_or_ge b.toNat 0x80 with hlow | hhigh
  · simp [Nat.div_eq_of_lt hlow, hlow]
  · simp
    omega

theorem eq_of_readLength (h : readLength first rest = some (len, left)) :
    len < 2 ^ 16 ∧ first :: rest = lengthOctets len ++ left := by
  have hfirst := first.toNat_lt
  unfold readLength at h
  unfold lengthOctets
  split at h
  next hshort =>
    obtain ⟨rfl, rfl⟩ := Prod.mk.inj (Option.some.inj h)
    rw [and_high_eq_zero] at hshort
    exact ⟨by omega, by rw [if_pos hshort, UInt8.ofNat_toNat]; rfl⟩
  next =>
    split at h
    next hone =>
      rcases rest with _ | ⟨octet, rest⟩ <;> simp [splitFirst, UInt8.le_iff_toNat_le] at h
      obtain ⟨hlen, rfl, rfl⟩ := h
      have hoctet := octet.toNat_lt
      exact ⟨by omega, by rw [if_neg (by omega), if_pos (by omega), UInt8.ofNat_toNat, hone]; rfl⟩
    next =>
      split at h
      next htwo =>
        rcases rest with _ | ⟨high, _ | ⟨low, rest⟩⟩ <;> simp [splitFirst] at h
        obtain ⟨hlen, rfl, rfl⟩ := h
        have hhigh := high.toNat_lt
        have hlow := low.toNat_lt
        have hdiv : (high.toNat * 256 + low.toNat) / 0x100 = high.toNat := by omega
        have hmod : UInt8.ofNat (high.toNat * 256 + low.toNat) = low := by
          rw [← UInt8.toNat_inj, UInt8.toNat_ofNat']
          omega
        refine ⟨by omega, ?_⟩
        rw [if_neg (by omega), if_neg (by omega), hdiv, hmod, UInt8.ofNat_toNat, htwo]
        rfl
      next => cases h

theorem readLength_of_eq (hlen : len < 2 ^ 16) (heq : first :: rest = lengthOctets len ++ left) :
    readLength first rest = some (len, left) := by
  unfold lengthOctets at heq
  split at heq
  next hshort =>
    obtain ⟨rfl, rfl⟩ := List.cons.inj heq
    have hnat : (UInt8.ofNat len).toNat = len := UInt8.toNat_ofNat_of_lt' (by simp [UInt8.size]; omega)
    rw [readLength, if_pos ((and_high_eq_zero _).mpr (by omega)), hnat]
  next hlong =>
    split at heq
    next hone =>
      obtain ⟨rfl, rfl⟩ := List.cons.inj heq
      have hnat : (UInt8.ofNat len).toNat = len := UInt8.toNat_ofNat_of_lt' (by simp [UInt8.size]; omega)
      rw [readLength, if_neg (by decide), if_pos rfl]
      simp [splitFirst, UInt8.le_iff_toNat_le, -UInt8.toNat_ofNat', hnat]
      omega
    next htwo =>
      obtain ⟨rfl, rfl⟩ := List.cons.inj heq
      have hhigh : (UInt8.ofNat (len / 0x100)).toNat = len / 0x100 :=
        UInt8.toNat_ofNat_of_lt' (by simp [UInt8.size]; omega)
      have hlow : (UInt8.ofNat len).toNat = len % 256 := UInt8.toNat_ofNat'
      have hsum : len / 0x100 * 256 + len % 256 = len := by omega
      rw [readLength, if_neg (by decide), if_neg (by decide), if_pos rfl]
      simp [splitFirst, -UInt8.toNat_ofNat', hhigh, hlow, hsum]
      omega

theorem readLength_iff : readLength first rest = some (len, left) ↔
    len < 2 ^ 16 ∧ first :: rest = lengthOctets len ++ left :=
  ⟨eq_of_readLength, fun h => readLength_of_eq h.1 h.2⟩

theorem splitAtChecked_iff : splitAtChecked der len = some (contents, rest) ↔
    contents.length = len ∧ der = contents ++ rest := by
  unfold splitAtChecked
  split
  next hle =>
    simp only [Option.some.injEq, Prod.mk.injEq]
    constructor
    · rintro ⟨rfl, rfl⟩
      exact ⟨List.length_take_of_le hle, (List.take_append_drop _ _).symm⟩
    · rintro ⟨rfl, rfl⟩
      exact ⟨List.take_left, List.drop_left⟩
  next hlt =>
    simp only [reduceCtorEq, false_iff]
    rintro ⟨rfl, rfl⟩
    exact hlt (by simp)

/-- The cursor reads an element exactly where its encoding stands. -/
theorem read_iff : Cursor.read der = some (tag, contents, rest) ↔
    ShortTag tag ∧ Fits contents ∧ der = element tag contents ++ rest := by
  rcases der with _ | ⟨tag', _ | ⟨first, der⟩⟩
  · simp [Cursor.read, splitFirst, element]
  · have hne : lengthOctets contents.length ≠ [] := by unfold lengthOctets; split <;> [simp; split <;> simp]
    simp [Cursor.read, splitFirst, element, hne]
  · by_cases hshort : ShortTag tag'
    · have hread : Cursor.read (tag' :: first :: der) = (readLength first der).bind fun l =>
          (splitAtChecked l.2 l.1).bind fun p => some (tag', p.1, p.2) := if_neg hshort
      rw [hread]
      simp only [Option.bind_eq_some_iff, Option.some.injEq, Prod.mk.injEq, Prod.exists, readLength_iff,
        splitAtChecked_iff]
      constructor
      · rintro ⟨len, left, ⟨hlen, heq⟩, _, _, ⟨rfl, rfl⟩, rfl, rfl, rfl⟩
        exact ⟨hshort, hlen, by rw [element, List.cons_append, heq, List.append_assoc]⟩
      · rintro ⟨-, hfits, heq⟩
        rw [element, List.cons_append, List.append_assoc] at heq
        obtain ⟨rfl, htail⟩ := List.cons.inj heq
        exact ⟨_, _, ⟨hfits, htail⟩, _, _, ⟨rfl, rfl⟩, rfl, rfl, rfl⟩
    · have hread : Cursor.read (tag' :: first :: der) = none := if_pos (not_not.mp hshort)
      rw [hread]
      simp only [reduceCtorEq, false_iff]
      rintro ⟨hshort', -, heq⟩
      rw [element, List.cons_append] at heq
      obtain ⟨rfl, -⟩ := List.cons.inj heq
      exact hshort hshort'

theorem expect_iff (tag : UInt8) (htag : ShortTag tag) : Cursor.expect der tag = some (contents, rest) ↔
    Fits contents ∧ der = element tag contents ++ rest := by
  have hexpect : Cursor.expect der tag = (Cursor.read der).bind fun e =>
    if e.1 = tag then some (e.2.1, e.2.2) else none := rfl
  rw [hexpect, Option.bind_eq_some_iff]
  constructor
  · rintro ⟨⟨actual, c, r⟩, hread, h⟩
    obtain ⟨-, hfits, heq⟩ := read_iff.mp hread
    simp only [Option.ite_none_right_eq_some, Option.some.injEq, Prod.mk.injEq] at h
    obtain ⟨rfl, rfl, rfl⟩ := h
    exact ⟨hfits, heq⟩
  · rintro ⟨hfits, heq⟩
    exact ⟨(tag, contents, rest), read_iff.mpr ⟨htag, hfits, heq⟩, if_pos rfl⟩

theorem only_iff (tag : UInt8) (htag : ShortTag tag) : Cursor.only der tag = some contents ↔
    Fits contents ∧ der = element tag contents := by
  have honly : Cursor.only der tag = (Cursor.expect der tag).bind fun e =>
    if e.2.isEmpty then some e.1 else none := rfl
  rw [honly, Option.bind_eq_some_iff]
  constructor
  · rintro ⟨⟨c, outer⟩, hexpect, h⟩
    simp only [List.isEmpty_iff, Option.ite_none_right_eq_some, Option.some.injEq] at h
    obtain ⟨rfl, rfl⟩ := h
    simpa using (expect_iff tag htag).mp hexpect
  · rintro ⟨hfits, heq⟩
    exact ⟨(contents, []), (expect_iff tag htag).mpr ⟨hfits, by simpa using heq⟩, rfl⟩

theorem integerContents_low (h : (bytes n).headD 0 < 0x80) : integerContents n = bytes n :=
  if_neg (UInt8.not_le.mpr h)

theorem integerContents_high (h : 0x80 ≤ (bytes n).headD 0) : integerContents n = 0 :: bytes n :=
  if_pos h

theorem high_iff (b : UInt8) : b &&& 0x80 ≠ 0 ↔ 0x80 ≤ b := by
  rw [ne_eq, and_high_eq_zero, UInt8.le_iff_toNat_le]
  exact Nat.not_lt

/-- An integer's value, out of its contents. -/
def signless (contents : Bytes) : Option Bytes := do
  let (first, tail) ← splitFirst contents
  if first = 0 then
    match tail with
    | [] => some contents
    | next :: _ => if next &&& 0x80 ≠ 0 then some tail else none
  else if first &&& 0x80 = 0 then some contents
  else none

theorem signless_integerContents (n : Nat) : signless (integerContents n) = some (bytes n) := by
  rcases minimal_bytes n with hzero | ⟨head, tail, hbytes, hhead⟩
  · rw [integerContents_low (by rw [hzero]; decide), hzero]
    rfl
  · by_cases hhigh : head &&& 0x80 = 0
    · have hlow : ¬ 0x80 ≤ head := fun h => (high_iff head).mpr h hhigh
      rw [integerContents_low (by rw [hbytes]; exact UInt8.not_le.mp hlow), hbytes]
      simp [signless, splitFirst, hhead, hhigh]
    · rw [integerContents_high (by rw [hbytes]; exact (high_iff head).mp hhigh), hbytes]
      simp [signless, splitFirst, hhigh]

theorem eq_of_signless {value : Bytes} (h : signless contents = some value) :
    ∃ n, value = bytes n ∧ contents = integerContents n := by
  rcases contents with _ | ⟨first, tail⟩
  · cases h
  · by_cases hfirst : first = 0
    · subst hfirst
      rcases tail with _ | ⟨next, tail⟩
      · obtain rfl := Option.some.inj h
        exact ⟨0, rfl, rfl⟩
      · by_cases hnext : next &&& 0x80 = 0
        · simp [signless, splitFirst, hnext] at h
        · have hvalue : next :: tail = value := by simpa [signless, splitFirst, hnext] using h
          have hne : next ≠ 0 := fun h0 => hnext (by rw [h0]; rfl)
          have hbytes := bytes_value (.inr ⟨next, tail, rfl, hne⟩ : Minimal (next :: tail))
          refine ⟨BigEndian.value (next :: tail), by rw [hbytes, hvalue], ?_⟩
          rw [integerContents_high (by rw [hbytes]; exact (high_iff next).mp hnext), hbytes]
    · by_cases hhigh : first &&& 0x80 = 0
      · have hvalue : first :: tail = value := by simpa [signless, splitFirst, hfirst, hhigh] using h
        have hbytes := bytes_value (.inr ⟨first, tail, rfl, hfirst⟩ : Minimal (first :: tail))
        have hlow : ¬ 0x80 ≤ first := fun h => (high_iff first).mpr h hhigh
        refine ⟨BigEndian.value (first :: tail), by rw [hbytes, hvalue], ?_⟩
        rw [integerContents_low (by rw [hbytes]; exact UInt8.not_le.mp hlow), hbytes]
      · simp [signless, splitFirst, hfirst, hhigh] at h

/-- An integer is read exactly where the encoding of a number stands, and it is that number's bytes. -/
theorem nonnegativeInteger_iff {value : Bytes} : nonnegativeInteger der = some (value, rest) ↔
    ∃ n, value = bytes n ∧ Fits (integerContents n) ∧ der = integer n ++ rest := by
  have hread : nonnegativeInteger der = (Cursor.expect der TAG_INTEGER).bind fun e =>
      (signless e.1).map fun value => (value, e.2) := by
    unfold nonnegativeInteger
    rcases Cursor.expect der TAG_INTEGER with _ | ⟨contents, rest⟩
    · rfl
    · rcases contents with _ | ⟨first, _ | ⟨next, tail⟩⟩
      · rfl
      · by_cases hfirst : first = 0 <;> by_cases hhigh : first &&& 0x80 = 0 <;>
          simp [signless, splitFirst, hfirst, hhigh]
      · by_cases hfirst : first = 0 <;> by_cases hhigh : first &&& 0x80 = 0 <;>
          by_cases hnext : next &&& 0x80 = 0 <;> simp [signless, splitFirst, hfirst, hhigh, hnext]
  rw [hread, Option.bind_eq_some_iff]
  constructor
  · rintro ⟨⟨contents, left⟩, hexpect, hvalue⟩
    obtain ⟨_, hsignless, heq⟩ := Option.map_eq_some_iff.mp hvalue
    obtain ⟨rfl, rfl⟩ := Prod.mk.inj heq
    obtain ⟨n, rfl, rfl⟩ := eq_of_signless hsignless
    obtain ⟨hfits, hder⟩ := (expect_iff _ (by decide)).mp hexpect
    exact ⟨n, rfl, hfits, hder⟩
  · rintro ⟨n, rfl, hfits, hder⟩
    refine ⟨(integerContents n, rest), (expect_iff _ (by decide)).mpr ⟨hfits, hder⟩, ?_⟩
    simp [signless_integerContents]

theorem bytes_toNat (b : UInt8) : bytes b.toNat = [b] := by
  have hvalue : BigEndian.value [b] = b.toNat := by simp [BigEndian.value]
  rw [← hvalue]
  apply bytes_value
  by_cases hb : b = 0
  · exact .inl (by rw [hb])
  · exact .inr ⟨b, [], rfl, hb⟩

theorem smallInteger_iff {value : UInt8} : smallInteger der = some (value, rest) ↔
    der = integer value.toNat ++ rest := by
  have hread : smallInteger der = (nonnegativeInteger der).bind fun i =>
      if i.1.length = 1 then i.1.head?.map fun value => (value, i.2) else none := by
    unfold smallInteger
    rcases nonnegativeInteger der with _ | ⟨_ | ⟨first, _ | ⟨next, tail⟩⟩, rest⟩ <;> simp
  have hfits : Fits (integerContents value.toNat) := by
    have := length_integerContents_le value.toNat
    rw [← length_bytes, bytes_toNat] at this
    exact Nat.lt_of_le_of_lt this (by simp)
  rw [hread, Option.bind_eq_some_iff]
  constructor
  · rintro ⟨⟨integer, left⟩, hinteger, h⟩
    obtain ⟨n, hn, -, hder⟩ := nonnegativeInteger_iff.mp hinteger
    rcases integer with _ | ⟨first, _ | ⟨next, tail⟩⟩ <;> simp at h
    obtain ⟨rfl, rfl⟩ := h
    rw [← bytes_toNat, bytes_inj] at hn
    rw [hn, hder]
  · intro hder
    refine ⟨([value], rest), nonnegativeInteger_iff.mpr ⟨value.toNat, (bytes_toNat value).symm, hfits, hder⟩, rfl⟩

end Cursor

/-! ### What is encoded -/

/-- The integers of an RSA key. -/
structure RsaIntegers where
  modulus : Nat
  publicExponent : Nat
  privateExponent : Nat
  p : Nat
  q : Nat
  dp : Nat
  dq : Nat
  crtCoefficient : Nat
  deriving DecidableEq

namespace RsaIntegers

def all (k : RsaIntegers) : List Nat :=
  [0, k.modulus, k.publicExponent, k.privateExponent, k.p, k.q, k.dp, k.dq, k.crtCoefficient]

/-- The contents of the version-0 `RSAPrivateKey`. -/
def contents (k : RsaIntegers) : Bytes := k.all.flatMap integer

def encode (k : RsaIntegers) : Bytes := element TAG_SEQUENCE k.contents

/-- What the reader keeps of it. -/
def toKey (k : RsaIntegers) : RsaKey where
  modulus := bytes k.modulus
  publicExponent := bytes k.publicExponent
  primes := (bytes k.p, bytes k.q)
  crtExponents := (bytes k.dp, bytes k.dq)
  crtCoefficient := bytes k.crtCoefficient

/-- Half the modulus length, rounded up. -/
def halfBits (k : RsaIntegers) : Nat := (k.modulus.size + 1) / 2

def PrimeFits (k : RsaIntegers) (prime : Nat) : Prop :=
  prime % 2 = 1 ∧ prime.size = k.halfBits ∧ prime.size % 512 = 0

/-- The bounds on the modulus, the exponents and the primes. -/
structure Sized (k : RsaIntegers) : Prop where
  modulus_odd : k.modulus % 2 = 1
  modulus_bytes : 256 ≤ width k.modulus
  modulus_bits : k.modulus.size ≤ 4096
  exponent_odd : k.publicExponent % 2 = 1
  exponent_min : 65537 ≤ k.publicExponent
  exponent_max : k.publicExponent < 2 ^ 33
  p_fits : k.PrimeFits k.p
  q_fits : k.PrimeFits k.q
  private_odd : k.privateExponent % 2 = 1
  private_bits : k.halfBits < k.privateExponent.size
  private_lt : k.privateExponent < k.modulus

/-- The relations between the values. -/
structure Related (k : RsaIntegers) : Prop where
  dp_odd : k.dp % 2 = 1
  dp_lt : k.dp < k.p
  dq_odd : k.dq % 2 = 1
  dq_lt : k.dq < k.q
  coefficient_lt : k.crtCoefficient < k.p
  divides : k.p * k.q % k.modulus = 0
  inverts : k.crtCoefficient * k.q % k.p = 1

structure InProfile (k : RsaIntegers) : Prop where
  sized : k.Sized
  related : k.Related

end RsaIntegers

inductive CurveName
  | p256
  | p384
  deriving DecidableEq

namespace CurveName

def curve : CurveName → Curve
  | p256 => P256
  | p384 => P384

def algorithm : CurveName → Bytes
  | p256 => P256_ALGORITHM
  | p384 => P384_ALGORITHM

def profiled : CurveName → Bytes → ProfiledKey
  | p256 => .ecP256
  | p384 => .ecP384

end CurveName

/-- An EC key: the curve, which its parameters may name, the scalar, and the coordinates of the point. -/
structure EcKey where
  name : CurveName
  scalar : Bytes
  named : Bool
  coordinates : Bytes
  deriving DecidableEq

namespace EcKey

def point (k : EcKey) : Bytes := UNCOMPRESSED_POINT :: k.coordinates

def parameters (k : EcKey) : Bytes := if k.named then element TAG_CONTEXT_0 k.name.curve.oid else []

/-- The contents of the version-1 `ECPrivateKey`. -/
def contents (k : EcKey) : Bytes :=
  integer 1 ++ element TAG_OCTET_STRING k.scalar ++ k.parameters ++
    element TAG_CONTEXT_1 (element TAG_BIT_STRING (0 :: k.point))

def encode (k : EcKey) : Bytes := element TAG_SEQUENCE k.contents

/-- The scalar and the coordinates have the curve's length. -/
def InProfile (k : EcKey) : Prop :=
  k.scalar.length = k.name.curve.scalarLen ∧ k.coordinates.length = k.name.curve.scalarLen * 2

end EcKey

inductive PrivateKey
  | ec (key : EcKey)
  | rsa (key : RsaIntegers)
  deriving DecidableEq

namespace PrivateKey

def algorithm : PrivateKey → Bytes
  | ec key => key.name.algorithm
  | rsa _ => RSA_ALGORITHM

def encode : PrivateKey → Bytes
  | ec key => key.encode
  | rsa key => key.encode

def InProfile : PrivateKey → Prop
  | ec key => key.InProfile
  | rsa key => key.InProfile

/-- What is returned of a key. -/
def profiled : PrivateKey → ProfiledKey
  | ec key => key.name.profiled key.point
  | rsa key => .rsa key.toKey

end PrivateKey

/-- A version-0 `PrivateKeyInfo`: a key, and the contents of the attributes, if there are any. -/
structure PrivateKeyInfo where
  key : PrivateKey
  attributes : Option Bytes

namespace PrivateKeyInfo

def contents (info : PrivateKeyInfo) : Bytes :=
  integer 0 ++ element TAG_SEQUENCE info.key.algorithm ++ element TAG_OCTET_STRING info.key.encode ++
    info.attributes.elim [] (element TAG_CONTEXT_0)

def encode (info : PrivateKeyInfo) : Bytes := element TAG_SEQUENCE info.contents

/-- A key inside the profile, and attributes that leave the whole a length of at most two octets. -/
structure InProfile (info : PrivateKeyInfo) : Prop where
  key : info.key.InProfile
  fits : Fits info.contents

end PrivateKeyInfo

end KeyProfile
end DeployCore
