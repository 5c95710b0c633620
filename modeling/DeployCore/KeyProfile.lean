import DeployCore.Io
import DeployCore.Lib.Der

/-! # The private-key profile (`src/roxyd_trust/key_profile.rs`)

`classify` reads a PKCS#8 private key through a strict DER cursor. The cursor is the bytes that are left. -/

namespace DeployCore
namespace KeyProfile

def TAG_INTEGER : UInt8 := 0x02
def TAG_BIT_STRING : UInt8 := 0x03
def TAG_OCTET_STRING : UInt8 := 0x04
def TAG_SEQUENCE : UInt8 := 0x30
/-- `[0]`: PKCS#8 attributes, or `ECPrivateKey` parameters. -/
def TAG_CONTEXT_0 : UInt8 := 0xa0
/-- `[1]`: the `ECPrivateKey` public key. -/
def TAG_CONTEXT_1 : UInt8 := 0xa1

def P256_ALGORITHM : Bytes :=
  [0x06, 0x07, 0x2a, 0x86, 0x48, 0xce, 0x3d, 0x02, 0x01, 0x06, 0x08, 0x2a, 0x86, 0x48, 0xce, 0x3d, 0x03, 0x01, 0x07]

def P384_ALGORITHM : Bytes :=
  [0x06, 0x07, 0x2a, 0x86, 0x48, 0xce, 0x3d, 0x02, 0x01, 0x06, 0x05, 0x2b, 0x81, 0x04, 0x00, 0x22]

def RSA_ALGORITHM : Bytes :=
  [0x06, 0x09, 0x2a, 0x86, 0x48, 0x86, 0xf7, 0x0d, 0x01, 0x01, 0x01, 0x05, 0x00]

def UNCOMPRESSED_POINT : UInt8 := 0x04
def RSA_MIN_MODULUS_BYTES : Nat := 256
def RSA_MAX_MODULUS_BITS : Nat := 4096
def RSA_MIN_EXPONENT : UInt64 := 65537
def RSA_MAX_EXPONENT : UInt64 := ((1 : UInt64) <<< (33 : UInt64)) - 1
def RSA_MAX_EXPONENT_BYTES : Nat := 5
def RSA_PRIME_BITS_MULTIPLE : Nat := 512

/-- The integers of an RSA key inside the profile, each as its minimal big-endian encoding. -/
structure RsaKey where
  modulus : Bytes
  publicExponent : Bytes
  primes : Bytes × Bytes
  crtExponents : Bytes × Bytes
  crtCoefficient : Bytes
  deriving DecidableEq

inductive ProfiledKey
  | ecP256 (publicKey : Bytes)
  | ecP384 (publicKey : Bytes)
  | rsa (key : RsaKey)
  deriving DecidableEq

/-- What `BigUint` panics with. -/
inductive Panic
  | divisionByZero
  deriving DecidableEq

/-! ### The cursor -/

/-- `split_first`. -/
def splitFirst : Bytes → Option (UInt8 × Bytes)
  | [] => none
  | first :: rest => some (first, rest)

/-- `split_at_checked`. -/
def splitAtChecked (bs : Bytes) (len : Nat) : Option (Bytes × Bytes) :=
  if len ≤ bs.length then some (bs.take len, bs.drop len) else none

/-- The length that starts with `first`, in its shortest form. -/
def readLength (first : UInt8) (rest : Bytes) : Option (Nat × Bytes) :=
  if first &&& 0x80 = 0 then some (first.toNat, rest)
  else if first = 0x81 then do
    let (len, rest) ← splitFirst rest
    if len ≥ 0x80 then some (len.toNat, rest) else none
  else if first = 0x82 then do
    let (high, rest) ← splitFirst rest
    let (low, rest) ← splitFirst rest
    let len := high.toNat * 256 + low.toNat
    if len ≥ 0x100 then some (len, rest) else none
  else none

namespace Cursor

/-- The next element's tag and contents, and what is left. -/
def read (der : Bytes) : Option (UInt8 × Bytes × Bytes) := do
  let (tag, rest) ← splitFirst der
  if tag &&& 0x1f = 0x1f then none
  else
    let (first, rest) ← splitFirst rest
    let (len, rest) ← readLength first rest
    let (contents, rest) ← splitAtChecked rest len
    some (tag, contents, rest)

/-- The contents of the next element if its tag is `tag`. -/
def expect (der : Bytes) (tag : UInt8) : Option (Bytes × Bytes) := do
  let (actual, contents, rest) ← read der
  if actual = tag then some (contents, rest) else none

def peek (der : Bytes) (tag : UInt8) : Bool := der.head? == some tag

/-- The contents of `input` if it is exactly one element of `tag`. -/
def only (input : Bytes) (tag : UInt8) : Option Bytes := do
  let (contents, outer) ← expect input tag
  if outer.isEmpty then some contents else none

end Cursor

/-- A DER-minimal non-negative `INTEGER`: its big-endian value without a sign octet. -/
def nonnegativeInteger (der : Bytes) : Option (Bytes × Bytes) := do
  let (value, rest) ← Cursor.expect der TAG_INTEGER
  let (first, tail) ← splitFirst value
  if first = 0 then
    match tail with
    | [] => some (value, rest)
    | next :: _ => if next &&& 0x80 ≠ 0 then some (tail, rest) else none
  else if first &&& 0x80 = 0 then some (value, rest)
  else none

/-- A non-negative `INTEGER` that fits in one octet. -/
def smallInteger (der : Bytes) : Option (UInt8 × Bytes) := do
  let (integer, rest) ← nonnegativeInteger der
  match integer with
  | [value] => some (value, rest)
  | _ => none

/-! ### Elliptic curves -/

/-- The per-curve facts an `ECPrivateKey` is checked against. -/
structure Curve where
  oid : Bytes
  scalarLen : Nat

def P256 : Curve where
  oid := [0x06, 0x08, 0x2a, 0x86, 0x48, 0xce, 0x3d, 0x03, 0x01, 0x07]
  scalarLen := 32

def P384 : Curve where
  oid := [0x06, 0x05, 0x2b, 0x81, 0x04, 0x00, 0x22]
  scalarLen := 48

/-- The optional `[0]` parameters: they must name the curve. -/
def ecParameters (key : Bytes) (curve : Curve) : Option Bytes :=
  if Cursor.peek key TAG_CONTEXT_0 then do
    let (parameters, key) ← Cursor.expect key TAG_CONTEXT_0
    if parameters ≠ curve.oid then none else some key
  else some key

def ecPublicKey (ecPrivateKey : Bytes) (curve : Curve) : Option Bytes := do
  let key ← Cursor.only ecPrivateKey TAG_SEQUENCE
  let (version, key) ← smallInteger key
  if version ≠ 1 then none
  else
    let (scalar, key) ← Cursor.expect key TAG_OCTET_STRING
    if scalar.length ≠ curve.scalarLen then none
    else
      let key ← ecParameters key curve
      let (field, key) ← Cursor.expect key TAG_CONTEXT_1
      if ¬ key.isEmpty then none
      else
        let bits ← Cursor.only field TAG_BIT_STRING
        let (unusedBits, point) ← splitFirst bits
        if unusedBits = 0 ∧ point.head? = some UNCOMPRESSED_POINT ∧ point.length = curve.scalarLen * 2 + 1 then some point
        else none

/-! ### RSA -/

/-- `usize::checked_mul` by eight, then `checked_add`. -/
def bitsOf (wholeBytes topBits : Nat) : Option Nat :=
  if wholeBytes * 8 < 2 ^ 64 ∧ wholeBytes * 8 + topBits < 2 ^ 64 then some (wholeBytes * 8 + topBits) else none

/-- `u8::bit_width`. -/
def bitWidth (b : UInt8) : Nat := if b = 0 then 0 else Nat.log2 b.toNat + 1

/-- The bit length of a positive big-endian integer with no leading zero. -/
def bitLen (value : Bytes) : Option Nat := do
  let (first, rest) ← splitFirst value
  if first = 0 then none else bitsOf rest.length (bitWidth first)

def isOdd (value : Bytes) : Bool := value.getLast?.any fun b => b &&& 1 == 1

/-- Whether the minimal big-endian encoding of the public exponent is odd and inside the accepted range. -/
def exponentInProfile (exponent : Bytes) : Bool :=
  if exponent.head?.all (· == 0) ∨ exponent.length > RSA_MAX_EXPONENT_BYTES then false
  else
    let value := exponent.foldl (fun (value : UInt64) byte => (value <<< 8) ||| byte.toUInt64) 0
    decide (RSA_MIN_EXPONENT ≤ value ∧ value ≤ RSA_MAX_EXPONENT) && value &&& 1 == 1

/-- The integers of an `RSAPrivateKey`, the private exponent last. -/
def rsaIntegers (rsaPrivateKey : Bytes) : Option (RsaKey × Bytes) := do
  let key ← Cursor.only rsaPrivateKey TAG_SEQUENCE
  let (version, key) ← smallInteger key
  if version ≠ 0 then none
  else
    let (modulus, key) ← nonnegativeInteger key
    let (publicExponent, key) ← nonnegativeInteger key
    let (privateExponent, key) ← nonnegativeInteger key
    let (p, key) ← nonnegativeInteger key
    let (q, key) ← nonnegativeInteger key
    let (dp, key) ← nonnegativeInteger key
    let (dq, key) ← nonnegativeInteger key
    let (crtCoefficient, key) ← nonnegativeInteger key
    if key.isEmpty then
      some ({ modulus, publicExponent, primes := (p, q), crtExponents := (dp, dq), crtCoefficient }, privateExponent)
    else none

/-- A prime has half the modulus length and a length that is a multiple of 512 bits. -/
def primeInProfile (halfBits : Nat) (prime : Bytes) : Bool :=
  (bitLen prime).any fun bits => isOdd prime && bits == halfBits && bits % RSA_PRIME_BITS_MULTIPLE == 0

/-- The checks of `rsa_key` between the reading of the integers and the relations. -/
def sizesHold (key : RsaKey) (privateExponent : Bytes) : Bool :=
  (bitLen key.modulus).any fun modulusBits =>
    isOdd key.modulus && decide (key.modulus.length ≥ RSA_MIN_MODULUS_BYTES ∧ modulusBits ≤ RSA_MAX_MODULUS_BITS) &&
    exponentInProfile key.publicExponent &&
    -- `div_ceil(2)`
    let halfBits := (modulusBits + 1) / 2
    primeInProfile halfBits key.primes.1 && primeInProfile halfBits key.primes.2 &&
    (bitLen privateExponent).any fun privateBits =>
      isOdd privateExponent && decide (privateBits > halfBits ∧
        (privateBits < modulusBits ∨ privateBits = modulusBits ∧ privateExponent < key.modulus))

/-- `BigUint`'s remainder, which panics on a zero divisor. -/
def bigRem (a b : Nat) : Except Panic Nat := if b = 0 then .error .divisionByZero else .ok (a % b)

/-- The relations between a key's values. -/
def rsaRelationsHold (key : RsaKey) : Except Panic Bool := do
  let p := BigEndian.value key.primes.1
  let q := BigEndian.value key.primes.2
  let inRange (exponent : Bytes) (prime : Nat) : Bool := isOdd exponent && decide (BigEndian.value exponent < prime)
  if ¬ (inRange key.crtExponents.1 p && inRange key.crtExponents.2 q) then .ok false
  else
    let crtCoefficient := BigEndian.value key.crtCoefficient
    if crtCoefficient ≥ p then .ok false
    else
      let modulus := BigEndian.value key.modulus
      let product ← bigRem (p * q) modulus
      if product ≠ 0 then .ok false
      else
        let inverse ← bigRem (crtCoefficient * q) p
        .ok (decide (inverse = 1))

def rsaKey (rsaPrivateKey : Bytes) : Except Panic (Option RsaKey) :=
  match rsaIntegers rsaPrivateKey with
  | none => .ok none
  | some (key, privateExponent) =>
    if sizesHold key privateExponent then (rsaRelationsHold key).map fun hold => if hold then some key else none
    else .ok none

/-! ### PKCS#8 -/

/-- Attributes are skipped, whatever they hold. -/
def skipAttributes (info : Bytes) : Option Bytes :=
  if Cursor.peek info TAG_CONTEXT_0 then (Cursor.read info).map fun element => element.2.2 else some info

/-- The algorithm and the private key of a version-0 `PrivateKeyInfo`. -/
def privateKeyInfo (pkcs8 : Bytes) : Option (Bytes × Bytes) := do
  let info ← Cursor.only pkcs8 TAG_SEQUENCE
  let (version, info) ← smallInteger info
  if version ≠ 0 then none
  else
    let (algorithm, info) ← Cursor.expect info TAG_SEQUENCE
    let (privateKey, info) ← Cursor.expect info TAG_OCTET_STRING
    let info ← skipAttributes info
    if info.isEmpty then some (algorithm, privateKey) else none

def classify (pkcs8 : Bytes) : Except Panic (Option ProfiledKey) :=
  match privateKeyInfo pkcs8 with
  | none => .ok none
  | some (algorithm, privateKey) =>
    if algorithm = P256_ALGORITHM then .ok ((ecPublicKey privateKey P256).map .ecP256)
    else if algorithm = P384_ALGORITHM then .ok ((ecPublicKey privateKey P384).map .ecP384)
    else if algorithm = RSA_ALGORITHM then (rsaKey privateKey).map fun key => key.map .rsa
    else .ok none

/-- `RsaKey::public_key_is`: whether these bytes are the `RSAPublicKey` of the key's modulus and exponent. -/
def RsaKey.publicKeyIs (self : RsaKey) (rsaPublicKey : Bytes) : Bool :=
  (Cursor.only rsaPublicKey TAG_SEQUENCE).any fun key =>
    (nonnegativeInteger key).any fun modulus => modulus.1 == self.modulus &&
      (nonnegativeInteger modulus.2).any fun exponent => exponent.1 == self.publicExponent && exponent.2.isEmpty

end KeyProfile
end DeployCore
