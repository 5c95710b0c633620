import DeployCore.Lib.BigEndian

/-! # DER elements with lengths of at most two octets

`element` writes a tag, the shortest form of a length below 2 ^ 16, and contents; `integer` is the element of a
natural number: as few octets as it takes, and one zero octet more where the first of them would read as a sign. -/

namespace Der
open BigEndian

/-- The shortest form of a length. -/
def lengthOctets (n : Nat) : List UInt8 :=
  if n < 0x80 then [.ofNat n]
  else if n < 0x100 then [0x81, .ofNat n]
  else [0x82, .ofNat (n / 0x100), .ofNat n]

/-- Contents whose length takes at most two octets. -/
def Fits (contents : List UInt8) : Prop := contents.length < 2 ^ 16

/-- A tag that is read: one octet, not the first of a high-number tag. -/
def ShortTag (tag : UInt8) : Prop := tag &&& 0x1f ≠ 0x1f

instance (tag : UInt8) : Decidable (ShortTag tag) := inferInstanceAs (Decidable (_ ≠ _))

def element (tag : UInt8) (contents : List UInt8) : List UInt8 :=
  tag :: (lengthOctets contents.length ++ contents)

def TAG_INTEGER : UInt8 := 0x02

def integerContents (n : Nat) : List UInt8 :=
  if 0x80 ≤ (bytes n).headD 0 then 0 :: bytes n else bytes n

def integer (n : Nat) : List UInt8 := element TAG_INTEGER (integerContents n)

variable {tag : UInt8} {contents : List UInt8} {n : Nat}

theorem length_lengthOctets_le (n : Nat) : (lengthOctets n).length ≤ 3 := by
  unfold lengthOctets
  split
  · simp
  · split <;> simp

theorem length_element_le (tag : UInt8) (contents : List UInt8) :
    (element tag contents).length ≤ contents.length + 4 := by
  have := length_lengthOctets_le contents.length
  rw [element, List.length_cons, List.length_append]
  omega

theorem length_le_element (tag : UInt8) (contents : List UInt8) : contents.length ≤ (element tag contents).length := by
  rw [element, List.length_cons, List.length_append]
  omega

theorem Fits.of_le {more : List UInt8} (h : Fits more) (hle : contents.length ≤ more.length) : Fits contents :=
  Nat.lt_of_le_of_lt hle h

theorem length_integerContents_le (n : Nat) : (integerContents n).length ≤ width n + 1 := by
  unfold integerContents
  split
  · rw [List.length_cons, length_bytes]
  · rw [length_bytes]
    omega

theorem length_integer_le (n : Nat) : (integer n).length ≤ width n + 5 :=
  (length_element_le _ _).trans (Nat.add_le_add_right (length_integerContents_le n) 4)

end Der
