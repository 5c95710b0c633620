import DeployCore.Lib.LittleEndian

/-! # The structure of a zstd stream

A stream is frames, one behind the other. A standard frame is a header, blocks up to one that is marked the last, and
an optional checksum; a skippable frame is a magic number, a length and so many bytes. What a block decodes to plays no
part here. `Frames bound` are whole frames whose windows are within `bound`; `Offends` says where a stream first
departs from them. -/

namespace Zstd
open LittleEndian

abbrev Octets := List UInt8

def MAGIC : Octets := [0x28, 0xb5, 0x2f, 0xfd]

/-- `0x184D2A50` up to `0x184D2A5F`. -/
def SkippableMagic (magic : Octets) : Prop :=
  ∃ low : UInt8, low.toNat / 16 = 5 ∧ magic = [low, 0x2a, 0x4d, 0x18]

/-! ### Frame headers -/

section Descriptor
variable (descriptor : UInt8)

def singleSegment : Bool := descriptor.toNat / 32 % 2 == 1
def reserved : Bool := descriptor.toNat / 8 % 2 == 1
def checksum : Bool := descriptor.toNat / 4 % 2 == 1

def dictionaryLen : Nat :=
  match descriptor.toNat % 4 with
  | 0 => 0
  | 1 => 1
  | 2 => 2
  | _ => 4

def contentSizeLen : Nat :=
  match descriptor.toNat / 64 with
  | 0 => if singleSegment descriptor then 1 else 0
  | 1 => 2
  | 2 => 4
  | _ => 8

/-- The fields behind the descriptor: the window descriptor of a frame that is not one segment, the dictionary and the
content size. -/
def fieldsLen : Nat :=
  (if singleSegment descriptor then 0 else 1) + dictionaryLen descriptor + contentSizeLen descriptor

/-- The window a frame declares. That of a single segment is its content size, where two bytes count from 256 on. -/
def window (fields : Octets) : Nat :=
  if singleSegment descriptor then
    ofLE (fields.drop (dictionaryLen descriptor)) + if contentSizeLen descriptor = 2 then 256 else 0
  else
    let base := 2 ^ (10 + (fields.headD 0).toNat / 8)
    base + base / 8 * ((fields.headD 0).toNat % 8)

end Descriptor

/-- A frame's header, and whether its blocks are followed by a checksum. -/
inductive Header (bound : Nat) : Bool → Octets → Prop
  | intro {descriptor : UInt8} {fields : Octets} (hreserved : reserved descriptor = false)
      (hlength : fields.length = fieldsLen descriptor) (hwindow : window descriptor fields ≤ bound) :
      Header bound (checksum descriptor) (MAGIC ++ [descriptor] ++ fields)

/-! ### Blocks -/

/-- How many bytes stand behind a block's header; the fourth type is reserved. -/
def contentLen (header : Octets) : Option Nat :=
  match ofLE header / 2 % 4 with
  | 0 | 2 => some (ofLE header / 8)
  | 1 => some 1
  | _ => none

def isLast (header : Octets) : Bool := ofLE header % 2 == 1

inductive Block (last : Bool) : Octets → Prop
  | intro {header content : Octets} (hheader : header.length = 3) (hlast : isLast header = last)
      (hcontent : contentLen header = some content.length) : Block last (header ++ content)

/-- Blocks of which none is the last. -/
inductive Blocks : Octets → Prop
  | nil : Blocks []
  | snoc {x y : Octets} (hx : Blocks x) (hy : Block false y) : Blocks (x ++ y)

/-! ### Frames -/

def trailerLen (checksum : Bool) : Nat := if checksum then 4 else 0

inductive Frame (bound : Nat) : Octets → Prop
  | standard {checksum : Bool} {header blocks last trailer : Octets} (hheader : Header bound checksum header)
      (hblocks : Blocks blocks) (hlast : Block true last) (htrailer : trailer.length = trailerLen checksum) :
      Frame bound (header ++ blocks ++ last ++ trailer)
  | skippable {magic len payload : Octets} (hmagic : SkippableMagic magic) (hlen : len.length = 4)
      (hpayload : payload.length = ofLE len) : Frame bound (magic ++ len ++ payload)

inductive Frames (bound : Nat) : Octets → Prop
  | nil : Frames bound []
  | snoc {x y : Octets} (hx : Frames bound x) (hy : Frame bound y) : Frames bound (x ++ y)

/-- What a stream can depart from the format in: a magic number that opens no frame, a descriptor with the reserved bit
set, a window above the bound, or a block of the reserved type. -/
inductive Offence
  | magic
  | descriptor
  | window
  | blockType
  deriving DecidableEq

/-- The stream ends with what first offends. -/
inductive Offends (bound : Nat) : Offence → Octets → Prop
  | magic {x magic : Octets} (hx : Frames bound x) (hlength : magic.length = 4) (hstandard : magic ≠ MAGIC)
      (hskippable : ¬SkippableMagic magic) : Offends bound .magic (x ++ magic)
  | descriptor {x : Octets} {descriptor : UInt8} (hx : Frames bound x) (hreserved : reserved descriptor = true) :
      Offends bound .descriptor (x ++ MAGIC ++ [descriptor])
  | window {x fields : Octets} {descriptor : UInt8} (hx : Frames bound x) (hreserved : reserved descriptor = false)
      (hlength : fields.length = fieldsLen descriptor) (hwindow : bound < window descriptor fields) :
      Offends bound .window (x ++ MAGIC ++ [descriptor] ++ fields)
  | blockType {x header blocks block : Octets} {checksum : Bool} (hx : Frames bound x)
      (hheader : Header bound checksum header) (hblocks : Blocks blocks) (hlength : block.length = 3)
      (htype : contentLen block = none) : Offends bound .blockType (x ++ header ++ blocks ++ block)

end Zstd
