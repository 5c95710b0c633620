import DeployCore.Lib.LittleEndian

/-! # Byte sources and sinks

The container code is generic over `Read + Seek` sources and `Write` sinks. `Source` is what it sees of
the first: a length and exact reads at a position, each of which may fail. `Out` is what it sees of the
second: the bytes accepted so far, and how many more are accepted before writing fails. File positions are
natural numbers; the `u64` arithmetic of the container's own fields is modelled where it is computed. -/

namespace DeployCore
open LittleEndian

/-- A run of raw bytes. -/
abbrev Bytes := List UInt8

/-- The kinds of `io::Error` the code tells apart. -/
inductive ErrorKind
  | notFound
  | unexpectedEof
  | other (code : Nat)
  deriving DecidableEq

/-- An `io::Error`: one of the operating system's, or one that carries a `RetainedIoFault` around the
error retained storage failed with. -/
inductive IoError
  | os (kind : ErrorKind)
  | retained (original : IoError)
  deriving DecidableEq

/-- `RetainedIoFault::recover`: the original error, when the payload is a retained fault. -/
def IoError.recover : IoError → Option IoError
  | .retained original => some original
  | .os _ => none

/-- What reading a stream to its end yields: the bytes before the end, or before the failure. -/
structure Stream where
  bytes : Bytes
  fault : Option IoError
  deriving DecidableEq

/-- A `Read + Seek` source: its length (a seek to the end), the `n` bytes at a position (a seek and a
`read_exact`), and the at most `n` bytes a copy from a position sees (a seek and a `take`). -/
structure Source where
  len : Except IoError Nat
  readAt : Nat → Nat → Except IoError Bytes
  takeAt : Nat → Nat → Stream
  readAt_length : ∀ {pos n bs}, readAt pos n = .ok bs → bs.length = n
  takeAt_length : ∀ {pos n}, (takeAt pos n).bytes.length ≤ n

/-- A source that never fails: a file, or a byte string in memory. -/
def Source.ofBytes (bs : Bytes) : Source where
  len := .ok bs.length
  readAt pos n :=
    if n = 0 ∨ pos + n ≤ bs.length then .ok (slice bs pos n) else .error (.os .unexpectedEof)
  takeAt pos n := ⟨slice bs pos n, none⟩
  takeAt_length := by simp [slice]
  readAt_length := by
    intro pos n out h
    split at h
    · next hle =>
      cases h
      rcases hle with rfl | hle
      · simp [slice]
      · exact length_slice bs hle
    · cases h

namespace Source
variable {bs : Bytes} {pos n : Nat}

@[simp] theorem len_ofBytes : (ofBytes bs).len = .ok bs.length := rfl

theorem readAt_ofBytes (h : pos + n ≤ bs.length) : (ofBytes bs).readAt pos n = .ok (slice bs pos n) :=
  if_pos (Or.inr h)

end Source

/-- A `Write` sink: what it has accepted, how many bytes it still accepts (`none` for a sink that never
fails), and the error it fails with. -/
structure Out where
  written : Bytes
  room : Option Nat
  fault : IoError

/-- `write_all`: a sink that fails has accepted what it had room for. -/
def Out.writeAll (out : Out) (bs : Bytes) : Except IoError Unit × Out :=
  match out.room with
  | none => (.ok (), { out with written := out.written ++ bs })
  | some room =>
    if bs.length ≤ room then
      (.ok (), { out with written := out.written ++ bs, room := some (room - bs.length) })
    else
      (.error out.fault, { out with written := out.written ++ bs.take room, room := some 0 })

/-- `io::copy`: everything the stream yields, and how much that was. -/
def Out.copy (out : Out) (stream : Stream) : Except IoError Nat × Out :=
  match out.writeAll stream.bytes with
  | (.error e, out) => (.error e, out)
  | (.ok (), out) =>
    match stream.fault with
    | some e => (.error e, out)
    | none => (.ok stream.bytes.length, out)

/-- A sink that accepts everything. -/
def Out.ofBytes (bs : Bytes) : Out :=
  ⟨bs, none, .os (.other 0)⟩

theorem Out.copy_ofBytes (written bs : Bytes) :
    (Out.ofBytes written).copy ⟨bs, none⟩ = (.ok bs.length, .ofBytes (written ++ bs)) := rfl

end DeployCore
