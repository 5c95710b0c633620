import DeployCore.BufReader
import DeployCore.Lib.Incremental
import DeployCore.Lib.LittleEndian

/-! # The gzip decoder

A single-member gzip decoder over a counted reader. The raw inflater and the CRC-32 are parameters: here are the
header, the loop around the inflater, the trailer and the check that nothing follows it. -/

namespace DeployCore
open Fallible CountingReader LittleEndian Incremental

def ID1 : UInt8 := 0x1f
def ID2 : UInt8 := 0x8b
def CM_DEFLATE : UInt8 := 8

def FHCRC : UInt8 := 0x02
def FEXTRA : UInt8 := 0x04
def FNAME : UInt8 := 0x08
def FCOMMENT : UInt8 := 0x10
def RESERVED_FLAGS : UInt8 := 0xe0

def EXTRA_CHUNK : Nat := 512

def gzipHeaderFault (fault : GzipHeaderFault) : ContentFault :=
  .malformed (.gzipHeader fault)

/-! ### The header -/

/-- Reads header fields, each checked against the allowance before it is read; `crc` has hashed `hashed`. -/
structure HeaderReader where
  stored : StreamReader
  budget : Budget
  hashed : Bytes

namespace HeaderReader

abbrev Reads := EStateM ContentFault HeaderReader

def onStored {α : Type} (read : StreamReader → Except ContentFault α × StreamReader) : Reads α :=
  fun h =>
    match read h.stored with
    | (.ok a, stored) => .ok a { h with stored }
    | (.error fault, stored) => .error fault { h with stored }

def check (len : Nat) : Reads Unit := do
  let h ← get
  lift (h.budget.check len)

def charge (bytes : Bytes) : Reads Unit := do
  let h ← get
  let budget ← lift (h.budget.charge bytes.length)
  set { h with
    budget
    hashed := h.hashed ++ bytes }

/-- `read_into`, and `field` with it. -/
def field (len : Nat) : Reads Bytes := do
  check len
  let bytes ← onStored fun stored => stored.readFull len
  charge bytes
  pure bytes

def skipMore (chunk : Nat) : Nat → (left : Nat) → Reads Unit
  | _, 0 => pure ()
  | 0, _ => throw (.malformed .truncated)
  | fuel + 1, left => do
    let _ ← field (min chunk left)
    skipMore chunk fuel (left - min chunk left)

/-- Skips bytes, all of them checked against the allowance before the first is read. -/
def skip (len copyBuffer : Nat) : Reads Unit := do
  check len
  skipMore (min EXTRA_CHUNK copyBuffer) len len

def skipUntilZero : Nat → Reads Unit
  | 0 => throw (.malformed .truncated)
  | fuel + 1 => do
    let byte ← field 1
    if byte = [0] then pure () else skipUntilZero fuel

/-- Each round reads a byte, so there are no more rounds than bytes and one. -/
def skipZeroTerminated : Reads Unit := do
  let h ← get
  skipUntilZero (h.stored.source.bytes.length + 1)

def skipExtra (flags : UInt8) (copyBuffer : Nat) : Reads Unit :=
  if flags &&& FEXTRA ≠ 0 then do
    let xlen ← field 2
    skip (ofLE xlen) copyBuffer
  else pure ()

def skipText (flags flag : UInt8) : Reads Unit :=
  if flags &&& flag ≠ 0 then skipZeroTerminated else pure ()

def checkHeaderCrc (checksum : Bytes → UInt32) (flags : UInt8) : Reads Unit :=
  if flags &&& FHCRC ≠ 0 then do
    let h ← get
    let recorded ← field 2
    if recorded = (toLE 4 (checksum h.hashed).toNat).take 2 then pure () else throw (gzipHeaderFault .headerCrc)
  else pure ()

def magic : Reads Unit := do
  let id1 ← field 1
  if id1 ≠ [ID1] then throw (gzipHeaderFault .magic)
  else
    let id2 ← field 1
    if id2 ≠ [ID2] then throw (gzipHeaderFault .magic) else pure ()

def method : Reads Unit := do
  let cm ← field 1
  if cm ≠ [CM_DEFLATE] then throw (gzipHeaderFault .method) else pure ()

def readFlags : Reads UInt8 := do
  let flags ← field 1
  if flags.headD 0 &&& RESERVED_FLAGS ≠ 0 then throw (gzipHeaderFault .reservedFlags) else pure (flags.headD 0)

/-- `read_header`. -/
def readHeader (checksum : Bytes → UInt32) (copyBuffer : Nat) : Reads Unit := do
  magic
  method
  let flags ← readFlags
  let _ ← field 4
  let _ ← field 1
  let _ ← field 1
  skipExtra flags copyBuffer
  skipText flags FNAME
  skipText flags FCOMMENT
  checkHeaderCrc checksum flags

end HeaderReader

/-! ### The body and the trailer -/

/-- What `inflate` works on: the stored bytes, the inflater, the count of its output and what `crc` has hashed. -/
structure Inflating (σ : Type) where
  body : BufReader
  decompress : σ
  totalOut : Nat
  crc : Bytes
  streamEnded : Bool

namespace Inflating
variable {σ : Type} (inflater : Decoder σ UInt8 UInt8)

abbrev Runs (σ : Type) := EStateM ContentFault (Inflating σ)

def onBody {α : Type} (read : BufReader.Reads α) : Runs σ α :=
  fun m =>
    match read m.body with
    | .ok a body => .ok a { m with body }
    | .error fault body => .error fault { m with body }

/-- Keeps what a call of the inflater came to. -/
def keep (progress : Progress σ UInt8) (room : Nat) : Runs σ Unit := do
  onBody (BufReader.consume progress.consumed)
  if room < progress.produced.length then throw (.malformed .deflateData)
  else
    modify fun m => { m with
      decompress := progress.state
      totalOut := m.totalOut + progress.produced.length
      crc := m.crc ++ progress.produced
      streamEnded := progress.ended }

/-- One round of the loop of `inflate`: what it returns, if it does not go on. -/
def round (room : Nat) : Runs σ (Option Bytes) := do
  let input ← onBody BufReader.fillBuf
  let m ← get
  match inflater.decode m.decompress input room with
  | none => throw (.malformed .deflateData)
  | some progress =>
    keep progress room
    if progress.produced ≠ [] then pure (some progress.produced)
    else if progress.ended then pure (some [])
    else if input.isEmpty then throw (.malformed .truncated)
    else if progress.consumed = 0 then throw (.malformed .deflateData)
    else pure none

/-- Inflates until at least one byte is produced or the stream ends: what is produced, nothing only at its end. -/
def inflate (room : Nat) : Nat → Runs σ Bytes
  | 0 => throw (.malformed .deflateData)
  | fuel + 1 => do
    let m ← get
    if m.streamEnded then pure []
    else
      match ← round inflater room with
      | some produced => pure produced
      | none => inflate room fuel

end Inflating

/-- Probes for anything after the trailer. -/
def verifyEnd : BufReader.Reads Unit := do
  let probe ← BufReader.read 1
  if probe.isEmpty then pure ()
  else if probe ≠ [ID1] then throw (.malformed .gzipTrailingData)
  else
    let probe ← BufReader.read 1
    if probe = [ID2] then throw (.unsupported .concatenatedGzipMember) else throw (.malformed .gzipTrailingData)

/-- Checks the trailer against the checksum and the count of the decoded bytes. -/
def verifyTrailer (sum : UInt32) (decoded : Nat) : BufReader.Reads Unit := do
  let trailer ← BufReader.readFull 8
  if trailer.take 4 ≠ toLE 4 sum.toNat then throw (.malformed .gzipCrc32)
  else if trailer.drop 4 ≠ (toLE 8 decoded).take 4 then throw (.malformed .gzipIsize)
  else verifyEnd

/-! ### The decoder -/

/-- Where the decoder is in the member. -/
inductive Stage
  | header (stored : StreamReader)
  | body (body : BufReader)
  | finished

structure GzipDecoder (σ : Type) where
  stage : Stage
  header : Budget
  copyBuffer : Nat
  inflate : σ
  totalOut : Nat
  crc : Bytes
  streamEnded : Bool
  latch : Latch

namespace GzipDecoder
variable {σ : Type} (inflater : Decoder σ UInt8 UInt8) (checksum : Bytes → UInt32)

abbrev Decodes (σ : Type) := EStateM ContentFault (GzipDecoder σ)

/-- `GzipDecoder::new`. -/
def ofStored (stored : StreamReader) (header : ResourceLimit) (copyBuffer : Nat) : GzipDecoder σ where
  stage := .header stored
  header := .ofLimit header
  copyBuffer := max copyBuffer 1
  inflate := inflater.init
  totalOut := 0
  crc := []
  streamEnded := false
  latch := none

/-- Reads the header, when it is still to be read. -/
def enterBody : Decodes σ Unit :=
  fun d =>
    match d.stage with
    | .header stored =>
      match HeaderReader.readHeader checksum d.copyBuffer ⟨stored, d.header, []⟩ with
      | .error fault h => .error fault { d with
          stage := .header h.stored
          header := h.budget }
      | .ok () h => .ok () { d with
          stage := .body ⟨h.stored, [], d.copyBuffer⟩
          header := h.budget }
    | _ => .ok () d

/-- Inflates from the body into room for so many bytes. -/
def inflateBody (body : BufReader) (room : Nat) : Decodes σ Bytes :=
  fun d =>
    match Inflating.inflate inflater room (body.buffer.length + body.inner.source.bytes.length + 1)
      ⟨body, d.inflate, d.totalOut, d.crc, d.streamEnded⟩ with
    | .error fault m => .error fault { d with
        stage := .body m.body
        inflate := m.decompress
        totalOut := m.totalOut
        crc := m.crc
        streamEnded := m.streamEnded }
    | .ok produced m => .ok produced { d with
        stage := .body m.body
        inflate := m.decompress
        totalOut := m.totalOut
        crc := m.crc
        streamEnded := m.streamEnded }

/-- Verifies what is behind the body, where the decoder is finished. -/
def finish : Decodes σ Unit :=
  fun d =>
    match d.stage with
    | .body body =>
      match verifyTrailer (checksum d.crc) d.totalOut body with
      | .error fault body => .error fault { d with stage := .body body }
      | .ok () _ => .ok () { d with stage := .finished }
    | _ => .ok () d

def decodeBody (room : Nat) : Decodes σ Bytes := do
  let d ← get
  match d.stage with
  | .body body =>
    let produced ← inflateBody inflater body room
    if produced ≠ [] then pure produced
    else
      finish checksum
      pure []
  | _ => pure []

def decode (room : Nat) : Decodes σ Bytes :=
  if room = 0 then pure []
  else do
    enterBody checksum
    decodeBody inflater checksum room

/-- `Read::read`. A fault is terminal: every later call reports it again. -/
def read (room : Nat) : Decodes σ Bytes :=
  fun d =>
    match d.latch.check with
    | .error fault => .error fault d
    | .ok () =>
      match decode inflater checksum room d with
      | .ok bytes d => .ok bytes d
      | .error fault d => .error fault { d with latch := d.latch.record fault }

/-- What reads one after the other deliver, and the end or the fault they come to. -/
structure Delivered where
  bytes : Bytes
  verdict : Option (Except ContentFault Unit)

/-- Reads into buffers of these lengths, until a fault or until nothing is read into one with room. -/
def readAll : List Nat → GzipDecoder σ → Delivered
  | [], _ => ⟨[], none⟩
  | room :: rooms, d =>
    match read inflater checksum room d with
    | .error fault _ => ⟨[], some (.error fault)⟩
    | .ok bytes d =>
      if room ≠ 0 ∧ bytes = [] then ⟨[], some (.ok ())⟩
      else
        let rest := readAll rooms d
        { rest with bytes := bytes ++ rest.bytes }

end GzipDecoder

end DeployCore
