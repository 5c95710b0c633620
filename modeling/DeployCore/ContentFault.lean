import DeployCore.Io
import DeployCore.Limits

/-! # Content faults

The one fault vocabulary of the content primitives, the limits that faults name, and the latch that keeps the
first fault a primitive reported. -/

namespace DeployCore

inductive TarField
  | name
  | mode
  | uid
  | gid
  | size
  | mtime
  | checksum
  | linkname
  | devMajor
  | devMinor
  | pathPrefix
  deriving DecidableEq

inductive PaxKey
  | path
  | linkpath
  | size
  | uid
  | gid
  | uname
  | gname
  | mtime
  | atime
  | ctime
  | xattr
  deriving DecidableEq

inductive GzipHeaderFault
  | magic
  | method
  | reservedFlags
  | headerCrc
  deriving DecidableEq

inductive MalformedReason
  | truncated
  | tarChecksum
  | tarNumericField (field : TarField)
  | tarNameField (field : TarField)
  | offsetOverflow
  | trailingData
  | zeroTailTooLong
  | unsafePath
  | duplicatePath
  | pathConflict
  | nonRegularWithData
  | paxRecord
  | paxDuplicateKey
  | paxValue (key : PaxKey)
  | extensionPayload
  | duplicateExtension
  | conflictingAuthority
  | danglingExtension
  | linkOnNonLink
  | gzipHeader (fault : GzipHeaderFault)
  | deflateData
  | gzipCrc32
  | gzipIsize
  | gzipTrailingData
  | jsonSyntax
  | jsonDuplicateKey
  | jsonShape
  deriving DecidableEq

inductive UnsupportedFeature
  | tarFormat
  | entryType (flag : UInt8)
  | paxKey
  | concatenatedGzipMember
  deriving DecidableEq

/-- The kinds of a source's failure. An interruption is not one: it is retried. -/
inductive SourceErrorKind
  | invalidData
  | other (code : Nat)
  deriving DecidableEq

/-- An `io::Error` of a source: its kind, and the payload it was made with; one made from its kind alone has
none. -/
structure SourceError where
  kind : SourceErrorKind
  payload : Option String
  deriving DecidableEq

/-- The one fault every content primitive reports. -/
inductive ContentFault
  | limitExceeded (resource : LimitResource) (limit : Nat)
  | malformed (reason : MalformedReason)
  | unsupported (feature : UnsupportedFeature)
  | io (err : SourceError)
  deriving DecidableEq

/-- An error that crosses a `Read` boundary: a source's own, or one that carries a fault. -/
inductive ReadError
  | source (err : SourceError)
  | fault (fault : ContentFault)
  deriving DecidableEq

def ContentFault.intoIo (fault : ContentFault) : ReadError :=
  .fault fault

def ContentFault.fromIo : ReadError → ContentFault
  | .source err => .io err
  | .fault fault => fault

/-- One limit handed to a primitive. -/
structure ResourceLimit where
  resource : LimitResource
  max : Nat
  max_le : max ≤ U64_MAX
  deriving DecidableEq

def ResourceLimit.exceeded (limit : ResourceLimit) : ContentFault :=
  .limitExceeded limit.resource limit.max

/-- What a latched fault is reported as again: a source's failure by its kind alone. -/
def ContentFault.replay : ContentFault → ContentFault
  | .io err => .io ⟨err.kind, none⟩
  | fault => fault

@[simp] theorem ContentFault.replay_replay (fault : ContentFault) : fault.replay.replay = fault.replay := by
  cases fault <;> rfl

/-- The first fault a primitive reported, in the form it is reported again. -/
abbrev Latch := Option ContentFault

def Latch.check (latch : Latch) : Except ContentFault Unit :=
  match latch with
  | none => .ok ()
  | some fault => .error fault

def Latch.record (latch : Latch) (fault : ContentFault) : Latch :=
  match latch with
  | none => some fault.replay
  | some first => some first

/-- Bytes of an allocation that a length asks for; a length of the target is one of 64 bits. -/
def allocLen (value : Nat) (limit : ResourceLimit) : Except ContentFault Nat :=
  if limit.max < value then .error limit.exceeded else .ok value

end DeployCore
