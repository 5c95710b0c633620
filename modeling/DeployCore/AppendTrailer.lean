import DeployCore.Extract
import DeployCore.Tail

/-! # Writing a payload

`appendTrailer` measures its inputs in one pass, derives the manifest from what it measured, and in a second pass
writes the inputs behind it as one compressed archive. The tar builder and the compressor are third-party code
(`ArchiveBuilder`); what they write reads back as it was given (`ArchiveBuilder.ReadsBack`). Under that assumption
`appendTrailer_walks` says that the reader's walk passes all that the writer accepts. -/

namespace DeployCore
open Fallible

/-- Why a member's reader disagreed with the length its header states. -/
inductive MemberLengthFault
  | endedEarly (bound read : UInt64)
  | overran (bound : UInt64)
  deriving DecidableEq

/-- `PayloadError`, as far as the writer raises it; an `io::Error` that carries a `MemberLengthFault` is apart. -/
inductive WriteError
  | payload (error : PayloadError)
  | memberLength (fault : MemberLengthFault)
  | invalidManifest (error : ManifestError)
  | manifestSerialize
  | signer (reason : String)
  | archivePathTooLong (path : String) (len : Nat)
  deriving DecidableEq

def WriteError.io (error : IoError) : WriteError := .payload (.io error)

/-- One artifact to embed, and the file that holds its bytes. -/
structure ArtifactInput where
  component : String
  version : String
  commit : String
  targetArch : TargetArch
  kind : ArtifactKind
  dispositions : Finset Disposition
  archivePath : String
  spec : Option ModuleSpec
  image : Option ImageDeclaration
  source : String

/-- What reading a file yields; its length is a `u64`. -/
structure SourceFile where
  stream : Stream
  fits : stream.bytes.length < 2 ^ 64

inductive Pass
  | measuring
  | archiving

/-- The source files, as each of the writer's passes finds them. -/
abbrev Files := Pass → String → Except IoError SourceFile

abbrev Writes := EStateM WriteError Out

def onOut {α : Type} (act : Out → Except PayloadError α × Out) : Writes α :=
  fun out =>
    match act out with
    | (.ok a, out) => .ok a out
    | (.error e, out) => .error (.payload e) out

def writeAll (bs : Bytes) : Writes Unit :=
  onOut fun out => ((liftIo (out.writeAll bs).1), (out.writeAll bs).2)

def copyAll (stream : Stream) : Writes Nat :=
  onOut fun out => ((liftIo (out.copy stream).1), (out.copy stream).2)

/-! ### The archive block -/

/-- The fields the writer sets in a fresh GNU header. -/
structure MemberHeader where
  name : Bytes
  size : UInt64
  mode : UInt32
  mtime : UInt64
  entryType : EntryType
  deriving DecidableEq

/-- A tar builder over a compressor. Each step yields the bytes it hands on. -/
structure ArchiveBuilder where
  State : Type
  /-- `Header::set_path`: the name field. -/
  setPath : String → Option Bytes
  start : Except IoError State
  /-- Takes a header and its member's data. -/
  append : State → MemberHeader → Bytes → Except IoError (State × Bytes)
  finish : State → Except IoError Bytes

inductive MemberLength
  | legacy
  | exact
  deriving DecidableEq

/-- What `ExactLength` lets through of a reader, and what it fails with. -/
def exactLength (bound : UInt64) (stream : Stream) : Bytes × Option WriteError :=
  if stream.bytes.length < bound.toNat then
    match stream.fault with
    | some e => (stream.bytes, some (.io e))
    | none => (stream.bytes, some (.memberLength (.endedEarly bound (.ofNat stream.bytes.length))))
  else if bound.toNat < stream.bytes.length then (stream.bytes.take bound.toNat, some (.memberLength (.overran bound)))
  else (stream.bytes, stream.fault.map WriteError.io)

def MemberLength.read : MemberLength → UInt64 → Stream → Bytes × Option WriteError
  | .legacy, _, stream => (stream.bytes, stream.fault.map WriteError.io)
  | .exact, bound, stream => exactLength bound stream

/-- Appends the members and counts the bytes that were handed on. What a builder that is dropped behind a fault still
hands on is left out. -/
def appendMembers (builder : ArchiveBuilder) (policy : MemberLength) :
    builder.State → Nat → List (Except WriteError (String × UInt64 × Stream)) → Writes (builder.State × Nat)
  | s, count, [] => pure (s, count)
  | s, count, member :: members => do
    let (archivePath, length, stream) ← lift member
    match builder.setPath archivePath with
    | none => throw (.archivePathTooLong archivePath (byteLen archivePath))
    | some name =>
      let header : MemberHeader := { name, size := length, mode := 0o644, mtime := 0, entryType := .regular }
      let (data, fault) := policy.read length stream
      let (s, emitted) ← lift ((builder.append s header data).mapError .io)
      writeAll emitted
      match fault with
      | some e => throw e
      | none => appendMembers builder policy s (count + emitted.length) members

/-- Writes the archive block and returns its compressed length. -/
def writeArchiveBlock (builder : ArchiveBuilder) (policy : MemberLength)
    (members : List (Except WriteError (String × UInt64 × Stream))) : Writes UInt64 := do
  let s ← lift (builder.start.mapError .io)
  let (s, count) ← appendMembers builder policy s 0 members
  let last ← lift ((builder.finish s).mapError .io)
  writeAll last
  pure (.ofNat (count + last.length))

/-! ### The writer -/

/-- What the writer is given by its surroundings. -/
structure WriterHost where
  lib : Externals
  base64Encode : Bytes → String
  /-- `serde_json::to_vec` of a text. -/
  printJson : Json.Text → Option Bytes
  builder : ArchiveBuilder
  files : Files

/-- Streams a reader through a hasher into `out`. -/
def hashCopy (lib : Externals) (stream : Stream) (out : Out) : Except IoError (String × UInt64) × Out :=
  match out.copy stream with
  | (.error e, out) => (.error e, out)
  | (.ok length, out) => (.ok (toHex (lib.sha256 stream.bytes), .ofNat length), out)

/-- An input with the digest and the length that were measured of it. -/
structure MeasuredInput where
  input : ArtifactInput
  sha256 : String
  length : UInt64

def measureInput (lib : Externals) (files : Files) (input : ArtifactInput) : Except WriteError MeasuredInput := do
  let file ← (files .measuring input.source).mapError .io
  let (sha256, length) ← (hashCopy lib file.stream (.ofBytes [])).1.mapError .io
  .ok ⟨input, sha256, length⟩

def MeasuredInput.archiveMember (m : MeasuredInput) : ArchiveMember := ⟨m.input.archivePath, m.length⟩

def MeasuredInput.artifact (m : MeasuredInput) : PayloadArtifact where
  component := m.input.component
  version := m.input.version
  commit := some m.input.commit
  targetArch := m.input.targetArch
  kind := m.input.kind
  dispositions := m.input.dispositions
  archivePath := m.input.archivePath
  sha256 := m.sha256
  spec := m.input.spec
  image := m.input.image

/-- The manifest a package of the measured inputs binds. -/
def deriveManifest (pinset : Option String) (trustSet : Option Bytes) (measured : List MeasuredInput) :
    Except ManifestError PayloadManifest := do
  let manifest ← PayloadManifest.new pinset (measured.map MeasuredInput.archiveMember) (measured.map MeasuredInput.artifact)
  match trustSet with
  | some generation => manifest.withTrustSet generation
  | none => .ok manifest

/-- What the second pass hands to the archive block: the source is opened again. -/
def MeasuredInput.member (files : Files) (m : MeasuredInput) : Except WriteError (String × UInt64 × Stream) := do
  let file ← (files .archiving m.input.source).mapError .io
  .ok (m.input.archivePath, m.length, file.stream)

def appendTrailerWithSigner (host : WriterHost) (base : Stream) (pinset : Option String) (trustSet : Option Bytes)
    (inputs : List ArtifactInput) (sign : Bytes → Except String (Option Signed)) : Writes Unit := do
  let measured ← lift (Checks.collect (measureInput host.lib host.files) inputs)
  let manifest ← lift ((deriveManifest pinset trustSet measured).mapError .invalidManifest)
  let manifestJson ← lift (match host.printJson (manifest.serialize host.base64Encode) with
    | some manifestJson => .ok manifestJson
    | none => .error .manifestSerialize)
  let signed ← lift ((sign manifestJson).mapError .signer)
  lift (signed.elim (.ok ()) fun signed => (validateSigned signed).mapError .payload)
  let manifestOffset ← copyAll base
  writeAll manifestJson
  let archiveLen ← writeArchiveBlock host.builder .legacy (measured.map (MeasuredInput.member host.files))
  onOut fun out => writeStandaloneTail out (.ofNat manifestOffset) (.ofNat manifestJson.length) archiveLen signed

def appendTrailer (host : WriterHost) (base : Stream) (pinset : Option String) (trustSet : Option Bytes)
    (inputs : List ArtifactInput) : Writes Unit :=
  appendTrailerWithSigner host base pinset trustSet inputs fun _ => .ok none

def appendTrailerSigned (host : WriterHost) (base : Stream) (pinset : Option String) (trustSet : Option Bytes)
    (inputs : List ArtifactInput) (sign : Bytes → Except String Signed) : Writes Unit :=
  appendTrailerWithSigner host base pinset trustSet inputs fun manifest => (sign manifest).map some

/-! ### The third-party code -/

/-- The entry a reader that finds a plain header and its whole member yields. -/
def MemberHeader.entry (header : MemberHeader) (data : Bytes) : ArchiveEntry :=
  ⟨header.entryType, header.name, header.name, .ok header.size, header.size, ⟨data, none⟩⟩

namespace ArchiveBuilder
variable (builder : ArchiveBuilder)

/-- A run of the builder over whole members. -/
def appendAll : builder.State → List (MemberHeader × Bytes) → Except IoError (builder.State × Bytes)
  | s, [] => .ok (s, [])
  | s, (header, data) :: members => do
    let (s, emitted) ← builder.append s header data
    let (s, rest) ← appendAll s members
    .ok (s, emitted ++ rest)

def block (members : List (MemberHeader × Bytes)) : Except IoError Bytes := do
  let s ← builder.start
  let (s, emitted) ← builder.appendAll s members
  let last ← builder.finish s
  .ok (emitted ++ last)

/-- A regular member under a safe path that fits the name field, of the length its header states. -/
structure Plain (member : MemberHeader × Bytes) : Prop where
  regular : member.1.entryType = .regular
  named : ∃ path, isSafeArchivePath path = true ∧ builder.setPath path = some member.1.name
  sized : member.1.size.toNat = member.2.length

/-- The archive library and the compressor on both sides: a safe path is stored as it is, and a block of plain members
decodes to them, with the second half of the end-of-archive marker behind them. -/
structure ReadsBack (decode : ArchiveDecoder) : Prop where
  path : ∀ path name, isSafeArchivePath path = true → builder.setPath path = some name → name = asBytes path
  block : ∀ members block, (∀ member ∈ members, builder.Plain member) → builder.block members = .ok block →
    ∃ archive, decode ⟨block, none⟩ = .ok archive ∧
      archive.entries = members.map (fun member => .ok (member.1.entry member.2)) ∧
      readToEnd archive.trailing = .ok (List.replicate TAR_BLOCK_SIZE 0)

end ArchiveBuilder

/-! ### What is accepted -/

theorem Out.writeAll_ok {out out' : Out} {bs : Bytes} (h : out.writeAll bs = (.ok (), out')) :
    out'.written = out.written ++ bs := by
  unfold Out.writeAll at h
  split at h
  · cases h
    rfl
  · split at h <;> cases h
    rfl

theorem Out.copy_ok {out out' : Out} {stream : Stream} {n : Nat} (h : out.copy stream = (.ok n, out')) :
    stream.fault = none ∧ n = stream.bytes.length ∧ out'.written = out.written ++ stream.bytes := by
  unfold Out.copy at h
  split at h
  · cases h
  next hwritten =>
  split at h <;> cases h
  next hwhole => exact ⟨hwhole, rfl, Out.writeAll_ok hwritten⟩

theorem Out.writeEach_ok {out out' : Out} {runs : List Bytes} (h : out.writeEach runs = (.ok (), out')) :
    out'.written = out.written ++ runs.flatten := by
  induction runs generalizing out with
  | nil =>
    cases h
    exact (List.append_nil _).symm
  | cons bs runs ih =>
    unfold Out.writeEach at h
    split at h
    next out₁ hfirst => rw [ih h, Out.writeAll_ok hfirst, List.flatten_cons, List.append_assoc]
    · cases h

theorem onOut_ok {α : Type} {act : Out → Except PayloadError α × Out} {out out' : Out} {a : α}
    (h : onOut act out = .ok a out') : act out = (.ok a, out') := by
  unfold onOut at h
  split at h <;> cases h
  assumption

theorem writeAll_ok {bs : Bytes} {out out' : Out} (h : writeAll bs out = .ok () out') :
    out'.written = out.written ++ bs := by
  have hact := onOut_ok h
  have hfirst : liftIo (out.writeAll bs).1 = .ok () := (Prod.mk.inj hact).1
  exact Out.writeAll_ok (Prod.ext (Checks.mapError_ok.mp hfirst) (Prod.mk.inj hact).2)

theorem copyAll_ok {stream : Stream} {out out' : Out} {n : Nat} (h : copyAll stream out = .ok n out') :
    out'.written = out.written ++ stream.bytes := by
  have hact := onOut_ok h
  have hfirst : liftIo (out.copy stream).1 = .ok n := (Prod.mk.inj hact).1
  exact (Out.copy_ok (Prod.ext (Checks.mapError_ok.mp hfirst) (Prod.mk.inj hact).2)).2.2

/-- What was measured of an input: the file's digest and its length. -/
structure MeasuredInput.Of (lib : Externals) (files : Files) (input : ArtifactInput) (m : MeasuredInput) (file : SourceFile) :
    Prop where
  same : m.input = input
  found : files .measuring input.source = .ok file
  whole : file.stream.fault = none
  sha256 : m.sha256 = toHex (lib.sha256 file.stream.bytes)
  length : m.length.toNat = file.stream.bytes.length

theorem measureInput_ok {lib : Externals} {files : Files} {input : ArtifactInput} {m : MeasuredInput}
    (h : measureInput lib files input = .ok m) : ∃ file, m.Of lib files input file := by
  obtain ⟨file, hfile, h⟩ := Checks.bind_ok h
  obtain ⟨⟨sha256, length⟩, hhash, h⟩ := Checks.bind_ok h
  cases h
  have hhash := Checks.mapError_ok.mp hhash
  rcases hcopy : (Out.ofBytes []).copy file.stream with ⟨_ | n, out⟩
  · rw [hashCopy, hcopy] at hhash
    cases hhash
  · rw [hashCopy, hcopy] at hhash
    cases hhash
    obtain ⟨hwhole, rfl, -⟩ := Out.copy_ok hcopy
    exact ⟨file, rfl, Checks.mapError_ok.mp hfile, hwhole, rfl, Checked.toNat_ofNat file.fits⟩

/-- The builder takes an input's bytes as the second pass finds them. -/
structure ArchiveBuilder.Takes (builder : ArchiveBuilder) (files : Files) (m : MeasuredInput) (member : MemberHeader × Bytes) :
    Prop where
  path : builder.setPath m.input.archivePath = some member.1.name
  header : member.1.size = m.length ∧ member.1.entryType = .regular
  file : ∃ file, files .archiving m.input.source = .ok file ∧ member.2 = file.stream.bytes

theorem appendMembers_ok {builder : ArchiveBuilder} {files : Files} {measured : List MeasuredInput}
    {s s' : builder.State} {count count' : Nat} {out out' : Out}
    (h : appendMembers builder .legacy s count (measured.map (MeasuredInput.member files)) out = .ok (s', count') out') :
    ∃ members emitted, List.Forall₂ (builder.Takes files) measured members ∧
      builder.appendAll s members = .ok (s', emitted) ∧ out'.written = out.written ++ emitted := by
  induction measured generalizing s count out with
  | nil =>
    cases h
    exact ⟨[], [], .nil, rfl, (List.append_nil _).symm⟩
  | cons m measured ih =>
    obtain ⟨⟨archivePath, length, stream⟩, hmember, h⟩ := lift_bind_ok h
    obtain ⟨file, hfile, hmember⟩ := Checks.bind_ok hmember
    cases hmember
    rcases hname : builder.setPath m.input.archivePath with _ | name
    · simp only [hname] at h
      cases h
    simp only [hname] at h
    obtain ⟨⟨s₁, emitted⟩, happend, h⟩ := lift_bind_ok h
    obtain ⟨_, out₁, hwrite, h⟩ := bind_ok h
    rcases hfault : file.stream.fault with _ | e <;> simp only [MemberLength.read, hfault, Option.map] at h
    case some => cases h
    obtain ⟨members, rest, htaken, hrest, hwritten⟩ := ih h
    refine ⟨(⟨name, m.length, 0o644, 0, .regular⟩, file.stream.bytes) :: members, emitted ++ rest,
      .cons ⟨hname, ⟨rfl, rfl⟩, file, Checks.mapError_ok.mp hfile, rfl⟩ htaken, ?_, ?_⟩
    · have happend := Checks.mapError_ok.mp happend
      simp only [ArchiveBuilder.appendAll, MemberLength.read] at happend ⊢
      simp only [happend, hrest, bind, Except.bind]
    · rw [hwritten, writeAll_ok hwrite, List.append_assoc]

theorem writeStandaloneTail_ok {manifestOffset manifestLen archiveLen : UInt64} {signed : Option Signed} {out out' : Out}
    (h : writeStandaloneTail out manifestOffset manifestLen archiveLen signed = (.ok (), out')) :
    ∃ tail, out'.written = out.written ++ tail := by
  unfold writeStandaloneTail at h
  split at h
  · cases h
  next footer hfooter =>
  obtain ⟨hwritten, rfl⟩ := Prod.mk.inj h
  exact ⟨_, Out.writeEach_ok (Prod.ext (Checks.mapError_ok.mp hwritten) rfl)⟩

theorem writeArchiveBlock_ok {builder : ArchiveBuilder} {files : Files} {measured : List MeasuredInput} {len : UInt64}
    {out out' : Out}
    (h : writeArchiveBlock builder .legacy (measured.map (MeasuredInput.member files)) out = .ok len out') :
    ∃ members block, List.Forall₂ (builder.Takes files) measured members ∧ builder.block members = .ok block ∧
      out'.written = out.written ++ block := by
  obtain ⟨s, hstart, h⟩ := lift_bind_ok h
  obtain ⟨⟨s₁, count⟩, out₁, hmembers, h⟩ := bind_ok h
  obtain ⟨members, emitted, htaken, hall, hwritten⟩ := appendMembers_ok hmembers
  obtain ⟨last, hlast, h⟩ := lift_bind_ok h
  obtain ⟨_, out₂, hwrite, h⟩ := bind_ok h
  cases h
  refine ⟨members, emitted ++ last, htaken, ?_, ?_⟩
  · simp only [ArchiveBuilder.block, Checks.mapError_ok.mp hstart, hall, Checks.mapError_ok.mp hlast, bind, Except.bind]
  · rw [writeAll_ok hwrite, hwritten, List.append_assoc]

/-! ### The manifest -/

/-- A typed image resolves to itself. -/
theorem resolveImage_typed_eq {formatVersion : Option UInt32} {artifact : PayloadArtifact} {declared resolved : Option ImageDeclaration}
    (h : resolveImage formatVersion artifact (declared.elim .absent .typed) = .ok resolved) : resolved = declared := by
  unfold resolveImage at h
  rcases formatVersion with _ | version
  · cases declared <;> cases h
    rfl
  dsimp only at h
  split at h
  · cases declared <;> cases h
    rfl
  split at h
  · cases declared <;> cases h
    rfl
  obtain ⟨declaration, hsource, h⟩ := Checks.bind_ok h
  obtain ⟨_, -, h⟩ := Checks.bind_ok h
  cases h
  cases declared <;> cases hsource
  rfl

theorem PayloadManifest.new_ok {pinset : Option String} {archiveMembers : List ArchiveMember}
    {artifacts : List PayloadArtifact} {m : PayloadManifest} (h : new pinset archiveMembers artifacts = .ok m) :
    m.artifacts = artifacts ∧ m.archiveMembers = some archiveMembers := by
  unfold PayloadManifest.new PayloadManifest.fromParts at h
  obtain ⟨_, -, h⟩ := Checks.bind_ok h
  obtain ⟨_, -, h⟩ := Checks.bind_ok h
  obtain ⟨collected, hcollected, h⟩ := Checks.bind_ok h
  obtain ⟨_, -, h⟩ := Checks.bind_ok h
  cases h
  refine ⟨?_, rfl⟩
  have hcomplete := List.forall₂_map_left_iff.mp (Checks.collectDistinct_ok hcollected).2.2.2
  have hsame : List.Forall₂ Eq artifacts collected := hcomplete.imp fun artifact artifact' h => by
    obtain ⟨_, -, h⟩ := Checks.bind_ok h
    obtain ⟨_, -, h⟩ := Checks.bind_ok h
    obtain ⟨image, himage, h⟩ := Checks.bind_ok h
    cases h
    rw [resolveImage_typed_eq himage]
  exact (List.forall₂_eq_eq_eq ▸ hsame : artifacts = collected).symm

theorem deriveManifest_ok {lib : Externals} {pinset : Option String} {trustSet : Option Bytes} {measured : List MeasuredInput}
    {m : PayloadManifest} (h : deriveManifest pinset trustSet measured = .ok m) :
    m.Obtained lib .new ∧ m.artifacts = measured.map MeasuredInput.artifact ∧
      m.archiveMembers = some (measured.map MeasuredInput.archiveMember) := by
  obtain ⟨m₀, hnew, h⟩ := Checks.bind_ok h
  obtain ⟨hartifacts, hmembers⟩ := PayloadManifest.new_ok hnew
  have hobtained : m₀.Obtained lib .new := .new hnew
  rcases trustSet with _ | generation
  · cases h
    exact ⟨hobtained, hartifacts, hmembers⟩
  · have hset : m₀.withTrustSet generation = .ok m := h
    refine ⟨.withTrustSet hobtained hset, ?_⟩
    rw [hobtained.sound.withTrustSet_eq] at hset
    obtain ⟨_, -, rfl⟩ := Checks.map_ok hset
    exact ⟨hartifacts, hmembers⟩

/-! ### The round trip -/

theorem eqIgnoreAsciiCase_self (s : String) : eqIgnoreAsciiCase s s = true :=
  beq_self_eq_true _

/-- The member an input is walked as: its archive path, and its file's bytes. -/
structure ArtifactInput.WalkedAs (files : Files) (input : ArtifactInput) (member : ArchiveEntry × PayloadArtifact) : Prop where
  path : member.2.archivePath = input.archivePath
  name : member.1.resolvedName = asBytes input.archivePath
  data : ∃ file, files .measuring input.source = .ok file ∧ member.1.data = ⟨file.stream.bytes, none⟩

/-- A measured input, and what the second pass has written of it. -/
structure MeasuredInput.Written (lib : Externals) (builder : ArchiveBuilder) (m : MeasuredInput) (member : MemberHeader × Bytes) :
    Prop where
  safe : isSafeArchivePath m.input.archivePath = true
  named : builder.setPath m.input.archivePath = some member.1.name
  name : member.1.name = asBytes m.input.archivePath
  regular : member.1.entryType = .regular
  sized : member.1.size.toNat = member.2.length
  length : m.length = .ofNat member.2.length
  sha256 : m.sha256 = toHex (lib.sha256 member.2)

namespace MeasuredInput.Written
variable {lib : Externals} {builder : ArchiveBuilder} {m : MeasuredInput} {member : MemberHeader × Bytes}

theorem plain (h : m.Written lib builder member) : builder.Plain member :=
  ⟨h.regular, ⟨m.input.archivePath, h.safe, h.named⟩, h.sized⟩

theorem holds (h : m.Written lib builder member) : (member.1.entry member.2).Holds lib m.artifact := by
  refine ⟨h.regular, rfl, rfl, ?_, h.safe, rfl, ?_⟩
  · show String.fromUTF8? member.1.name.toByteArray = _
    rw [h.name]
    exact fromUTF8?_asBytes _
  · show eqIgnoreAsciiCase (toHex (lib.sha256 member.2)) m.sha256 = true
    rw [h.sha256]
    exact eqIgnoreAsciiCase_self _

theorem member_eq (h : m.Written lib builder member) : (member.1.entry member.2).member m.artifact = m.archiveMember := by
  rw [MeasuredInput.archiveMember, h.length]
  rfl

end MeasuredInput.Written

section
variable {lib : Externals} {builder : ArchiveBuilder} {files : Files} {manifest : PayloadManifest} {archive : DecodedArchive}
  {measured : List MeasuredInput} {members : List (MemberHeader × Bytes)} {inputs : List ArtifactInput}

/-- What is written of measured inputs whose files have not changed. -/
theorem written_of_takes {decode : ArchiveDecoder} {input : ArtifactInput} {m : MeasuredInput} {file : SourceFile}
    {member : MemberHeader × Bytes} (hreads : builder.ReadsBack decode) (hof : m.Of lib files input file)
    (hunchanged : files .archiving input.source = files .measuring input.source)
    (hsafe : isSafeArchivePath m.input.archivePath = true) (htakes : builder.Takes files m member) :
    m.Written lib builder member ∧ input.WalkedAs files (member.1.entry member.2, m.artifact) := by
  obtain ⟨rfl, hfound, -, hsha, hlength⟩ := hof
  obtain ⟨hpath, ⟨hsize, hregular⟩, file', hfile', hdata⟩ := htakes
  obtain rfl : file = file' := Except.ok.inj (hfound.symm.trans (hunchanged.symm.trans hfile'))
  have hname := hreads.path _ _ hsafe hpath
  have hsized : member.1.size.toNat = member.2.length := by
    rw [hsize, hdata]
    exact hlength
  refine ⟨⟨hsafe, hpath, hname, hregular, hsized, ?_, hdata ▸ hsha⟩, rfl, hname, file, hfound, ?_⟩
  · rw [← hsized, hsize, UInt64.ofNat_toNat]
  · show MemberData.mk member.2 none = _
    rw [hdata]

theorem written_of_inputs {decode : ArchiveDecoder} (hreads : builder.ReadsBack decode)
    (hmeasured : List.Forall₂ (fun input m => measureInput lib files input = .ok m) inputs measured)
    (hunchanged : ∀ input ∈ inputs, files .archiving input.source = files .measuring input.source)
    (hsafe : ∀ m ∈ measured, isSafeArchivePath m.input.archivePath = true)
    (htakes : List.Forall₂ (builder.Takes files) measured members) :
    List.Forall₂ (MeasuredInput.Written lib builder) measured members ∧
      List.Forall₂ (fun input member => input.WalkedAs files member) inputs
        (List.zipWith (fun m member => (member.1.entry member.2, m.artifact)) measured members) := by
  induction hmeasured generalizing members with
  | nil =>
    cases htakes
    exact ⟨.nil, .nil⟩
  | cons hfirst _ ih =>
    obtain _ | ⟨htake, htakes⟩ := htakes
    obtain ⟨hsame, hunchanged⟩ := List.forall_mem_cons.mp hunchanged
    obtain ⟨hpath, hsafe⟩ := List.forall_mem_cons.mp hsafe
    obtain ⟨file, hof⟩ := measureInput_ok hfirst
    obtain ⟨hwritten, hwalked⟩ := written_of_takes hreads hof hsame hpath htake
    obtain ⟨hrest, hrestWalked⟩ := ih hunchanged hsafe htakes
    exact ⟨.cons hwritten hrest, .cons hwalked hrestWalked⟩

theorem plain_of_written (h : List.Forall₂ (MeasuredInput.Written lib builder) measured members) :
    ∀ member ∈ members, builder.Plain member := by
  induction h with
  | nil => exact fun _ hmem => absurd hmem List.not_mem_nil
  | cons hfirst _ ih => exact List.forall_mem_cons.mpr ⟨hfirst.plain, ih⟩

/-- What is written of the measured inputs is an archive that the derived manifest admits. -/
theorem admits_of_written (hsound : manifest.Sound) (hartifacts : manifest.artifacts = measured.map MeasuredInput.artifact)
    (hbound : manifest.archiveMembers = some (measured.map MeasuredInput.archiveMember))
    (hwritten : List.Forall₂ (MeasuredInput.Written lib builder) measured members)
    (hentries : archive.entries = members.map fun member => .ok (member.1.entry member.2))
    (htail : readToEnd archive.trailing = .ok (List.replicate TAR_BLOCK_SIZE 0)) :
    manifest.Admits lib archive (List.zipWith (fun m member => (member.1.entry member.2, m.artifact)) measured members) := by
  have hartifactsOf : (List.zipWith (fun (m : MeasuredInput) (member : MemberHeader × Bytes) =>
      (member.1.entry member.2, m.artifact)) measured members).map Prod.snd = manifest.artifacts := by
    rw [hartifacts, List.map_zipWith]
    clear hartifacts hbound hentries
    induction hwritten with
    | nil => rfl
    | cons _ _ ih => exact congrArg _ ih
  refine ⟨?_, ?_, fun artifact hmem => hartifactsOf ▸ hmem, ?_, ?_⟩
  · have hmem : ∀ m ∈ measured, m.artifact ∈ manifest.artifacts := fun m hm => hartifacts ▸ List.mem_map_of_mem hm
    rw [hentries]
    clear hartifactsOf hartifacts hbound hentries
    induction hwritten with
    | nil => exact .nil
    | cons hfirst _ ih =>
      obtain ⟨hhead, hrest⟩ := List.forall_mem_cons.mp hmem
      exact .cons ⟨rfl, hhead, hfirst.holds⟩ (ih hrest)
  · have hpaths := hsound.nodup
    rw [← hartifactsOf, List.map_map] at hpaths
    exact hpaths
  · exact ⟨_, htail, by simp [MAX_END_OF_ARCHIVE_BYTES], fun _ hmem => List.eq_of_mem_replicate hmem⟩
  · rw [hbound]
    rintro _ ⟨⟩
    rw [List.map_zipWith]
    clear hartifactsOf hartifacts hbound hentries
    induction hwritten with
    | nil => rfl
    | cons hfirst _ ih =>
      rw [List.zipWith_cons_cons, List.map_cons, ih]
      exact congrArg (· :: _) hfirst.member_eq

end

/-- What the writer has accepted, the reader's walk passes: it hands every member over, in the order of the inputs,
under its exact path and with its exact bytes, and the list it walks is the one the manifest binds. -/
theorem appendTrailer_walks {host : WriterHost} {decode : ArchiveDecoder} (hreads : host.builder.ReadsBack decode)
    {base : Stream} {pinset : Option String} {trustSet : Option Bytes} {inputs : List ArtifactInput}
    {sign : Bytes → Except String (Option Signed)} {out out' : Out}
    (hunchanged : ∀ input ∈ inputs, host.files .archiving input.source = host.files .measuring input.source)
    (haccepted : appendTrailerWithSigner host base pinset trustSet inputs sign out = .ok () out') :
    ∃ measured manifest manifestJson block tail archive taken,
      Checks.collect (measureInput host.lib host.files) inputs = .ok measured ∧
      deriveManifest pinset trustSet measured = .ok manifest ∧
      host.printJson (manifest.serialize host.base64Encode) = some manifestJson ∧
      out'.written = out.written ++ base.bytes ++ manifestJson ++ block ++ tail ∧
      decode ⟨block, none⟩ = .ok archive ∧ archive.entries = taken.map (fun member => .ok member.1) ∧
      List.Forall₂ (fun input member => input.WalkedAs host.files member) inputs taken ∧
      ∀ {σ ε : Type} (sink : MemberSink σ ε) (s : σ) (membersLimit : Option UInt64),
        sink.Honest host.lib → sink.Willing → (∀ limit, membersLimit = some limit → inputs.length ≤ limit.toNat) →
          ∃ s' w, sink.Feeds host.lib s taken s' ∧
            walkEntries sink manifest membersLimit archive (.new s) = .ok () w ∧ w.sink = s' ∧
            manifest.archiveMembers = some w.walked := by
  obtain ⟨measured, hmeasured, h⟩ := lift_bind_ok haccepted
  obtain ⟨manifest, hmanifest, h⟩ := lift_bind_ok h
  have hmanifest := Checks.mapError_ok.mp hmanifest
  obtain ⟨manifestJson, hjson, h⟩ := lift_bind_ok h
  obtain ⟨signed, hsigned, h⟩ := lift_bind_ok h
  obtain ⟨_, -, h⟩ := lift_bind_ok h
  obtain ⟨manifestOffset, out₁, hbase, h⟩ := bind_ok h
  obtain ⟨_, out₂, hwrite, h⟩ := bind_ok h
  obtain ⟨archiveLen, out₃, hblock, h⟩ := bind_ok h
  obtain ⟨members, block, htakes, hrun, hwritten⟩ := writeArchiveBlock_ok hblock
  obtain ⟨tail, htail⟩ := writeStandaloneTail_ok (onOut_ok h)
  have hjson : host.printJson (manifest.serialize host.base64Encode) = some manifestJson := by
    split at hjson <;> cases hjson
    assumption
  obtain ⟨hobtained, hartifacts, hbound⟩ := @deriveManifest_ok host.lib _ _ _ _ hmanifest
  have hsafe (m : MeasuredInput) (hm : m ∈ measured) : isSafeArchivePath m.input.archivePath = true :=
    (checkArtifactPath_ok (hobtained.sound.artifacts m.artifact (hartifacts ▸ List.mem_map_of_mem hm)).path).2
  obtain ⟨hforall, hwalked⟩ := written_of_inputs hreads (Checks.collect_ok hmeasured) hunchanged hsafe htakes
  obtain ⟨archive, hdecode, hentries, htrailing⟩ := hreads.block members block (plain_of_written hforall) hrun
  have hadmits := admits_of_written hobtained.sound hartifacts hbound hforall hentries htrailing
  refine ⟨measured, manifest, manifestJson, block, tail, archive, _, hmeasured, hmanifest, hjson, ?_, hdecode, ?_, hwalked, ?_⟩
  · rw [htail, hwritten, writeAll_ok hwrite, copyAll_ok hbase]
  · refine List.forall₂_eq_eq_eq ▸ List.forall₂_map_right_iff.mpr (hadmits.members.imp ?_)
    exact fun _ _ hmember => hmember.1
  · intro σ ε sink s membersLimit hsink hwilling hlimit
    obtain ⟨s', hfeeds⟩ := hwilling.feeds hsink s fun member hmember => (isMember_of_mem hadmits.members hmember).2.whole
    obtain ⟨w, hwalk, hw, hlist⟩ := walkEntries_feeds hobtained.sound.nodup (hwalked.length_eq ▸ hlimit) hadmits hfeeds
    refine ⟨s', w, hfeeds, hwalk, hw, ?_⟩
    rw [hlist, hbound, hadmits.bound _ hbound]

/-! ### One file -/

/-- An input of three bytes, under the path `a`. -/
def oneFileInput : ArtifactInput where
  component := "notes"
  version := "1"
  commit := "039058c6f2c0cb492c533b0a4d14ef77cc0f78ab"
  targetArch := .x86_64
  kind := .staticAssets
  dispositions := {.stage}
  archivePath := "a"
  spec := none
  image := none
  source := "/tmp/a"

def oneFileHeader : MemberHeader := ⟨asBytes "a", 3, 0o644, 0, .regular⟩

/-- The archive of that file, in a frame that compresses nothing. -/
def oneFileBlock : Bytes :=
  [0x28, 0xb5, 0x2f, 0xfd, 0x60, 0x00, 0x07, 0x01, 0x40, 0x00] ++
    asBytes "a" ++ List.replicate 99 0 ++ asBytes "0000644\x00" ++ List.replicate 16 0 ++
    asBytes "00000000003\x0000000000000\x000004601\x000" ++ List.replicate 100 0 ++ asBytes "ustar  \x00" ++
    List.replicate 247 0 ++ [1, 2, 3] ++ List.replicate 509 0 ++ List.replicate 1024 0

/-- A builder that takes that file and no other. -/
def oneFileBuilder : ArchiveBuilder where
  State := Bool
  setPath path := if byteLen path ≤ 100 ∧ 0 ∉ asBytes path then some (asBytes path) else none
  start := .ok false
  append taken header data :=
    if taken = false ∧ header = oneFileHeader ∧ data = [1, 2, 3] then .ok (true, []) else .error (.os (.other 0))
  finish taken := if taken then .ok oneFileBlock else .error (.os (.other 0))

def oneFileDecode : ArchiveDecoder := fun stream =>
  if stream = ⟨oneFileBlock, none⟩ then .ok oneMemberArchive else .error .unreadableFrame

def oneFileHost : WriterHost where
  lib := { PayloadManifest.signedExternals with
    sha256 := fun _ => [
      3, 144, 88, 198, 242, 192, 203, 73, 44, 83, 59, 10, 77, 20, 239, 119, 204, 15, 120, 171, 204, 206, 213, 40, 125, 132,
      161, 162, 1, 28, 251, 129] }
  base64Encode _ := ""
  printJson _ := some (asBytes ("\x7b\"format_version\":9,\"archive_members\":[\x7b\"name\":\"a\",\"length\":3\x7d]," ++
    "\"artifacts\":[\x7b\"component\":\"notes\",\"version\":\"1\"," ++
    "\"commit\":\"039058c6f2c0cb492c533b0a4d14ef77cc0f78ab\",\"target_arch\":\"x86_64\",\"kind\":\"static-assets\"," ++
    "\"dispositions\":[\"stage\"],\"archive_path\":\"a\"," ++
    "\"sha256\":\"039058c6f2c0cb492c533b0a4d14ef77cc0f78abccced5287d84a1a2011cfb81\"\x7d]\x7d"))
  builder := oneFileBuilder
  files _ path := if path = "/tmp/a" then .ok ⟨⟨[1, 2, 3], none⟩, by decide⟩ else .error (.os .notFound)

theorem append_oneFileBuilder {taken taken' : Bool} {member : MemberHeader × Bytes} {emitted : Bytes}
    (h : oneFileBuilder.append taken member.1 member.2 = .ok (taken', emitted)) :
    taken = false ∧ member = (oneFileHeader, [1, 2, 3]) ∧ taken' = true ∧ emitted = [] := by
  simp only [oneFileBuilder] at h
  split at h <;> cases h
  next htaken => exact ⟨htaken.1, Prod.ext htaken.2.1 htaken.2.2, rfl, rfl⟩

theorem readsBack_oneFileBuilder : oneFileBuilder.ReadsBack oneFileDecode := by
  refine ⟨fun path name _ h => ?_, fun members block _ h => ?_⟩
  · simp only [oneFileBuilder] at h
    split at h <;> cases h
    rfl
  · unfold ArchiveBuilder.block at h
    obtain ⟨_, hstart, h⟩ := Checks.bind_ok h
    cases hstart
    obtain ⟨⟨taken, emitted⟩, hall, h⟩ := Checks.bind_ok h
    obtain ⟨last, hfinish, h⟩ := Checks.bind_ok h
    cases h
    rcases members with _ | ⟨first, _ | ⟨second, members⟩⟩
    · cases hall
      cases hfinish
    · obtain ⟨⟨_, _⟩, hfirst, hall⟩ := Checks.bind_ok hall
      obtain ⟨-, rfl, rfl, rfl⟩ := append_oneFileBuilder hfirst
      cases hall
      cases hfinish
      exact ⟨oneMemberArchive, if_pos rfl, rfl, congrArg Except.ok (List.append_nil _)⟩
    · obtain ⟨⟨_, _⟩, hfirst, hall⟩ := Checks.bind_ok hall
      obtain ⟨⟨_, _⟩, hrest, -⟩ := Checks.bind_ok hall
      obtain ⟨⟨_, _⟩, hsecond, -⟩ := Checks.bind_ok hrest
      obtain ⟨-, -, rfl, -⟩ := append_oneFileBuilder hfirst
      cases (append_oneFileBuilder hsecond).1

theorem appendTrailer_walks_one_file :
    ∃ out' manifest block archive w,
      appendTrailer oneFileHost ⟨[], none⟩ none none [oneFileInput] (.ofBytes []) = .ok () out' ∧
      oneFileDecode ⟨block, none⟩ = .ok archive ∧
      walkEntries (hashingSink oneFileHost.lib) manifest none archive (.new ()) = .ok () w ∧
      manifest.archiveMembers = some w.walked := by
  obtain ⟨out', haccepted⟩ :
      ∃ out', appendTrailer oneFileHost ⟨[], none⟩ none none [oneFileInput] (.ofBytes []) = .ok () out' := by
    have hrun : (match appendTrailer oneFileHost ⟨[], none⟩ none none [oneFileInput] (.ofBytes []) with
        | .ok _ _ => true
        | .error _ _ => false) = true := by decide +kernel
    split at hrun
    next out' hout => exact ⟨out', hout⟩
    · cases hrun
  obtain ⟨_, manifest, _, block, _, archive, _, -, -, -, -, hdecode, -, -, hwalks⟩ :=
    appendTrailer_walks readsBack_oneFileBuilder (fun _ _ => rfl) haccepted
  obtain ⟨_, w, -, hwalk, -, hbound⟩ :=
    hwalks (hashingSink oneFileHost.lib) () none (honest_hashingSink _) (willing_hashingSink _) nofun
  exact ⟨out', manifest, block, archive, w, haccepted, hdecode, hwalk, hbound⟩

end DeployCore
