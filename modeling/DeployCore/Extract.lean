import DeployCore.Disk
import DeployCore.OuterWalk
import DeployCore.Verify

/-! # Opening a package and extracting it

`openPackage` reads a container's manifest and envelope without verifying either; `extractTo` walks the archive
behind it and stages every member. The destination is a fresh directory, so extraction is what it leaves there: the
files by their paths. -/

namespace DeployCore
open Adjacent LittleEndian

/-- `VerifyError`, with what the archive layer raises. -/
inductive ContainerError
  | verify (error : VerifyError)
  | manifestHashMismatch (path : String)
  | archive (error : ArchiveError)
  deriving DecidableEq

/-- `From<PayloadError>`, for an error of the archive layer. -/
def ContainerError.ofArchive : ArchiveError → ContainerError
  | .hashMismatch path => .manifestHashMismatch path
  | error => .archive error

/-- The readers of an archive block, a decompressor and an archive library: what they yield of a stream. -/
abbrev ArchiveDecoder := Stream → Except StreamFault DecodedArchive

/-- `open`: `none` where there is no trailer. -/
def openContainer (lib : Externals) (src : Source) : Except VerifyError (Option Payload) := do
  match ← (readContainerHead src).mapError .payload with
  | none => .ok none
  | some head => do
    let footer := head.footer
    let manifest ← (PayloadManifest.parse lib head.manifestBytes footer.version).mapError fun
      | .decode => .manifestParse
      | other => .invalidManifest other
    let signature ← (readBlock src footer.signatureOffset footer.signatureLen).mapError .payload
    let keyId ← (readBlock src footer.keyIdOffset footer.keyIdLen).mapError .payload
    let mlDsa87Signature ← (readBlock src footer.mlDsa87SignatureOffset footer.mlDsa87SignatureLen).mapError .payload
    let mlDsa87KeyId ← (readBlock src footer.mlDsa87KeyIdOffset footer.mlDsa87KeyIdLen).mapError .payload
    .ok (some {
      manifest
      archiveOffset := footer.archiveOffset
      archiveLen := footer.archiveLen
      signature, keyId, mlDsa87Signature, mlDsa87KeyId })

def openPackage (lib : Externals) (src : Source) : Except VerifyError Payload := do
  match ← openContainer lib src with
  | some payload => .ok payload
  | none => .error (.payload .noTrailer)

theorem readBlock_ofBytes {file : Bytes} {offset len : UInt64}
    (h : ∀ p, wirePair offset len = some p → p.1 + p.2 ≤ file.length) :
    readBlock (.ofBytes file) offset len = .ok ((wirePair offset len).map fun p => slice file p.1 p.2) := by
  unfold readBlock wirePair
  split
  · rfl
  · next habsent =>
    have hle : offset.toNat + len.toNat ≤ file.length := h _ (by rw [wirePair, if_neg habsent])
    rw [Source.readAt_ofBytes hle]
    rfl

/-- A sound container opens with its manifest and its archive. -/
theorem openPackage_bytes {lib : Externals} {c : Container} {manifest : PayloadManifest} (h : c.Sound)
    (hparse : PayloadManifest.parse lib c.manifest FORMAT_VERSION = .ok manifest) :
    ∃ payload, openPackage lib (.ofBytes c.bytes) = .ok payload ∧ payload.manifest = manifest ∧
      (Source.ofBytes c.bytes).takeAt payload.archiveOffset.toNat payload.archiveLen.toNat = ⟨c.archive, none⟩ := by
  have hchain := (Container.laidOut_footer h).chain
  have hlen := c.length_bytes
  have hread (offset len : UInt64) (hmem : wirePair offset len ∈ c.footer.pairs) :
      readBlock (.ofBytes c.bytes) offset len = .ok ((wirePair offset len).map fun p => slice c.bytes p.1 p.2) := by
    refine readBlock_ofBytes fun p hp => ?_
    rw [hp] at hmem
    have := (hchain.mem_le hmem).2
    omega
  have harchive : slice c.bytes c.footer.archiveOffset.toNat c.footer.archiveLen.toNat = c.archive :=
    Option.some.inj (List.cons.inj (List.cons.inj (Container.extract_bytes h)).2).1
  have hopened : ∃ payload, openContainer lib (.ofBytes c.bytes) = .ok (some payload) ∧ payload.manifest = manifest ∧
      payload.archiveOffset = c.footer.archiveOffset ∧ payload.archiveLen = c.footer.archiveLen := by
    have hparse' : PayloadManifest.parse lib c.manifest c.footer.version = .ok manifest := hparse
    simp only [openContainer, Container.readContainerHead_bytes h, hparse', hread _ _ (.tail _ (.tail _ (.head _))),
      hread _ _ (.tail _ (.tail _ (.tail _ (.head _)))), hread _ _ (.tail _ (.tail _ (.tail _ (.tail _ (.head _))))),
      hread _ _ (.tail _ (.tail _ (.tail _ (.tail _ (.tail _ (.head _)))))), Except.mapError, bind, Except.bind]
    exact ⟨_, rfl, rfl, rfl, rfl⟩
  obtain ⟨payload, hopened, hmanifest, hoffset, hblock⟩ := hopened
  refine ⟨payload, ?_, hmanifest, ?_⟩
  · rw [openPackage, hopened]
    rfl
  · rw [hoffset, hblock]
    exact congrArg (Stream.mk · none) harchive

/-! ### Feeding a sink -/

section
open Fallible
variable {σ ε : Type}

/-- The sink takes the members, one behind the other. -/
inductive MemberSink.Feeds (lib : Externals) (sink : MemberSink σ ε) :
    σ → List (ArchiveEntry × PayloadArtifact) → σ → Prop
  | nil {s} : Feeds lib sink s [] s
  | cons {s s₁ s₂ s' entry artifact taken}
      (hreceive : sink.receive artifact artifact.archivePath entry.data s =
        .ok (toHex (lib.sha256 entry.data.bytes), .ofNat entry.data.bytes.length) s₁)
      (haccept : sink.accept s₁ = .ok () s₂) (hrest : Feeds lib sink s₂ taken s') :
      Feeds lib sink s ((entry, artifact) :: taken) s'

variable {lib : Externals} {sink : MemberSink σ ε} {manifest : PayloadManifest} {membersLimit : Option UInt64} {entry : ArchiveEntry}
  {artifact : PayloadArtifact} {items : List (Except StreamFault ArchiveEntry)} {archive : DecodedArchive}
  {taken : List (ArchiveEntry × PayloadArtifact)} {s s' s₁ s₂ : σ} {w : MemberWalk σ}

theorem countMember_within (hlimit : ∀ limit, membersLimit = some limit → w.members + 1 ≤ limit.toNat) :
    ∃ members ≤ w.members + 1, (countMember membersLimit : Walks σ ε Unit) w = .ok () { w with members } := by
  rcases membersLimit with _ | limit
  · exact ⟨w.members, Nat.le_succ _, rfl⟩
  · have hcount : ¬min (w.members + 1) U64_MAX > limit.toNat :=
      Nat.not_lt.mpr (Nat.le_trans (Nat.min_le_left _ _) (hlimit limit rfl))
    exact ⟨min (w.members + 1) U64_MAX, Nat.min_le_left _ _, if_neg hcount⟩

theorem walkEntry_feeds (hnodup : (manifest.artifacts.map PayloadArtifact.archivePath).Nodup)
    (hlimit : ∀ limit, membersLimit = some limit → w.members + 1 ≤ limit.toNat)
    (hmem : artifact ∈ manifest.artifacts) (hholds : entry.Holds lib artifact) (hnew : artifact.archivePath ∉ w.seen)
    (hreceive : sink.receive artifact artifact.archivePath entry.data w.sink =
      .ok (toHex (lib.sha256 entry.data.bytes), .ofNat entry.data.bytes.length) s₁)
    (haccept : sink.accept s₁ = .ok () s₂) :
    ∃ members ≤ w.members + 1, walkEntry sink manifest membersLimit (.ok entry) w =
      .ok () ⟨s₂, artifact.archivePath :: w.seen, w.walked ++ [entry.member artifact], members⟩ := by
  obtain ⟨members, hmembers, hcount⟩ := @countMember_within _ ε _ _ hlimit
  have hpath : admittedMemberPath entry = .ok artifact.archivePath :=
    admittedMemberPath_ok_iff.mpr ⟨hholds.regular, hholds.name, hholds.size, hholds.path, hholds.safe⟩
  have hclaim : (claimArtifact manifest artifact.archivePath : Walks σ ε PayloadArtifact) { w with members } =
      .ok artifact { w with members, seen := artifact.archivePath :: w.seen } := by
    simp only [claimArtifact, byPath_of_mem hnodup hmem, if_neg hnew]
  have hreceived : onSink (sink.receive artifact artifact.archivePath entry.data) SinkFault.walkError
      { w with members, seen := artifact.archivePath :: w.seen } =
        .ok (toHex (lib.sha256 entry.data.bytes), .ofNat entry.data.bytes.length)
          { w with members, sink := s₁, seen := artifact.archivePath :: w.seen } := by
    simp only [onSink, hreceive]
  have haccepted : onSink sink.accept WalkError.sink { w with members, sink := s₁, seen := artifact.archivePath :: w.seen } =
      .ok () { w with members, sink := s₂, seen := artifact.archivePath :: w.seen } := by
    simp only [onSink, haccept]
  have hpath' : (lift ((admittedMemberPath entry).mapError payloadError) : Walks σ ε String) { w with members } =
      .ok artifact.archivePath { w with members } := by
    rw [hpath]
    rfl
  refine ⟨members, hmembers, ?_⟩
  rw [walkEntry, bind_of_ok (show (lift (Except.mapError streamError (.ok entry)) : Walks σ ε ArchiveEntry) w = .ok entry w from rfl),
    bind_of_ok hcount, bind_of_ok hpath', bind_of_ok hclaim, bind_of_ok hreceived]
  dsimp only
  rw [hholds.digest]
  exact (bind_of_ok haccepted).trans rfl

theorem walkMembers_feeds {seen : List String} {walked : List ArchiveMember} {members : Nat}
    (hnodup : (manifest.artifacts.map PayloadArtifact.archivePath).Nodup)
    (hlimit : ∀ limit, membersLimit = some limit → members + taken.length ≤ limit.toNat)
    (hmembers : Members lib manifest seen items taken) (hfeeds : sink.Feeds lib s taken s') :
    ∃ members', walkMembers sink manifest membersLimit items ⟨s, seen, walked, members⟩ =
      .ok () ⟨s', (takenPaths taken).reverse ++ seen,
        walked ++ taken.map (fun member => member.1.member member.2), members'⟩ := by
  induction hmembers generalizing s walked members with
  | nil =>
    cases hfeeds
    rw [List.map_nil, List.append_nil]
    exact ⟨members, rfl⟩
  | @cons seen items taken entry artifact hmem hholds hnew hrest ih =>
    obtain _ | ⟨hreceive, haccept, hfeeds⟩ := hfeeds
    have hfirst (limit : UInt64) (hsome : membersLimit = some limit) : members + 1 ≤ limit.toNat := by
      have := hlimit limit hsome
      rw [List.length_cons] at this
      omega
    obtain ⟨members₁, hle, hentry⟩ :=
      @walkEntry_feeds _ _ _ _ _ _ _ _ _ _ ⟨s, seen, walked, members⟩ hnodup hfirst hmem hholds hnew hreceive haccept
    have hrestLimit (limit : UInt64) (hsome : membersLimit = some limit) : members₁ + taken.length ≤ limit.toNat := by
      have := hlimit limit hsome
      rw [List.length_cons] at this
      dsimp only at hle
      omega
    obtain ⟨members', hmembers⟩ := ih hrestLimit hfeeds
    refine ⟨members', ?_⟩
    rw [walkMembers, bind_of_ok hentry, hmembers]
    simp [takenPaths]

/-- An admitted archive is walked to its end by every sink that takes its members. -/
theorem walkEntries_feeds (hnodup : (manifest.artifacts.map PayloadArtifact.archivePath).Nodup)
    (hlimit : ∀ limit, membersLimit = some limit → taken.length ≤ limit.toNat)
    (hadmits : manifest.Admits lib archive taken) (hfeeds : sink.Feeds lib s taken s') :
    ∃ w, walkEntries sink manifest membersLimit archive (.new s) = .ok () w ∧ w.sink = s' ∧
      w.walked = taken.map fun member => member.1.member member.2 := by
  have hmembers : Members lib manifest [] archive.entries taken :=
    .of_forall₂ hadmits.members hadmits.distinct fun _ _ => List.not_mem_nil
  obtain ⟨members, hwalk⟩ := @walkMembers_feeds _ _ _ _ _ _ _ _ _ _ [] [] 0 hnodup
    (fun limit hsome => (Nat.zero_add taken.length).symm ▸ hlimit limit hsome) hmembers hfeeds
  rw [List.nil_append, List.append_nil] at hwalk
  refine ⟨⟨s', (takenPaths taken).reverse, taken.map fun member => member.1.member member.2, members⟩, ?_, rfl, rfl⟩
  rw [walkEntries, MemberWalk.new, bind_of_ok hwalk]
  show lift (checkWalked manifest archive.trailing _) _ = _
  rw [checkWalked_ok_iff.mpr ⟨hadmits.tail, fun artifact hmem => ?_, hadmits.bound⟩]
  · rfl
  · obtain ⟨member, hmember, rfl⟩ := List.mem_map.mp (hadmits.complete artifact hmem)
    exact List.mem_reverse.mpr (List.mem_map_of_mem hmember)

/-- A sink that is honest and does not fail on its own account takes whole members. -/
theorem MemberSink.Willing.feeds (hwilling : sink.Willing) (hsink : sink.Honest lib) (s : σ)
    (hwhole : ∀ member ∈ taken, member.1.data.fault = none) : ∃ s', sink.Feeds lib s taken s' := by
  induction taken generalizing s with
  | nil => exact ⟨s, .nil⟩
  | cons member taken ih =>
    obtain ⟨hhead, htail⟩ := List.forall_mem_cons.mp hwhole
    obtain ⟨⟨digest, length⟩, s₁, hreceive⟩ := hwilling.1 member.2 member.2.archivePath member.1.data s hhead
    obtain ⟨-, rfl, rfl⟩ := hsink _ _ _ _ _ _ _ hreceive
    obtain ⟨s₂, haccept⟩ := hwilling.2 s₁
    obtain ⟨s', hfeeds⟩ := ih s₂ htail
    exact ⟨s', .cons hreceive haccept hfeeds⟩

end

/-! ### Staging -/

/-- A path by its segments. -/
abbrev Segments := List (List Char)

def segments (path : String) : Segments := path.toList.splitOn '/'

/-- The files of a directory tree, by path, and the one that is being received. -/
structure Staging where
  staged : List (Segments × Bytes)
  current : Option (Segments × Bytes)

/-- There is a file at the path. -/
def Staging.hasFile (s : Staging) (path : Segments) : Bool :=
  s.staged.any (·.1 = path)

/-- There is a file below the path. -/
def Staging.hasBelow (s : Staging) (path : Segments) : Bool :=
  s.staged.any fun file => path.isPrefixOf file.1 && file.1 ≠ path

def hasNul (path : Segments) : Bool := path.any (·.contains '\x00')

/-- Why no new file can be created at the path, in its directory: a file is where the directory would be, or an entry
is there already, or a name has a NUL in it. -/
def Staging.refusal (s : Staging) (path : Segments) : Option ErrorKind :=
  if hasNul path.dropLast then some EINVAL
  else if s.hasFile path.dropLast then some EEXIST
  else if path.dropLast.inits.any s.hasFile then some ENOTDIR
  else if hasNul path then some EINVAL
  else if s.hasFile path || s.hasBelow path then some EEXIST
  else none

/-- Reads the file at a path. -/
def Staging.read (s : Staging) (path : Segments) : Except ErrorKind Bytes :=
  match s.staged.find? (·.1 = path) with
  | some file => .ok file.2
  | none => if s.hasBelow path then .error EISDIR else .error .notFound

/-- `StagingSink`; every failure is the sink's own. -/
def stagingSink (lib : Externals) : MemberSink Staging ArchiveError where
  receive _ path data := fun s =>
    match s.refusal (segments path) with
    | some kind => .error (.sink (.io (.io (.os kind)))) s
    | none =>
      match data.fault with
      | some fault => .error (.sink (.io fault)) s
      | none => .ok (toHex (lib.sha256 data.bytes), .ofNat data.bytes.length)
          { s with current := some (segments path, data.bytes) }
  accept := fun s =>
    match s.current with
    | some file => .ok () ⟨s.staged ++ [file], none⟩
    | none => .ok () s

/-- The error of a walk without limits. -/
def legacyError : WalkError ArchiveError → ArchiveError
  | .payload error => error
  | .sink error => error
  | .limit resource limit => .io (.limit resource limit)

/-- Stages every member of the archive. -/
def extractTo (lib : Externals) (decode : ArchiveDecoder) (src : Source) (payload : Payload) :
    Except ArchiveError Staging := do
  let archive ← (decode (src.takeAt payload.archiveOffset.toNat payload.archiveLen.toNat)).mapError fun fault =>
    legacyError (streamError fault)
  match walkEntries (stagingSink lib) payload.manifest none archive (.new ⟨[], none⟩) with
  | .ok () w => .ok w.sink
  | .error e _ => .error (legacyError e)

/-- Staging puts the members down behind what is staged, where each can be created. -/
theorem feeds_stagingSink {lib : Externals} {staged : List (Segments × Bytes)} {taken : List (ArchiveEntry × PayloadArtifact)}
    (hwhole : ∀ member ∈ taken, member.1.data.fault = none)
    (hcreated : ∀ before member after, taken = before ++ member :: after →
      Staging.refusal ⟨staged ++ before.map fun member => (segments member.2.archivePath, member.1.data.bytes), none⟩
        (segments member.2.archivePath) = none) :
    (stagingSink lib).Feeds lib ⟨staged, none⟩ taken
      ⟨staged ++ taken.map fun member => (segments member.2.archivePath, member.1.data.bytes), none⟩ := by
  induction taken generalizing staged with
  | nil =>
    rw [List.map_nil, List.append_nil]
    exact .nil
  | cons member taken ih =>
    obtain ⟨hhead, htail⟩ := List.forall_mem_cons.mp hwhole
    have hfree := hcreated [] member taken rfl
    rw [List.map_nil, List.append_nil] at hfree
    have hreceive : (stagingSink lib).receive member.2 member.2.archivePath member.1.data ⟨staged, none⟩ =
        .ok (toHex (lib.sha256 member.1.data.bytes), .ofNat member.1.data.bytes.length)
          ⟨staged, some (segments member.2.archivePath, member.1.data.bytes)⟩ := by
      simp only [stagingSink, hfree, hhead]
    rw [List.map_cons, List.append_cons]
    refine .cons hreceive rfl (ih htail fun before next after hsplit => ?_)
    have hnext := hcreated (member :: before) next after (by rw [hsplit, List.cons_append])
    rwa [List.map_cons, List.append_cons] at hnext

/-- A package whose members can all be created extracts to them. -/
theorem extractTo_of_admits {lib : Externals} {decode : ArchiveDecoder} {src : Source} {payload : Payload}
    {archive : DecodedArchive} {taken : List (ArchiveEntry × PayloadArtifact)}
    (hdecode : decode (src.takeAt payload.archiveOffset.toNat payload.archiveLen.toNat) = .ok archive)
    (hnodup : (payload.manifest.artifacts.map PayloadArtifact.archivePath).Nodup)
    (hadmits : payload.manifest.Admits lib archive taken)
    (hcreated : ∀ before member after, taken = before ++ member :: after →
      Staging.refusal ⟨before.map fun member => (segments member.2.archivePath, member.1.data.bytes), none⟩
        (segments member.2.archivePath) = none) :
    extractTo lib decode src payload =
      .ok ⟨taken.map fun member => (segments member.2.archivePath, member.1.data.bytes), none⟩ := by
  have hwhole : ∀ member ∈ taken, member.1.data.fault = none := fun member hmember =>
    (isMember_of_mem hadmits.members hmember).2.whole
  have hfeeds := @feeds_stagingSink lib [] taken hwhole hcreated
  obtain ⟨w, hwalk, hsink, -⟩ := @walkEntries_feeds _ _ _ _ _ none _ _ _ _ hnodup nofun hadmits hfeeds
  simp only [extractTo, hdecode, Except.mapError, bind, Except.bind, hwalk, hsink, List.nil_append]

end DeployCore
