import DeployCore.Lib.Fallible
import DeployCore.Lib.Utf8
import DeployCore.Limits
import DeployCore.ManifestInvariant

/-! # The walk over the outer archive

One loop admits the archive's entries against the manifest and hands each member to a sink; behind it stand the
check of what follows the last entry, the check that no artifact is missing, and the comparison with the bound
member list. The archive is read by third-party code: here it is the entries that code yields, or the faults it
reports. `walk_of_admissible` says which archives pass, and what the sink has then accepted. -/

namespace DeployCore
open Fallible

def TAR_BLOCK_SIZE : Nat := 512
def MAX_END_OF_ARCHIVE_BYTES : Nat := TAR_BLOCK_SIZE

/-- An extension record too large for the framing allowance. Names are the record's bytes; they are shown as text. -/
inductive OversizedExtension
  | name (headerName resolvedName : Bytes)
  | size (path : Bytes) (headerSize resolvedSize : UInt64)
  | link (path : Bytes)
  deriving DecidableEq

/-- What reading the decoded stream fails with: an error that carries a limit, an oversized record or the framing
allowance, or any other. -/
inductive StreamFault
  | limit (resource : LimitResource) (limit : UInt64)
  | oversized (refusal : OversizedExtension)
  | framing (limit : UInt64)
  | unreadableFrame
  | io (error : IoError)
  deriving DecidableEq

/-- `PayloadError`, as far as the archive layer raises it. -/
inductive ArchiveError
  | io (fault : StreamFault)
  | hashMismatch (path : String)
  | unsafeMemberPath (path : Bytes)
  | unsupportedEntryType (path : Bytes)
  | nameOverridingHeader (headerName resolvedName : Bytes)
  | sizeOverridingHeader (path : Bytes) (headerSize resolvedSize : UInt64)
  | trailingArchiveBytes
  | memberNotInManifest (path : String)
  | artifactMissingFromArchive (path : String)
  | duplicateMember (path : String)
  | memberListMismatch (index : Nat) (expected found : Option ArchiveMember)
  deriving DecidableEq

def OversizedExtension.intoPayload : OversizedExtension → ArchiveError
  | .name headerName resolvedName => .nameOverridingHeader headerName resolvedName
  | .size path headerSize resolvedSize => .sizeOverridingHeader path headerSize resolvedSize
  | .link path => .unsupportedEntryType path

inductive WalkError (ε : Type)
  | payload (error : ArchiveError)
  | limit (resource : LimitResource) (limit : UInt64)
  | sink (error : ε)
  deriving DecidableEq

inductive SinkFault (ε : Type)
  | stream (fault : StreamFault)
  | sink (error : ε)

section
variable {ε : Type}

def streamError : StreamFault → WalkError ε
  | .limit resource limit => .limit resource limit
  | .oversized refusal => .payload refusal.intoPayload
  | fault => .payload (.io fault)

/-- `payload_error`. -/
def payloadError : ArchiveError → WalkError ε
  | .io fault => streamError fault
  | error => .payload error

def SinkFault.walkError : SinkFault ε → WalkError ε
  | .stream fault => streamError fault
  | .sink error => .sink error

end

inductive EntryType
  | regular
  | other (typeflag : UInt8)
  deriving DecidableEq

/-- What reading a member's stream to its end yields: its bytes, or those before a fault. -/
structure MemberData where
  bytes : Bytes
  fault : Option StreamFault
  deriving DecidableEq

/-- An entry as the archive library yields it: the name and the size its header block states, and those it
resolved. -/
structure ArchiveEntry where
  entryType : EntryType
  headerName : Bytes
  resolvedName : Bytes
  headerSize : Except IoError UInt64
  size : UInt64
  data : MemberData

/-- The entries up to the end-of-archive marker, and what the reads behind it return. -/
structure DecodedArchive where
  entries : List (Except StreamFault ArchiveEntry)
  trailing : List (Except StreamFault Bytes)

/-- Where the walk hands the admitted members' bytes. -/
structure MemberSink (σ ε : Type) where
  /-- Consumes a member's stream and returns its digest and length. -/
  receive : PayloadArtifact → String → MemberData → EStateM (SinkFault ε) σ (String × UInt64)
  /-- Keeps the member received last. -/
  accept : EStateM ε σ Unit

/-- `eq_ignore_ascii_case`. -/
def eqIgnoreAsciiCase (a b : String) : Bool :=
  a.toList.map toAsciiLower == b.toList.map toAsciiLower

/-- The name of an entry the archive format's own terms admit. -/
def admittedMemberPath (entry : ArchiveEntry) : Except ArchiveError String := do
  if entry.entryType ≠ .regular then .error (.unsupportedEntryType entry.resolvedName)
  else if entry.headerName ≠ entry.resolvedName then
    .error (.nameOverridingHeader entry.headerName entry.resolvedName)
  else
    let headerSize ← entry.headerSize.mapError fun error => .io (.io error)
    if headerSize ≠ entry.size then .error (.sizeOverridingHeader entry.resolvedName headerSize entry.size)
    else
      match String.fromUTF8? entry.resolvedName.toByteArray with
      | none => .error (.unsafeMemberPath entry.resolvedName)
      | some path => if isSafeArchivePath path then .ok path else .error (.unsafeMemberPath entry.resolvedName)

/-- Reads to the end, behind `remaining` bytes read so far; an empty read is the end. -/
def rejectTrailingBytes : (remaining : Nat) → List (Except StreamFault Bytes) → Except ArchiveError Unit
  | _, [] => .ok ()
  | _, .error fault :: _ => .error (.io fault)
  | remaining, .ok read :: reads =>
    if read = [] then .ok ()
    else if read.any (· ≠ 0) ∨ remaining + read.length > MAX_END_OF_ARCHIVE_BYTES then .error .trailingArchiveBytes
    else rejectTrailingBytes (remaining + read.length) reads

/-- The first position the two lists disagree at is refused. -/
def compareMemberListFrom : Nat → (bound walked : List ArchiveMember) → Except ArchiveError Unit
  | _, [], [] => .ok ()
  | index, [], found :: _ => .error (.memberListMismatch index none (some found))
  | index, expected :: _, [] => .error (.memberListMismatch index (some expected) none)
  | index, expected :: bound, found :: walked =>
    if expected ≠ found then .error (.memberListMismatch index (some expected) (some found))
    else compareMemberListFrom (index + 1) bound walked

def compareMemberList (bound walked : List ArchiveMember) : Except ArchiveError Unit :=
  compareMemberListFrom 0 bound walked

/-! ### The walk -/

/-- The loop's variables. -/
structure MemberWalk (σ : Type) where
  sink : σ
  seen : List String
  walked : List ArchiveMember
  members : Nat

def MemberWalk.new {σ : Type} (sink : σ) : MemberWalk σ := ⟨sink, [], [], 0⟩

section
variable {σ ε ε' α : Type}

abbrev Walks (σ ε : Type) := EStateM (WalkError ε) (MemberWalk σ)

def onSink (act : EStateM ε' σ α) (classify : ε' → WalkError ε) : Walks σ ε α :=
  fun w =>
    match act w.sink with
    | .ok a sink => .ok a { w with sink }
    | .error e sink => .error (classify e) { w with sink }

/-- The artifacts by path; of two under one path a map keeps the later. -/
def byPath (manifest : PayloadManifest) (path : String) : Option PayloadArtifact :=
  manifest.artifacts.reverse.find? (·.archivePath = path)

/-- A bounded walk counts the entries; the count saturates. -/
def countMember (membersLimit : Option UInt64) : Walks σ ε Unit :=
  fun w =>
    match membersLimit with
    | none => .ok () w
    | some limit =>
      let counted := { w with members := min (w.members + 1) U64_MAX }
      if counted.members > limit.toNat then .error (.limit .outerMembers limit) counted else .ok () counted

/-- Looks an entry up in the manifest, where no earlier one has its path. -/
def claimArtifact (manifest : PayloadManifest) (memberPath : String) : Walks σ ε PayloadArtifact :=
  fun w =>
    match byPath manifest memberPath with
    | none => .error (.payload (.memberNotInManifest memberPath)) w
    | some artifact =>
      if artifact.archivePath ∈ w.seen then .error (.payload (.duplicateMember memberPath)) w
      else .ok artifact { w with seen := artifact.archivePath :: w.seen }

/-- One round of the walk's loop. -/
def walkEntry (sink : MemberSink σ ε) (manifest : PayloadManifest) (membersLimit : Option UInt64)
    (item : Except StreamFault ArchiveEntry) : Walks σ ε Unit := do
  let entry ← lift (item.mapError streamError)
  countMember membersLimit
  let memberPath ← lift ((admittedMemberPath entry).mapError payloadError)
  let artifact ← claimArtifact manifest memberPath
  let (digest, length) ← onSink (sink.receive artifact memberPath entry.data) SinkFault.walkError
  if !eqIgnoreAsciiCase digest artifact.sha256 then throw (.payload (.hashMismatch artifact.archivePath))
  else
    onSink sink.accept .sink
    modify fun w => { w with walked := w.walked ++ [⟨memberPath, length⟩] }

def walkMembers (sink : MemberSink σ ε) (manifest : PayloadManifest) (membersLimit : Option UInt64) :
    List (Except StreamFault ArchiveEntry) → Walks σ ε Unit
  | [] => pure ()
  | item :: items => do
    walkEntry sink manifest membersLimit item
    walkMembers sink manifest membersLimit items

/-- What is decided once the entries are over. -/
def checkWalked (manifest : PayloadManifest) (trailing : List (Except StreamFault Bytes)) (w : MemberWalk σ) :
    Except (WalkError ε) Unit := do
  (rejectTrailingBytes 0 trailing).mapError payloadError
  Checks.each (fun artifact => if artifact.archivePath ∈ w.seen then .ok ()
    else .error (.payload (.artifactMissingFromArchive artifact.archivePath))) manifest.artifacts
  match manifest.archiveMembers with
  | some bound => (compareMemberList bound w.walked).mapError .payload
  | none => .ok ()

/-- `walk_entries`. -/
def walkEntries (sink : MemberSink σ ε) (manifest : PayloadManifest) (membersLimit : Option UInt64)
    (archive : DecodedArchive) : Walks σ ε Unit := do
  walkMembers sink manifest membersLimit archive.entries
  let w ← get
  lift (checkWalked manifest archive.trailing w)

end

/-! ### What a round does -/

/-- An entry that is the member of an artifact: a regular file, named and sized by its own header, at the
artifact's path, whose whole content hashes to the artifact's digest. -/
structure ArchiveEntry.Holds (lib : Externals) (entry : ArchiveEntry) (artifact : PayloadArtifact) : Prop where
  regular : entry.entryType = .regular
  name : entry.headerName = entry.resolvedName
  size : entry.headerSize = .ok entry.size
  path : String.fromUTF8? entry.resolvedName.toByteArray = some artifact.archivePath
  safe : isSafeArchivePath artifact.archivePath = true
  whole : entry.data.fault = none
  digest : eqIgnoreAsciiCase (toHex (lib.sha256 entry.data.bytes)) artifact.sha256 = true

/-- The member an entry is walked as. -/
def ArchiveEntry.member (entry : ArchiveEntry) (artifact : PayloadArtifact) : ArchiveMember :=
  ⟨artifact.archivePath, .ofNat entry.data.bytes.length⟩

/-- What a sink promises: the digest and the length of all that it consumed. -/
def MemberSink.Honest {σ ε : Type} (lib : Externals) (sink : MemberSink σ ε) : Prop :=
  ∀ artifact path data s digest length s', sink.receive artifact path data s = .ok (digest, length) s' →
    data.fault = none ∧ digest = toHex (lib.sha256 data.bytes) ∧ length = .ofNat data.bytes.length

/-- A sink that does not fail on its own account. -/
def MemberSink.Willing {σ ε : Type} (sink : MemberSink σ ε) : Prop :=
  (∀ artifact path data s, data.fault = none → ∃ received s', sink.receive artifact path data s = .ok received s') ∧
    ∀ s, ∃ s', sink.accept s = .ok () s'

/-- A sink's state with the record of what it received last and of what it accepted. -/
structure Logged (σ : Type) where
  sink : σ
  current : Option PayloadArtifact
  accepted : List PayloadArtifact

/-- A sink that also keeps the record. -/
def MemberSink.logged {σ ε : Type} (sink : MemberSink σ ε) : MemberSink (Logged σ) ε where
  receive artifact path data := fun log =>
    match sink.receive artifact path data log.sink with
    | .ok received s => .ok received { log with sink := s, current := some artifact }
    | .error fault s => .error fault { log with sink := s }
  accept := fun log =>
    match sink.accept log.sink with
    | .ok () s => .ok () ⟨s, none, log.accepted ++ log.current.toList⟩
    | .error e s => .error e { log with sink := s }

section
variable {σ ε ε' α : Type} {lib : Externals} {sink : MemberSink σ ε} {manifest : PayloadManifest}
  {membersLimit : Option UInt64} {item : Except StreamFault ArchiveEntry} {entry : ArchiveEntry}
  {artifact : PayloadArtifact} {path : String} {e : WalkError ε}

theorem admittedMemberPath_ok_iff : admittedMemberPath entry = .ok path ↔
    entry.entryType = .regular ∧ entry.headerName = entry.resolvedName ∧ entry.headerSize = .ok entry.size ∧
      String.fromUTF8? entry.resolvedName.toByteArray = some path ∧ isSafeArchivePath path = true := by
  unfold admittedMemberPath
  constructor
  · intro h
    split at h
    · cases h
    next hregular =>
    split at h
    · cases h
    next hname =>
    obtain ⟨headerSize, hsize, h⟩ := Checks.bind_ok h
    have hsize := Checks.mapError_ok.mp hsize
    split at h
    · cases h
    next hsame =>
    split at h
    · cases h
    next found hutf8 =>
    split at h
    · next hsafe =>
      cases h
      exact ⟨not_not.mp hregular, not_not.mp hname, not_not.mp hsame ▸ hsize, hutf8, hsafe⟩
    · cases h
  · rintro ⟨hregular, hname, hsize, hutf8, hsafe⟩
    rw [if_neg (not_not.mpr hregular), if_neg (not_not.mpr hname), hsize]
    show (if entry.size ≠ entry.size then _ else _) = _
    rw [if_neg (not_not.mpr rfl), hutf8]
    exact if_pos hsafe

theorem byPath_ok (h : byPath manifest path = some artifact) : artifact ∈ manifest.artifacts ∧ artifact.archivePath = path := by
  have hmem := List.mem_of_find?_eq_some h
  have hpath := List.find?_some h
  exact ⟨List.mem_reverse.mp hmem, of_decide_eq_true hpath⟩

/-- Under distinct paths the map finds each artifact. -/
theorem byPath_of_mem (hnodup : (manifest.artifacts.map PayloadArtifact.archivePath).Nodup)
    (hmem : artifact ∈ manifest.artifacts) : byPath manifest artifact.archivePath = some artifact := by
  rcases h : byPath manifest artifact.archivePath with _ | found
  · have hnone := List.find?_eq_none.mp h artifact (List.mem_reverse.mpr hmem)
    simp at hnone
  · obtain ⟨hfound, hpath⟩ := byPath_ok h
    rw [List.inj_on_of_nodup_map hnodup hfound hmem hpath]

theorem onSink_ok {act : EStateM ε' σ α} {classify : ε' → WalkError ε} {w w' : MemberWalk σ} {a : α}
    (h : onSink act classify w = .ok a w') : ∃ s, act w.sink = .ok a s ∧ w' = { w with sink := s } := by
  unfold onSink at h
  rcases hact : act w.sink with ⟨b, s⟩ | ⟨fault, s⟩ <;> rw [hact] at h <;> cases h
  exact ⟨s, rfl, rfl⟩

theorem onSink_error {act : EStateM ε' σ α} {classify : ε' → WalkError ε} {w w' : MemberWalk σ}
    (h : onSink act classify w = .error e w') :
    ∃ fault s, act w.sink = .error fault s ∧ w' = { w with sink := s } := by
  unfold onSink at h
  rcases hact : act w.sink with ⟨b, s⟩ | ⟨fault, s⟩ <;> rw [hact] at h <;> cases h
  exact ⟨fault, s, rfl, rfl⟩

theorem countMember_ok {w w' : MemberWalk σ} (h : (countMember membersLimit : Walks σ ε Unit) w = .ok () w') :
    ∃ members, w' = { w with members } := by
  unfold countMember at h
  split at h
  · cases h
    exact ⟨_, rfl⟩
  · dsimp only at h
    split at h <;> cases h
    exact ⟨_, rfl⟩

theorem countMember_error {w w' : MemberWalk σ} (h : (countMember membersLimit : Walks σ ε Unit) w = .error e w') :
    ∃ members, w' = { w with members } := by
  unfold countMember at h
  split at h
  · cases h
  · dsimp only at h
    split at h <;> cases h
    exact ⟨_, rfl⟩

theorem claimArtifact_ok {w w' : MemberWalk σ} (h : (claimArtifact manifest path : Walks σ ε PayloadArtifact) w = .ok artifact w') :
    byPath manifest path = some artifact ∧ artifact.archivePath ∉ w.seen ∧
      w' = { w with seen := artifact.archivePath :: w.seen } := by
  unfold claimArtifact at h
  split at h
  · cases h
  · next found hfound =>
    split at h
    · cases h
    · next hseen =>
      cases h
      exact ⟨hfound, hseen, rfl⟩

theorem claimArtifact_error {w w' : MemberWalk σ} (h : (claimArtifact manifest path : Walks σ ε PayloadArtifact) w = .error e w') :
    w' = w ∧ ∀ artifact, byPath manifest path = some artifact → artifact.archivePath ∈ w.seen := by
  unfold claimArtifact at h
  split at h
  · next hnone =>
    cases h
    exact ⟨rfl, fun artifact hsome => nomatch hnone.symm.trans hsome⟩
  · next found hfound =>
    split at h
    · next hseen =>
      cases h
      exact ⟨rfl, fun artifact hsome => Option.some.inj (hfound.symm.trans hsome) ▸ hseen⟩
    · cases h

theorem logged_receive_ok {data : MemberData} {log log' : Logged σ} {received : String × UInt64}
    (h : sink.logged.receive artifact path data log = .ok received log') :
    ∃ s, sink.receive artifact path data log.sink = .ok received s ∧ log' = { log with sink := s, current := some artifact } := by
  unfold MemberSink.logged at h
  dsimp only at h
  split at h <;> cases h
  next s hreceived => exact ⟨s, hreceived, rfl⟩

theorem logged_receive_error {data : MemberData} {log log' : Logged σ} {fault : SinkFault ε}
    (h : sink.logged.receive artifact path data log = .error fault log') :
    ∃ s, sink.receive artifact path data log.sink = .error fault s ∧ log' = { log with sink := s } := by
  unfold MemberSink.logged at h
  dsimp only at h
  split at h <;> cases h
  next s hfailed => exact ⟨s, hfailed, rfl⟩

theorem logged_accept_ok {log log' : Logged σ} (h : sink.logged.accept log = .ok () log') :
    log'.accepted = log.accepted ++ log.current.toList := by
  unfold MemberSink.logged at h
  dsimp only at h
  split at h <;> cases h
  rfl

theorem logged_accept_error {log log' : Logged σ} {fault : ε} (h : sink.logged.accept log = .error fault log') :
    ∃ s, sink.accept log.sink = .error fault s ∧ log' = { log with sink := s } := by
  unfold MemberSink.logged at h
  dsimp only at h
  split at h <;> cases h
  next s hfailed => exact ⟨s, hfailed, rfl⟩

/-- A round that passes: its entry is the member of an artifact no earlier one was, and the sink has accepted it. -/
theorem walkEntry_ok {w w' : MemberWalk (Logged σ)} (hsink : sink.Honest lib)
    (h : walkEntry sink.logged manifest membersLimit item w = .ok () w') :
    ∃ entry artifact, item = .ok entry ∧ artifact ∈ manifest.artifacts ∧ entry.Holds lib artifact ∧
      artifact.archivePath ∉ w.seen ∧ w'.seen = artifact.archivePath :: w.seen ∧
      w'.walked = w.walked ++ [entry.member artifact] ∧ w'.sink.accepted = w.sink.accepted ++ [artifact] := by
  obtain ⟨entry, hitem, h₁⟩ := lift_bind_ok h
  obtain ⟨_, w₂, hcount, h₂⟩ := bind_ok h₁
  obtain ⟨members, rfl⟩ := countMember_ok hcount
  obtain ⟨path, hpath, h₃⟩ := lift_bind_ok h₂
  obtain ⟨hregular, hname, hsize, hutf8, hsafe⟩ := admittedMemberPath_ok_iff.mp (Checks.mapError_ok.mp hpath)
  obtain ⟨artifact, w₄, hclaim, h₄⟩ := bind_ok h₃
  obtain ⟨hfound, hseen, rfl⟩ := claimArtifact_ok hclaim
  obtain ⟨hmem, rfl⟩ := byPath_ok hfound
  obtain ⟨⟨digest, length⟩, w₅, hreceive, h₅⟩ := bind_ok h₄
  obtain ⟨log₅, hlogged, rfl⟩ := onSink_ok hreceive
  obtain ⟨s, hreceived, rfl⟩ := logged_receive_ok hlogged
  obtain ⟨hwhole, rfl, rfl⟩ := hsink _ _ _ _ _ _ _ hreceived
  dsimp only at h₅
  split at h₅
  · cases h₅
  next hdigest =>
  obtain ⟨_, w₆, haccept, h₆⟩ := bind_ok h₅
  obtain ⟨log₆, haccepted, rfl⟩ := onSink_ok haccept
  have hlog := logged_accept_ok haccepted
  cases h₆
  have hdigest : eqIgnoreAsciiCase (toHex (lib.sha256 entry.data.bytes)) artifact.sha256 = true := by
    simpa using hdigest
  exact ⟨entry, artifact, Checks.mapError_ok.mp hitem, hmem, ⟨hregular, hname, hsize, hutf8, hsafe, hwhole, hdigest⟩,
    hseen, rfl, rfl, hlog⟩

/-- A round that stops the walk: the sink has accepted nothing in it, and a sink that does not fail by itself was
given no admissible member that is new. -/
theorem walkEntry_error {w w' : MemberWalk (Logged σ)} (hsink : sink.Honest lib)
    (h : walkEntry sink.logged manifest membersLimit item w = .error e w') :
    w'.sink.accepted = w.sink.accepted ∧
      (sink.Willing → membersLimit = none → (manifest.artifacts.map PayloadArtifact.archivePath).Nodup →
        ∀ entry artifact, item = .ok entry → artifact ∈ manifest.artifacts → entry.Holds lib artifact →
          artifact.archivePath ∈ w.seen) := by
  rcases lift_bind_error h with ⟨hitem, rfl⟩ | ⟨entry, hitem, h₁⟩
  · refine ⟨rfl, fun _ _ _ entry artifact hok => ?_⟩
    rw [hok] at hitem
    cases hitem
  have hitem := Checks.mapError_ok.mp hitem
  rcases bind_error h₁ with hcount | ⟨_, w₂, hcount, h₂⟩
  · obtain ⟨members, rfl⟩ := countMember_error hcount
    refine ⟨rfl, fun _ hlimit => ?_⟩
    rw [hlimit] at hcount
    cases hcount
  obtain ⟨members, rfl⟩ := countMember_ok hcount
  rcases lift_bind_error h₂ with ⟨hpath, rfl⟩ | ⟨path, hpath, h₃⟩
  · refine ⟨rfl, fun _ _ _ entry' artifact hok _ hholds => ?_⟩
    cases hitem.symm.trans hok
    rw [admittedMemberPath_ok_iff.mpr ⟨hholds.regular, hholds.name, hholds.size, hholds.path, hholds.safe⟩] at hpath
    cases hpath
  obtain ⟨-, -, -, hutf8, -⟩ := admittedMemberPath_ok_iff.mp (Checks.mapError_ok.mp hpath)
  have hsame {artifact : PayloadArtifact} (hholds : entry.Holds lib artifact) : path = artifact.archivePath :=
    Option.some.inj (hutf8.symm.trans hholds.path)
  rcases bind_error h₃ with hclaim | ⟨artifact, w₄, hclaim, h₄⟩
  · obtain ⟨rfl, hseen⟩ := claimArtifact_error hclaim
    refine ⟨rfl, fun _ _ hnodup entry' artifact hok hmem hholds => ?_⟩
    cases hitem.symm.trans hok
    exact hseen artifact (hsame hholds ▸ byPath_of_mem hnodup hmem)
  obtain ⟨hfound, hseen, rfl⟩ := claimArtifact_ok hclaim
  rcases bind_error h₄ with hreceive | ⟨⟨digest, length⟩, w₅, hreceive, h₅⟩
  · obtain ⟨fault, log, hlogged, rfl⟩ := onSink_error hreceive
    obtain ⟨s, hfailed, rfl⟩ := logged_receive_error hlogged
    refine ⟨rfl, fun hwilling _ _ entry' artifact' hok _ hholds => ?_⟩
    cases hitem.symm.trans hok
    obtain ⟨received, s', hreceived⟩ := hwilling.1 artifact path entry.data w.sink.sink hholds.whole
    cases hfailed.symm.trans hreceived
  obtain ⟨log₅, hlogged, rfl⟩ := onSink_ok hreceive
  obtain ⟨s, hreceived, rfl⟩ := logged_receive_ok hlogged
  obtain ⟨hwhole, rfl, rfl⟩ := hsink _ _ _ _ _ _ _ hreceived
  dsimp only at h₅
  split at h₅
  · next hdigest =>
    cases h₅
    refine ⟨rfl, fun _ _ hnodup entry' artifact' hok hmem hholds => ?_⟩
    cases hitem.symm.trans hok
    obtain rfl : artifact' = artifact :=
      Option.some.inj ((byPath_of_mem hnodup hmem).symm.trans (hsame hholds ▸ hfound))
    rw [hholds.digest] at hdigest
    cases hdigest
  rcases bind_error h₅ with haccept | ⟨_, w₆, haccept, h₆⟩
  · obtain ⟨fault, log, hlogged, rfl⟩ := onSink_error haccept
    obtain ⟨s', hfailed, rfl⟩ := logged_accept_error hlogged
    refine ⟨rfl, fun hwilling _ _ _ _ _ _ _ => ?_⟩
    obtain ⟨s'', haccepted⟩ := hwilling.2 s
    cases hfailed.symm.trans haccepted
  · cases h₆

end

/-! ### What the walk does -/

/-- The items are entries, each the member of an artifact, and none of a path in `seen` or of one before it. -/
inductive Members (lib : Externals) (manifest : PayloadManifest) :
    (seen : List String) → List (Except StreamFault ArchiveEntry) → List (ArchiveEntry × PayloadArtifact) → Prop
  | nil {seen} : Members lib manifest seen [] []
  | cons {seen items taken entry artifact} (hmem : artifact ∈ manifest.artifacts) (hholds : entry.Holds lib artifact)
      (hnew : artifact.archivePath ∉ seen) (hrest : Members lib manifest (artifact.archivePath :: seen) items taken) :
      Members lib manifest seen (.ok entry :: items) ((entry, artifact) :: taken)

/-- An item that is a member of the manifest. -/
def IsMember (lib : Externals) (manifest : PayloadManifest) (item : Except StreamFault ArchiveEntry)
    (member : ArchiveEntry × PayloadArtifact) : Prop :=
  item = .ok member.1 ∧ member.2 ∈ manifest.artifacts ∧ member.1.Holds lib member.2

/-- The paths of members, in their order. -/
def takenPaths (taken : List (ArchiveEntry × PayloadArtifact)) : List String :=
  taken.map (·.2.archivePath)

/-- All that reads return up to the end. -/
def readToEnd : List (Except StreamFault Bytes) → Except StreamFault Bytes
  | [] => .ok []
  | .error fault :: _ => .error fault
  | .ok read :: reads => if read = [] then .ok [] else (readToEnd reads).map (read ++ ·)

/-- What the walk asks of an archive, whose entries are these members. -/
structure PayloadManifest.Admits (lib : Externals) (manifest : PayloadManifest) (archive : DecodedArchive)
    (taken : List (ArchiveEntry × PayloadArtifact)) : Prop where
  members : List.Forall₂ (IsMember lib manifest) archive.entries taken
  distinct : (takenPaths taken).Nodup
  complete : ∀ artifact ∈ manifest.artifacts, artifact ∈ taken.map Prod.snd
  tail : ∃ bytes, readToEnd archive.trailing = .ok bytes ∧ bytes.length ≤ MAX_END_OF_ARCHIVE_BYTES ∧ ∀ byte ∈ bytes, byte = 0
  bound : ∀ bound, manifest.archiveMembers = some bound → taken.map (fun member => member.1.member member.2) = bound

section
variable {σ ε : Type} {lib : Externals} {sink : MemberSink σ ε} {manifest : PayloadManifest} {membersLimit : Option UInt64}
  {items : List (Except StreamFault ArchiveEntry)} {taken : List (ArchiveEntry × PayloadArtifact)} {seen : List String}
  {w w' : MemberWalk (Logged σ)} {e : WalkError ε}

theorem Members.forall₂ (h : Members lib manifest seen items taken) : List.Forall₂ (IsMember lib manifest) items taken := by
  induction h with
  | nil => exact .nil
  | cons hmem hholds _ _ ih => exact .cons ⟨rfl, hmem, hholds⟩ ih

theorem Members.distinct (h : Members lib manifest seen items taken) :
    (takenPaths taken).Nodup ∧ ∀ path ∈ takenPaths taken, path ∉ seen := by
  induction h with
  | nil => exact ⟨List.nodup_nil, fun _ hpath => absurd hpath List.not_mem_nil⟩
  | cons hmem hholds hnew _ ih =>
    obtain ⟨hnodup, hnot⟩ := ih
    refine ⟨List.nodup_cons.mpr ⟨fun hpath => hnot _ hpath List.mem_cons_self, hnodup⟩, fun path hpath => ?_⟩
    rcases List.mem_cons.mp hpath with rfl | hpath
    · exact hnew
    · exact fun hseen => hnot path hpath (List.mem_cons_of_mem _ hseen)

theorem Members.of_forall₂ (h : List.Forall₂ (IsMember lib manifest) items taken) (hnodup : (takenPaths taken).Nodup)
    (hnot : ∀ path ∈ takenPaths taken, path ∉ seen) : Members lib manifest seen items taken := by
  induction h generalizing seen with
  | nil => exact .nil
  | @cons item member items taken hmember _ ih =>
    obtain ⟨rfl, hmem, hholds⟩ := hmember
    obtain ⟨hhead, htail⟩ := List.nodup_cons.mp hnodup
    refine .cons hmem hholds (hnot _ List.mem_cons_self) (ih htail fun path hpath hseen => ?_)
    rcases List.mem_cons.mp hseen with rfl | hseen
    · exact hhead hpath
    · exact hnot path (List.mem_cons_of_mem _ hpath) hseen

theorem walkMembers_ok (hsink : sink.Honest lib) (h : walkMembers sink.logged manifest membersLimit items w = .ok () w') :
    ∃ taken, Members lib manifest w.seen items taken ∧ w'.seen = (takenPaths taken).reverse ++ w.seen ∧
      w'.walked = w.walked ++ taken.map (fun member => member.1.member member.2) ∧
      w'.sink.accepted = w.sink.accepted ++ taken.map Prod.snd := by
  induction items generalizing w with
  | nil =>
    cases h
    exact ⟨[], .nil, rfl, (List.append_nil _).symm, (List.append_nil _).symm⟩
  | cons item items ih =>
    obtain ⟨_, w₁, hentry, hrest⟩ := bind_ok h
    obtain ⟨entry, artifact, rfl, hmem, hholds, hnew, hseen, hwalked, haccepted⟩ := walkEntry_ok hsink hentry
    obtain ⟨taken, hmembers, hseen', hwalked', haccepted'⟩ := ih hrest
    rw [hseen] at hmembers hseen'
    refine ⟨(entry, artifact) :: taken, .cons hmem hholds hnew hmembers, ?_, ?_, ?_⟩
    · rw [hseen']
      simp [takenPaths]
    · rw [hwalked', hwalked, List.append_assoc]
      rfl
    · rw [haccepted', haccepted, List.append_assoc]
      rfl

/-- The entries before the one a walk stops at are members, and they alone have been accepted. -/
theorem walkMembers_error (hsink : sink.Honest lib) (h : walkMembers sink.logged manifest membersLimit items w = .error e w') :
    ∃ k taken, k < items.length ∧ Members lib manifest w.seen (items.take k) taken ∧
      w'.sink.accepted = w.sink.accepted ++ taken.map Prod.snd ∧
      (sink.Willing → membersLimit = none → (manifest.artifacts.map PayloadArtifact.archivePath).Nodup →
        ∀ member, (∃ item, items[k]? = some item ∧ IsMember lib manifest item member) →
          member.2.archivePath ∈ takenPaths taken ++ w.seen) := by
  induction items generalizing w with
  | nil => cases h
  | cons item items ih =>
    rcases bind_error h with hentry | ⟨_, w₁, hentry, hrest⟩
    · obtain ⟨haccepted, hwilling⟩ := walkEntry_error hsink hentry
      refine ⟨0, [], Nat.zero_lt_succ _, .nil, by rw [haccepted]; exact (List.append_nil _).symm, ?_⟩
      rintro hsink hlimit hnodup ⟨entry, artifact⟩ ⟨_, hitem, rfl, hmem, hholds⟩
      exact hwilling hsink hlimit hnodup entry artifact (Option.some.inj hitem) hmem hholds
    · obtain ⟨entry, artifact, rfl, hmem, hholds, hnew, hseen, hwalked, haccepted⟩ := walkEntry_ok hsink hentry
      obtain ⟨k, taken, hk, hmembers, haccepted', hwilling⟩ := ih hrest
      rw [hseen] at hmembers hwilling
      refine ⟨k + 1, (entry, artifact) :: taken, Nat.succ_lt_succ hk, .cons hmem hholds hnew hmembers, ?_, ?_⟩
      · rw [haccepted', haccepted, List.append_assoc]
        rfl
      · rintro hsink hlimit hnodup member ⟨item, hitem, hmember⟩
        have hpath := hwilling hsink hlimit hnodup member ⟨item, hitem, hmember⟩
        simpa [takenPaths, or_left_comm] using hpath

theorem Members.walks (hsink : sink.Honest lib) (hwilling : sink.Willing)
    (hnodup : (manifest.artifacts.map PayloadArtifact.archivePath).Nodup) (h : Members lib manifest w.seen items taken) :
    ∃ w', walkMembers sink.logged manifest none items w = .ok () w' := by
  rcases hrun : walkMembers sink.logged manifest none items w with ⟨_, w'⟩ | ⟨e, w'⟩
  · exact ⟨w', rfl⟩
  exfalso
  induction items generalizing w taken with
  | nil => cases hrun
  | cons item items ih =>
    obtain _ | ⟨hmem, hholds, hnew, hmembers⟩ := h
    rcases bind_error hrun with hentry | ⟨_, w₁, hentry, hrest⟩
    · exact hnew ((walkEntry_error hsink hentry).2 hwilling rfl hnodup _ _ rfl hmem hholds)
    · obtain ⟨entry', artifact', hitem, hmem', hholds', -, hseen, -, -⟩ := walkEntry_ok hsink hentry
      cases hitem
      rw [Option.some.inj (hholds.path.symm.trans hholds'.path), ← hseen] at hmembers
      exact ih hmembers hrest

theorem rejectTrailingBytes_ok_iff {remaining : Nat} {reads : List (Except StreamFault Bytes)}
    (hremaining : remaining ≤ MAX_END_OF_ARCHIVE_BYTES) : rejectTrailingBytes remaining reads = .ok () ↔
      ∃ bytes, readToEnd reads = .ok bytes ∧ remaining + bytes.length ≤ MAX_END_OF_ARCHIVE_BYTES ∧ ∀ byte ∈ bytes, byte = 0 := by
  have hend : remaining + ([] : Bytes).length ≤ MAX_END_OF_ARCHIVE_BYTES := by simpa using hremaining
  induction reads generalizing remaining with
  | nil => exact ⟨fun _ => ⟨[], rfl, hend, fun _ hbyte => absurd hbyte List.not_mem_nil⟩, fun _ => rfl⟩
  | cons first reads ih =>
    rcases first with fault | read
    · exact ⟨nofun, fun ⟨_, hread, _⟩ => nomatch hread⟩
    unfold rejectTrailingBytes readToEnd
    by_cases hnil : read = []
    · rw [if_pos hnil, if_pos hnil]
      exact ⟨fun _ => ⟨[], rfl, hend, fun _ hbyte => absurd hbyte List.not_mem_nil⟩, fun _ => rfl⟩
    rw [if_neg hnil, if_neg hnil]
    by_cases hbad : read.any (· ≠ 0) ∨ remaining + read.length > MAX_END_OF_ARCHIVE_BYTES
    · rw [if_pos hbad]
      refine ⟨nofun, ?_⟩
      rintro ⟨bytes, hread, hlength, hzero⟩
      obtain ⟨rest, -, rfl⟩ := Checks.map_ok hread
      rcases hbad with hnonzero | hlong
      · obtain ⟨byte, hbyte, hne⟩ := List.any_eq_true.mp hnonzero
        exact absurd (hzero byte (List.mem_append_left _ hbyte)) (of_decide_eq_true hne)
      · rw [List.length_append] at hlength
        omega
    · rw [if_neg hbad]
      obtain ⟨hzero, hlong⟩ := not_or.mp hbad
      have hzero : ∀ byte ∈ read, byte = 0 := fun byte hbyte => by
        by_contra hne
        exact hzero (List.any_eq_true.mpr ⟨byte, hbyte, decide_eq_true hne⟩)
      have hrest := ih (Nat.not_lt.mp hlong) (by simpa using Nat.not_lt.mp hlong)
      refine hrest.trans ?_
      constructor
      · rintro ⟨bytes, hread, hlength, hbytes⟩
        refine ⟨read ++ bytes, by rw [hread]; rfl, by rw [List.length_append]; omega, fun byte hbyte => ?_⟩
        exact (List.mem_append.mp hbyte).elim (hzero byte) (hbytes byte)
      · rintro ⟨bytes, hread, hlength, hbytes⟩
        obtain ⟨rest, hrest, rfl⟩ := Checks.map_ok hread
        rw [List.length_append] at hlength
        exact ⟨rest, hrest, by omega, fun byte hbyte => hbytes byte (List.mem_append_right _ hbyte)⟩

theorem compareMemberListFrom_ok_iff {index : Nat} {bound walked : List ArchiveMember} :
    compareMemberListFrom index bound walked = .ok () ↔ walked = bound := by
  induction bound generalizing index walked with
  | nil => cases walked <;> simp [compareMemberListFrom]
  | cons expected bound ih =>
    rcases walked with _ | ⟨found, walked⟩
    · simp [compareMemberListFrom]
    unfold compareMemberListFrom
    split
    · next hne =>
      refine ⟨nofun, fun heq => ?_⟩
      exact absurd (List.cons.inj heq).1.symm hne
    · next heq =>
      rw [ih, not_not.mp heq, List.cons_inj_right]

theorem checkWalked_ok_iff {trailing : List (Except StreamFault Bytes)} {w : MemberWalk σ} :
    (checkWalked manifest trailing w : Except (WalkError ε) Unit) = .ok () ↔
      (∃ bytes, readToEnd trailing = .ok bytes ∧ bytes.length ≤ MAX_END_OF_ARCHIVE_BYTES ∧ ∀ byte ∈ bytes, byte = 0) ∧
        (∀ artifact ∈ manifest.artifacts, artifact.archivePath ∈ w.seen) ∧
        ∀ bound, manifest.archiveMembers = some bound → w.walked = bound := by
  have htail := @rejectTrailingBytes_ok_iff 0 trailing (Nat.zero_le MAX_END_OF_ARCHIVE_BYTES)
  simp only [Nat.zero_add] at htail
  rw [← htail]
  unfold checkWalked
  constructor
  · intro h
    obtain ⟨_, htrailing, h⟩ := Checks.bind_ok h
    obtain ⟨_, hseen, h⟩ := Checks.bind_ok h
    refine ⟨Checks.mapError_ok.mp htrailing, Checks.each_if_ok hseen, fun bound hbound => ?_⟩
    rw [hbound] at h
    exact compareMemberListFrom_ok_iff.mp (Checks.mapError_ok.mp h)
  · rintro ⟨htrailing, hseen, hbound⟩
    have heach : Checks.each (fun artifact => if artifact.archivePath ∈ w.seen then .ok ()
        else .error (.payload (.artifactMissingFromArchive artifact.archivePath) : WalkError ε)) manifest.artifacts = .ok () :=
      Checks.each_ok_iff.mpr fun artifact hmem => if_pos (hseen artifact hmem)
    rw [htrailing, Except.mapError, Checks.ok_bind, heach, Checks.ok_bind]
    rcases hmembers : manifest.archiveMembers with _ | bound
    · rfl
    · exact Checks.mapError_ok.mpr (compareMemberListFrom_ok_iff.mpr (hbound bound hmembers))

end

/-! ### The record changes nothing -/

section
variable {σ ε : Type} {sink : MemberSink σ ε} {manifest : PayloadManifest} {membersLimit : Option UInt64}

/-- A walk without its sink's record. -/
def MemberWalk.erase (w : MemberWalk (Logged σ)) : MemberWalk σ := ⟨w.sink.sink, w.seen, w.walked, w.members⟩

/-- The second outcome is the first without the record. -/
abbrev Erases {α : Type} (x : EStateM.Result (WalkError ε) (MemberWalk (Logged σ)) α) (y : EStateM.Result (WalkError ε) (MemberWalk σ) α) :
    Prop :=
  Agree (fun _ w w' => w' = w.erase) (fun _ _ => True) x y

theorem lift_erases {α : Type} {x : Except (WalkError ε) α} {w : MemberWalk (Logged σ)} : Erases (lift x w) (lift x w.erase) :=
  Agree.lift (fun _ => rfl) trivial

theorem receive_erases {artifact : PayloadArtifact} {path : String} {data : MemberData} {w : MemberWalk (Logged σ)} :
    Erases (onSink (sink.logged.receive artifact path data) SinkFault.walkError w)
      (onSink (sink.receive artifact path data) SinkFault.walkError w.erase) := by
  unfold onSink MemberSink.logged MemberWalk.erase
  dsimp only
  cases sink.receive artifact path data w.sink.sink with
  | ok received s => exact .ok rfl
  | error fault s => exact .error trivial

theorem accept_erases {w : MemberWalk (Logged σ)} :
    Erases (onSink sink.logged.accept .sink w) (onSink sink.accept .sink w.erase) := by
  unfold onSink MemberSink.logged MemberWalk.erase
  dsimp only
  cases sink.accept w.sink.sink with
  | ok _ s => exact .ok rfl
  | error fault s => exact .error trivial

theorem countMember_erases {w : MemberWalk (Logged σ)} :
    Erases ((countMember membersLimit : Walks (Logged σ) ε Unit) w) (countMember membersLimit w.erase) := by
  unfold countMember
  cases membersLimit with
  | none => exact .ok rfl
  | some limit =>
    dsimp only [MemberWalk.erase]
    by_cases hlimit : min (w.members + 1) U64_MAX > limit.toNat
    · rw [if_pos hlimit, if_pos hlimit]
      exact .error trivial
    · rw [if_neg hlimit, if_neg hlimit]
      exact .ok rfl

theorem claimArtifact_erases {path : String} {w : MemberWalk (Logged σ)} :
    Erases ((claimArtifact manifest path : Walks (Logged σ) ε PayloadArtifact) w) (claimArtifact manifest path w.erase) := by
  unfold claimArtifact
  cases byPath manifest path with
  | none => exact .error trivial
  | some artifact =>
    dsimp only
    by_cases hseen : artifact.archivePath ∈ w.seen
    · have hseen' : artifact.archivePath ∈ w.erase.seen := hseen
      rw [if_pos hseen, if_pos hseen']
      exact .error trivial
    · have hseen' : artifact.archivePath ∉ w.erase.seen := hseen
      rw [if_neg hseen, if_neg hseen']
      exact .ok rfl

theorem walkEntry_erases {item : Except StreamFault ArchiveEntry} {w : MemberWalk (Logged σ)} :
    Erases (walkEntry sink.logged manifest membersLimit item w) (walkEntry sink manifest membersLimit item w.erase) := by
  refine lift_erases.bind fun entry w₁ _ h₁ => ?_
  subst h₁
  refine countMember_erases.bind fun _ w₂ _ h₂ => ?_
  subst h₂
  refine lift_erases.bind fun path w₃ _ h₃ => ?_
  subst h₃
  refine claimArtifact_erases.bind fun artifact w₄ _ h₄ => ?_
  subst h₄
  refine receive_erases.bind fun received w₅ _ h₅ => ?_
  subst h₅
  obtain ⟨digest, length⟩ := received
  dsimp only
  by_cases hdigest : (!eqIgnoreAsciiCase digest artifact.sha256) = true
  · rw [if_pos hdigest, if_pos hdigest]
    exact .error trivial
  · rw [if_neg hdigest, if_neg hdigest]
    refine accept_erases.bind fun _ w₆ _ h₆ => ?_
    subst h₆
    exact .ok rfl

theorem walkMembers_erases {items : List (Except StreamFault ArchiveEntry)} {w : MemberWalk (Logged σ)} :
    Erases (walkMembers sink.logged manifest membersLimit items w) (walkMembers sink manifest membersLimit items w.erase) := by
  induction items generalizing w with
  | nil => exact .ok rfl
  | cons item items ih =>
    refine walkEntry_erases.bind fun _ w₁ _ h₁ => ?_
    subst h₁
    exact ih

/-- A sink behaves alike with and without its record. -/
theorem walkEntries_logged (sink : MemberSink σ ε) (manifest : PayloadManifest) (membersLimit : Option UInt64)
    (archive : DecodedArchive) (log : Logged σ) :
    Erases (walkEntries sink.logged manifest membersLimit archive (.new log))
      (walkEntries sink manifest membersLimit archive (.new log.sink)) := by
  refine walkMembers_erases.bind fun _ w₁ _ h₁ => ?_
  subst h₁
  exact lift_erases

end

/-! ### Which archives pass -/

section
variable {σ ε : Type} {lib : Externals} {sink : MemberSink σ ε} {manifest : PayloadManifest} {membersLimit : Option UInt64}
  {archive : DecodedArchive} {taken : List (ArchiveEntry × PayloadArtifact)} {w : MemberWalk (Logged σ)} {log : Logged σ}

theorem isMember_of_mem {items : List (Except StreamFault ArchiveEntry)} {member : ArchiveEntry × PayloadArtifact}
    (h : List.Forall₂ (IsMember lib manifest) items taken) (hmember : member ∈ taken) :
    member.2 ∈ manifest.artifacts ∧ member.1.Holds lib member.2 := by
  induction h with
  | nil => cases hmember
  | cons hitem _ ih =>
    rcases List.mem_cons.mp hmember with rfl | hmember
    · exact hitem.2
    · exact ih hmember

/-- Under distinct paths, a path that was taken is that of a taken artifact. -/
theorem mem_of_mem_takenPaths {items : List (Except StreamFault ArchiveEntry)} {artifact : PayloadArtifact}
    (hnodup : (manifest.artifacts.map PayloadArtifact.archivePath).Nodup)
    (h : List.Forall₂ (IsMember lib manifest) items taken) (hmem : artifact ∈ manifest.artifacts)
    (hpath : artifact.archivePath ∈ takenPaths taken) : artifact ∈ taken.map Prod.snd := by
  obtain ⟨member, hmember, hsame⟩ := List.mem_map.mp hpath
  have hfound := (isMember_of_mem h hmember).1
  exact List.mem_map.mpr ⟨member, hmember, List.inj_on_of_nodup_map hnodup hfound hmem hsame⟩

/-- Under distinct paths, an item is the member of one artifact only. -/
theorem isMember_unique (hnodup : (manifest.artifacts.map PayloadArtifact.archivePath).Nodup) :
    Relator.RightUnique (IsMember lib manifest) := by
  rintro _ ⟨entry, artifact⟩ ⟨entry', artifact'⟩ ⟨rfl, hmem, hholds⟩ ⟨hsame, hmem', hholds'⟩
  obtain rfl : entry = entry' := Except.ok.inj hsame
  have hpath := Option.some.inj (hholds.path.symm.trans hholds'.path)
  exact congrArg (Prod.mk entry) (List.inj_on_of_nodup_map hnodup hmem hmem' hpath)

/-- An archive that passes is one the manifest admits, and its members are what the sink has accepted. -/
theorem walkEntries_ok (hsink : sink.Honest lib) (hnodup : (manifest.artifacts.map PayloadArtifact.archivePath).Nodup)
    (h : walkEntries sink.logged manifest membersLimit archive (.new log) = .ok () w) :
    ∃ taken, manifest.Admits lib archive taken ∧ w.sink.accepted = log.accepted ++ taken.map Prod.snd := by
  obtain ⟨_, w₁, hmembers, h₁⟩ := bind_ok h
  obtain ⟨taken, htaken, hseen, hwalked, haccepted⟩ := walkMembers_ok hsink hmembers
  obtain ⟨hchecked, rfl⟩ := lift_ok (h₁ : lift (checkWalked manifest archive.trailing w₁) w₁ = .ok () w)
  obtain ⟨htail, hcomplete, hbound⟩ := checkWalked_ok_iff.mp hchecked
  refine ⟨taken, ⟨htaken.forall₂, htaken.distinct.1, fun artifact hmem => ?_, htail, fun bound hmembers => ?_⟩, haccepted⟩
  · refine mem_of_mem_takenPaths hnodup htaken.forall₂ hmem ?_
    have hpath := hcomplete artifact hmem
    rw [hseen] at hpath
    simpa [MemberWalk.new] using hpath
  · rw [← hbound bound hmembers, hwalked]
    rfl

/-- A sink that does not fail by itself lets every admitted archive pass. -/
theorem walkEntries_of_admits (hsink : sink.Honest lib) (hwilling : sink.Willing)
    (hnodup : (manifest.artifacts.map PayloadArtifact.archivePath).Nodup) (h : manifest.Admits lib archive taken) :
    ∃ w, walkEntries sink.logged manifest none archive (.new log) = .ok () w := by
  have hmembers : Members lib manifest (MemberWalk.new log).seen archive.entries taken :=
    .of_forall₂ h.members h.distinct fun _ _ => List.not_mem_nil
  obtain ⟨w, hwalk⟩ := hmembers.walks hsink hwilling hnodup
  obtain ⟨taken', htaken', hseen, hwalked, -⟩ := walkMembers_ok hsink hwalk
  obtain rfl : taken = taken' := (isMember_unique hnodup).forall₂ h.members htaken'.forall₂
  have hchecked : (checkWalked manifest archive.trailing w : Except (WalkError ε) Unit) = .ok () := by
    refine checkWalked_ok_iff.mpr ⟨h.tail, fun artifact hmem => ?_, fun bound hbound => ?_⟩
    · obtain ⟨member, hmember, rfl⟩ := List.mem_map.mp (h.complete artifact hmem)
      rw [hseen]
      exact List.mem_append_left _ (List.mem_reverse.mpr (List.mem_map_of_mem hmember))
    · rw [hwalked, h.bound bound hbound]
      rfl
  refine ⟨w, ?_⟩
  rw [walkEntries, bind_of_ok hwalk]
  show lift (checkWalked manifest archive.trailing w) w = _
  rw [hchecked]
  rfl

/-- The walk passes the archives whose entries are the manifest's members, each regular, named and sized by its own
header, at a safe path, under the digest that is bound, and none twice; with none missing, with at most a block of
zero bytes behind them, and in the order and of the lengths that are bound. What the sink accepts are then the
manifest's artifacts; where the walk stops, they are those of the entries before the one it stops at. -/
theorem walk_of_admissible {door : Door} (hmanifest : manifest.Obtained lib door) (hsink : sink.Honest lib)
    (archive : DecodedArchive) (s : σ) :
    (sink.Willing → ((∃ w, walkEntries sink manifest none archive (.new s) = .ok () w) ↔
      ∃ taken, manifest.Admits lib archive taken)) ∧
    (∀ w, walkEntries sink.logged manifest none archive (.new ⟨s, none, []⟩) = .ok () w →
      ∃ taken, manifest.Admits lib archive taken ∧ w.sink.accepted = taken.map Prod.snd ∧
        w.sink.accepted.Perm manifest.artifacts) ∧
    (∀ e w, walkEntries sink.logged manifest none archive (.new ⟨s, none, []⟩) = .error e w →
      ∃ k taken, List.Forall₂ (IsMember lib manifest) (archive.entries.take k) taken ∧ (takenPaths taken).Nodup ∧
        w.sink.accepted = taken.map Prod.snd ∧
        (sink.Willing → ∀ item member, archive.entries[k]? = some item → IsMember lib manifest item member →
          member.2.archivePath ∈ takenPaths taken)) := by
  have hnodup := hmanifest.sound.nodup
  refine ⟨fun hwilling => ⟨fun ⟨w, hwalk⟩ => ?_, fun ⟨taken, htaken⟩ => ?_⟩, fun w hwalk => ?_, fun e w hwalk => ?_⟩
  · rcases (walkEntries_logged sink manifest none archive ⟨s, none, []⟩).cases with
      ⟨_, w', _, hlogged, -, -⟩ | ⟨e, _, _, -, hplain, -⟩
    · obtain ⟨taken, htaken, -⟩ := walkEntries_ok hsink hnodup hlogged
      exact ⟨taken, htaken⟩
    · cases hwalk.symm.trans hplain
  · obtain ⟨w, hlogged⟩ : ∃ w, walkEntries sink.logged manifest none archive (.new ⟨s, none, []⟩) = .ok () w :=
      walkEntries_of_admits hsink hwilling hnodup htaken
    rcases (walkEntries_logged sink manifest none archive ⟨s, none, []⟩).cases with
      ⟨_, _, w', -, hplain, -⟩ | ⟨e, _, _, hfailed, -, -⟩
    · exact ⟨w', hplain⟩
    · cases hlogged.symm.trans hfailed
  · obtain ⟨taken, htaken, haccepted⟩ := walkEntries_ok hsink hnodup hwalk
    have haccepted : w.sink.accepted = taken.map Prod.snd := haccepted
    refine ⟨taken, htaken, haccepted, haccepted ▸ ?_⟩
    have hdistinct : (taken.map Prod.snd).Nodup := by
      have hpaths : ((taken.map Prod.snd).map PayloadArtifact.archivePath).Nodup := by
        rw [List.map_map]
        exact htaken.distinct
      exact hpaths.of_map _
    refine (List.perm_ext_iff_of_nodup hdistinct (hnodup.of_map _)).mpr fun artifact => ⟨fun hmem => ?_, htaken.complete artifact⟩
    obtain ⟨member, hmember, rfl⟩ := List.mem_map.mp hmem
    exact (isMember_of_mem htaken.members hmember).1
  · rcases bind_error hwalk with hmembers | ⟨_, w₁, hmembers, h₁⟩
    · obtain ⟨k, taken, -, htaken, haccepted, hfailing⟩ := walkMembers_error hsink hmembers
      refine ⟨k, taken, htaken.forall₂, htaken.distinct.1, haccepted, fun hwilling item member hitem hmember => ?_⟩
      have hpath := hfailing hwilling rfl hnodup member ⟨item, hitem, hmember⟩
      simpa [MemberWalk.new] using hpath
    · obtain ⟨taken, htaken, -, -, haccepted⟩ := walkMembers_ok hsink hmembers
      obtain ⟨-, rfl⟩ := lift_error (h₁ : lift (checkWalked manifest archive.trailing w₁) w₁ = .error e w)
      refine ⟨archive.entries.length, taken, ?_, htaken.distinct.1, haccepted, fun _ item member hitem _ => ?_⟩
      · rw [List.take_length]
        exact htaken.forall₂
      · rw [List.getElem?_length] at hitem
        cases hitem

end

/-- A sink that hashes its members and keeps nothing. -/
def hashingSink (lib : Externals) : MemberSink Unit Empty where
  receive _ _ data := fun s =>
    match data.fault with
    | some fault => .error (.stream fault) s
    | none => .ok (toHex (lib.sha256 data.bytes), .ofNat data.bytes.length) s
  accept := fun s => .ok () s

theorem honest_hashingSink (lib : Externals) : (hashingSink lib).Honest lib := by
  intro artifact path data s digest length s' h
  unfold hashingSink at h
  dsimp only at h
  split at h <;> cases h
  next hwhole => exact ⟨hwhole, rfl, rfl⟩

theorem willing_hashingSink (lib : Externals) : (hashingSink lib).Willing := by
  refine ⟨fun artifact path data s hwhole => ?_, fun s => ⟨s, rfl⟩⟩
  unfold hashingSink
  dsimp only
  rw [hwhole]
  exact ⟨_, _, rfl⟩

/-- An archive of the one member of `PayloadManifest.signedManifest`. -/
def oneMemberArchive : DecodedArchive where
  entries := [.ok ⟨.regular, asBytes "a", asBytes "a", .ok 3, 3, ⟨[1, 2, 3], none⟩⟩]
  trailing := [.ok (List.replicate 512 0), .ok []]

theorem walk_of_admissible_one_member :
    ∃ w, walkEntries (hashingSink { PayloadManifest.signedExternals with sha256 := fun _ => [0] })
      PayloadManifest.signedManifest none oneMemberArchive (.new ()) = .ok () w := by
  have hnew : PayloadManifest.new none [⟨"a", 3⟩] PayloadManifest.signedManifest.artifacts =
      .ok { PayloadManifest.signedManifest with releaseBuild := false, trustSet := none } := rfl
  have htrust : PayloadManifest.withTrustSet
      { PayloadManifest.signedManifest with releaseBuild := false, trustSet := none } [1, 2, 3] =
      .ok { PayloadManifest.signedManifest with releaseBuild := false } := rfl
  refine ((walk_of_admissible (.withReleaseBuild (.withTrustSet (.new hnew) htrust)) (honest_hashingSink _)
    oneMemberArchive ()).1 (willing_hashingSink _)).mpr ⟨[(_, _)], .cons ⟨rfl, List.mem_singleton.mpr rfl, ?_⟩ .nil, ?_, ?_, ?_, ?_⟩
  · have hpath : String.fromUTF8? (asBytes "a").toByteArray = some "a" := Utf8.fromUTF8?_encode (m := ['a'])
    exact ⟨rfl, rfl, rfl, hpath, by decide, rfl, by decide⟩
  · exact List.nodup_singleton _
  · exact fun _ hmem => hmem
  · refine ⟨List.replicate 512 0, ?_, List.length_replicate.le, fun _ hmem => List.eq_of_mem_replicate hmem⟩
    exact congrArg Except.ok (List.append_nil (List.replicate 512 0))
  · rintro _ ⟨⟩
    rfl

end DeployCore
