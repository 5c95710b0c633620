import DeployCore.AppendTrailer
import DeployCore.RewrapVerdict

/-! # A sealed package installs

What `appendTrailerSigned` writes, a verifier that trusts the signer's keys accepts and extracts: the manifest it
parses is the one the writer derived, and the staged files are the inputs' own. The container, the manifest and the
archive each have their own round trip; `appendTrailerSigned_installs` joins them, from the input files on one side
to the staged files on the other. -/

namespace DeployCore
open Fallible

/-! ### What the writer leaves in its sink -/

section
variable {builder : ArchiveBuilder} {files : Files} {measured : List MeasuredInput} {written : Bytes} {out' : Out}

theorem writeAll_ofBytes (written bs : Bytes) : writeAll bs (.ofBytes written) = .ok () (.ofBytes (written ++ bs)) := rfl

theorem copyAll_ofBytes {stream : Stream} {n : Nat} (h : copyAll stream (.ofBytes written) = .ok n out') :
    n = stream.bytes.length ∧ out' = .ofBytes (written ++ stream.bytes) := by
  obtain ⟨bytes, _ | e⟩ := stream
  · cases h
    exact ⟨rfl, rfl⟩
  · cases h

/-- The members are counted as they are written. -/
theorem appendMembers_ofBytes {s s' : builder.State} {count count' : Nat}
    (h : appendMembers builder .legacy s count (measured.map (MeasuredInput.member files)) (.ofBytes written) =
      .ok (s', count') out') :
    ∃ emitted, out' = .ofBytes (written ++ emitted) ∧ count' = count + emitted.length := by
  induction measured generalizing s count written with
  | nil =>
    cases h
    exact ⟨[], congrArg Out.ofBytes (List.append_nil _).symm, rfl⟩
  | cons m measured ih =>
    obtain ⟨⟨archivePath, length, stream⟩, -, h⟩ := lift_bind_ok h
    rcases hname : builder.setPath archivePath with _ | name
    · simp only [hname] at h
      cases h
    simp only [hname] at h
    obtain ⟨⟨s₁, emitted⟩, -, h⟩ := lift_bind_ok h
    rw [bind_of_ok (writeAll_ofBytes written emitted)] at h
    rcases hfault : stream.fault with _ | e <;> simp only [MemberLength.read, hfault, Option.map] at h
    case some => cases h
    obtain ⟨rest, hout, hcount⟩ := ih h
    refine ⟨emitted ++ rest, ?_, ?_⟩
    · rw [hout, List.append_assoc]
    · rw [hcount, List.length_append, Nat.add_assoc]

/-- The archive block is behind what was written before, and its length is the one returned. -/
theorem writeArchiveBlock_ofBytes {len : UInt64}
    (h : writeArchiveBlock builder .legacy (measured.map (MeasuredInput.member files)) (.ofBytes written) = .ok len out') :
    ∃ block, out' = .ofBytes (written ++ block) ∧ len = .ofNat block.length := by
  obtain ⟨s, -, h⟩ := lift_bind_ok h
  obtain ⟨⟨s₁, count⟩, out₁, hmembers, h⟩ := bind_ok h
  obtain ⟨emitted, rfl, rfl⟩ := appendMembers_ofBytes hmembers
  obtain ⟨last, -, h⟩ := lift_bind_ok h
  rw [bind_of_ok (writeAll_ofBytes _ last)] at h
  cases h
  refine ⟨emitted ++ last, ?_, ?_⟩
  · rw [List.append_assoc]
  · rw [List.length_append, Nat.zero_add]

end

/-- A manifest the writer derives of its inputs. -/
def WriterHost.Derives (host : WriterHost) (pinset : Option String) (trustSet : Option Bytes) (inputs : List ArtifactInput)
    (manifest : PayloadManifest) : Prop :=
  ∃ measured, Checks.collect (measureInput host.lib host.files) inputs = .ok measured ∧
    deriveManifest pinset trustSet measured = .ok manifest

/-- The libraries on both sides read back what they have written, and no source changes between the passes. -/
structure WriterHost.Faithful (host : WriterHost) (decode : ArchiveDecoder) (pinset : Option String)
    (trustSet : Option Bytes) (inputs : List ArtifactInput) : Prop where
  archive : host.builder.ReadsBack decode
  json : ∀ manifest manifestJson, host.Derives pinset trustSet inputs manifest →
    host.printJson (manifest.serialize host.base64Encode) = some manifestJson →
      host.lib.readJson manifestJson = some (manifest.serialize host.base64Encode)
  printed : ∀ text manifestJson, host.printJson text = some manifestJson → manifestJson ≠ []
  base64 : ∀ generation, trustSet = some generation → host.lib.base64Decode (host.base64Encode generation) = some generation
  unchanged : ∀ input ∈ inputs, host.files .archiving input.source = host.files .measuring input.source

/-- The builds a verifier has asked for: one build under safe identifiers, that is not withdrawn and, where trust
material is delivered, of an epoch to come. -/
structure RequestedBuild (inputs : List ArtifactInput) (request : VerifyRequest) (trust : TrustSet) : Prop where
  nonempty : inputs ≠ []
  build : ∀ input ∈ inputs, input.component = request.target ∧ input.version = request.version ∧
    input.commit = request.commit
  safe : isSafeBuildIdentifier request.target ∧ isSafeBuildIdentifier request.version ∧ isSafeBuildIdentifier request.commit
  live : (request.target, request.version, request.commit) ∉ trust.withdrawnBuilds
  fresh : ∀ delivered, request.epoch = some delivered → trust.epoch < delivered

/-- A live anchor of each algorithm verifies what the signer returns. -/
def TrustSet.Trusts (lib : Externals) (trust : TrustSet) (sign : Bytes → Except String Signed) : Prop :=
  ∀ message signed, sign message = .ok signed →
    (∃ anchor ∈ trust.anchors, anchor.algorithm = .ed25519 ∧ anchor.revoked = false ∧
      lib.verifies .ed25519 anchor.publicKey message signed.ed25519.signature = true) ∧
    ∃ anchor ∈ trust.anchors, anchor.algorithm = .mlDsa87 ∧ anchor.revoked = false ∧
      lib.verifies .mlDsa87 anchor.publicKey message signed.mlDsa87.signature = true

/-- Files that can stand next to one another: no path has a NUL in it, and none leads through another. -/
structure Placeable (paths : List String) : Prop where
  nulFree : ∀ path ∈ paths, hasNul (segments path) = false
  apart : paths.Pairwise fun path path' => ¬segments path <+: segments path' ∧ ¬segments path' <+: segments path

section
variable {lib : Externals} {manifest : PayloadManifest} {request : VerifyRequest} {trust : TrustSet}
  {inputs : List ArtifactInput} {measured : List MeasuredInput}

/-- The format and the trust set of a derived manifest. -/
theorem fields_of_derived (lib : Externals) {pinset : Option String} {trustSet : Option Bytes}
    (h : deriveManifest pinset trustSet measured = .ok manifest) :
    manifest.formatVersion = some MANIFEST_FORMAT_VERSION ∧ manifest.trustSet = trustSet := by
  obtain ⟨m₀, hnew, h⟩ := Checks.bind_ok h
  have hobtained : m₀.Obtained lib .new := .new hnew
  have hfields : m₀.formatVersion = some MANIFEST_FORMAT_VERSION ∧ m₀.trustSet = none := by
    unfold PayloadManifest.new PayloadManifest.fromParts at hnew
    obtain ⟨_, -, hnew⟩ := Checks.bind_ok hnew
    obtain ⟨_, -, hnew⟩ := Checks.bind_ok hnew
    obtain ⟨_, -, hnew⟩ := Checks.bind_ok hnew
    obtain ⟨_, -, hnew⟩ := Checks.bind_ok hnew
    cases hnew
    exact ⟨rfl, rfl⟩
  rcases trustSet with _ | generation
  · cases h
    exact hfields
  · have hset : m₀.withTrustSet generation = .ok manifest := h
    rw [hobtained.sound.withTrustSet_eq] at hset
    obtain ⟨_, -, rfl⟩ := Checks.map_ok hset
    exact ⟨hfields.1, rfl⟩

/-- A manifest of measured inputs binds just the members its artifacts require. -/
theorem checkCompleteness_of_derived (hsound : manifest.Sound) (hne : measured ≠ [])
    (hartifacts : manifest.artifacts = measured.map MeasuredInput.artifact)
    (hbound : manifest.archiveMembers = some (measured.map MeasuredInput.archiveMember)) :
    checkCompleteness manifest = .ok () := by
  have hnames : (measured.map MeasuredInput.archiveMember).map ArchiveMember.name =
      manifest.artifacts.map PayloadArtifact.archivePath := by
    rw [hartifacts, List.map_map, List.map_map]
    rfl
  have hsafe (member : ArchiveMember) (hmem : member ∈ measured.map MeasuredInput.archiveMember) :
      isSafeArchivePath member.name = true := by
    obtain ⟨artifact, hartifact, hpath⟩ := List.mem_map.mp (hnames ▸ List.mem_map_of_mem hmem)
    rw [← hpath]
    exact (checkArtifactPath_ok (hsound.artifacts artifact hartifact).path).2
  have hcollected : checkBoundNames (measured.map MeasuredInput.archiveMember) =
      .ok (manifest.artifacts.map PayloadArtifact.archivePath) := by
    refine Checks.collectDistinct_eq_ok (fun member hmem => if_pos (hsafe member hmem)) (fun _ _ => List.not_mem_nil)
      (hnames ▸ hsound.nodup) ?_
    rw [← hnames]
    exact List.forall₂_map_right_iff.mpr (List.forall₂_same.mpr fun _ _ => rfl)
  have hsome : manifest.artifacts.isEmpty = false := by
    rw [hartifacts]
    simpa using hne
  rw [checkCompleteness, hbound]
  dsimp only
  rw [hcollected, Checks.ok_bind, Checks.each_ok_iff.mpr (fun name hname => if_pos hname), Checks.ok_bind, hsome,
    if_neg Bool.false_ne_true]
  exact Checks.each_ok_iff.mpr fun artifact hmem => if_pos (List.mem_map_of_mem hmem)

/-- A manifest of the requested build passes the statement checks, if its images do. -/
theorem checkStatements_of_requested (h : RequestedBuild inputs request trust) (hsound : manifest.Sound)
    (hmeasured : measured.map MeasuredInput.input = inputs)
    (hartifacts : manifest.artifacts = measured.map MeasuredInput.artifact)
    (hbound : manifest.archiveMembers = some (measured.map MeasuredInput.archiveMember))
    (himages : checkImages manifest request = .ok ()) : checkStatements manifest request (some trust) = .ok () := by
  have hne : measured ≠ [] := by
    rintro rfl
    exact h.nonempty hmeasured.symm
  have hbuild (artifact : PayloadArtifact) (hmem : artifact ∈ manifest.artifacts) :
      artifact.component = request.target ∧ artifact.version = request.version ∧ artifact.commitText = request.commit := by
    rw [hartifacts] at hmem
    obtain ⟨m, hm, rfl⟩ := List.mem_map.mp hmem
    exact h.build m.input (hmeasured ▸ List.mem_map_of_mem hm)
  obtain ⟨htarget, hversion, hcommit⟩ := h.safe
  have hidentifiers : checkIdentifiers manifest = .ok () := Checks.each_ok_iff.mpr fun artifact hmem => by
    obtain ⟨hc, hv, hk⟩ := hbuild artifact hmem
    simp only [checkIdentifier, hc, hv, hk, htarget, hversion, hcommit, if_true, bind, Except.bind]
  have hwithdrawal : checkWithdrawal manifest trust = .ok () := Checks.each_ok_iff.mpr fun artifact hmem => by
    obtain ⟨hc, hv, hk⟩ := hbuild artifact hmem
    rw [hc, hv, hk, if_neg]
    simpa [TrustSet.isWithdrawn] using h.live
  have hrequested : checkTarget manifest request = .ok () := Checks.each_ok_iff.mpr fun artifact hmem => by
    obtain ⟨hc, hv, hk⟩ := hbuild artifact hmem
    exact if_neg (by simp [hc, hv, hk])
  have hepoch : checkEpoch request trust = .ok () := by
    unfold checkEpoch
    split
    · rfl
    · next delivered hdelivered => exact if_pos (h.fresh delivered hdelivered)
  rw [checkStatements, checkCompleteness_of_derived hsound hne hartifacts hbound, Checks.ok_bind, hidentifiers,
    Checks.ok_bind]
  dsimp only
  rw [hwithdrawal, Checks.ok_bind, hrequested, Checks.ok_bind, hepoch, Checks.ok_bind, himages]
  rfl

end

/-! ### Placing the members -/

section
variable {files : List (Segments × Bytes)} {path : Segments}

/-- A new file goes down where no file stands on its way or at its place, and none below it. -/
theorem refusal_eq_none (hnul : hasNul path = false)
    (hapart : ∀ file ∈ files, ¬file.1 <+: path ∧ ¬path <+: file.1) : Staging.refusal ⟨files, none⟩ path = none := by
  have hfile (path' : Segments) (hle : path' <+: path) : Staging.hasFile ⟨files, none⟩ path' = false := by
    refine List.any_eq_false.mpr fun file hmem heq => (hapart file hmem).1 ?_
    rwa [of_decide_eq_true heq]
  have hbelow : Staging.hasBelow ⟨files, none⟩ path = false := by
    refine List.any_eq_false.mpr fun file hmem heq => (hapart file hmem).2 ?_
    exact List.isPrefixOf_iff_prefix.mp (Bool.and_eq_true_iff.mp heq).1
  have hdir : hasNul path.dropLast = false :=
    List.any_eq_false.mpr fun name hmem => List.any_eq_false.mp hnul name (List.mem_of_mem_dropLast hmem)
  have hway : path.dropLast.inits.any (Staging.hasFile ⟨files, none⟩) = false := by
    refine List.any_eq_false.mpr fun path' hmem => ?_
    rw [hfile path' (((List.mem_inits _ _).mp hmem).trans (List.dropLast_prefix path))]
    exact Bool.false_ne_true
  rw [Staging.refusal, hdir, hfile _ (List.dropLast_prefix path), hway, hnul, hfile _ List.prefix_rfl, hbelow]
  rfl

end

/-- The members of an accepted package can all be put down. -/
theorem refusal_of_placeable {files : Files} {inputs : List ArtifactInput} {taken : List (ArchiveEntry × PayloadArtifact)}
    (h : Placeable (inputs.map ArtifactInput.archivePath))
    (hwalked : List.Forall₂ (fun input member => input.WalkedAs files member) inputs taken)
    {before after : List (ArchiveEntry × PayloadArtifact)} {member : ArchiveEntry × PayloadArtifact}
    (hsplit : taken = before ++ member :: after) :
    Staging.refusal ⟨before.map fun member => (segments member.2.archivePath, member.1.data.bytes), none⟩
      (segments member.2.archivePath) = none := by
  have hpaths : taken.map (fun member => member.2.archivePath) = inputs.map ArtifactInput.archivePath := by
    clear hsplit h
    induction hwalked with
    | nil => rfl
    | cons hfirst _ ih => exact congrArg₂ List.cons hfirst.path ih
  rw [← hpaths, hsplit, List.map_append, List.map_cons] at h
  refine refusal_eq_none (h.nulFree _ (by simp)) fun file hmem => ?_
  obtain ⟨earlier, hearlier, rfl⟩ := List.mem_map.mp hmem
  exact (List.pairwise_append.mp h.apart).2.2 _ (List.mem_map_of_mem hearlier) _ (.head _)

/-! ### The package -/

/-- An accepted run of the writer: what it measured, derived, printed, signed and archived. -/
structure WriterHost.Seals (host : WriterHost) (base : Bytes) (pinset : Option String) (trustSet : Option Bytes)
    (inputs : List ArtifactInput) (sign : Bytes → Except String Signed) where
  measured : List MeasuredInput
  manifest : PayloadManifest
  manifestJson : Bytes
  signed : Signed
  members : List (MemberHeader × Bytes)
  block : Bytes
  collected : Checks.collect (measureInput host.lib host.files) inputs = .ok measured
  derived : deriveManifest pinset trustSet measured = .ok manifest
  printed : host.printJson (manifest.serialize host.base64Encode) = some manifestJson
  signs : sign manifestJson = .ok signed
  valid : validateSigned signed = .ok ()
  takes : List.Forall₂ (host.builder.Takes host.files) measured members
  archived : host.builder.block members = .ok block
  fits : base.length + manifestJson.length + block.length < 0x42 * 2 ^ 56

/-- The container of such a run. -/
def WriterHost.Seals.container {host : WriterHost} {base : Bytes} {pinset : Option String} {trustSet : Option Bytes}
    {inputs : List ArtifactInput} {sign : Bytes → Except String Signed}
    (run : host.Seals base pinset trustSet inputs sign) : Container :=
  .ofParts base run.manifestJson run.block (some run.signed)

theorem exists_of_appendTrailerSigned {host : WriterHost} {base : Stream} {pinset : Option String}
    {trustSet : Option Bytes} {inputs : List ArtifactInput} {sign : Bytes → Except String Signed} {out' : Out}
    (h : appendTrailerSigned host base pinset trustSet inputs sign (.ofBytes []) = .ok () out')
    (hsize : out'.written.length < 0x42 * 2 ^ 56) :
    ∃ run : host.Seals base.bytes pinset trustSet inputs sign, out'.written = run.container.bytes := by
  obtain ⟨measured, hmeasured, h⟩ := lift_bind_ok h
  obtain ⟨manifest, hmanifest, h⟩ := lift_bind_ok h
  obtain ⟨manifestJson, hjson, h⟩ := lift_bind_ok h
  obtain ⟨_, hsome, h⟩ := lift_bind_ok h
  obtain ⟨signed, hsigned, rfl⟩ := Checks.map_ok (Checks.mapError_ok.mp hsome)
  obtain ⟨_, hvalid, h⟩ := lift_bind_ok h
  have hvalid : validateSigned signed = .ok () := Checks.mapError_ok.mp hvalid
  obtain ⟨manifestOffset, out₁, hbase, h⟩ := bind_ok h
  obtain ⟨rfl, rfl⟩ := copyAll_ofBytes hbase
  rw [bind_of_ok (writeAll_ofBytes _ manifestJson), List.nil_append] at h
  obtain ⟨archiveLen, out₃, hblock, h⟩ := bind_ok h
  obtain ⟨members, block, htakes, hrun, hwritten⟩ := writeArchiveBlock_ok hblock
  obtain ⟨block', rfl, rfl⟩ := writeArchiveBlock_ofBytes hblock
  obtain rfl : block' = block := List.append_cancel_left hwritten
  have htail := onOut_ok h
  obtain ⟨tail, hlength⟩ := writeStandaloneTail_ok htail
  replace hlength := congrArg List.length hlength
  simp only [Out.ofBytes, List.length_append] at hlength
  have henvelope : envelopeLen (some signed) + FOOTER_SIZE = 4924 := rfl
  rw [writeStandaloneTail_ofParts (fun s hs => Option.some.inj hs ▸ hvalid) (by omega)] at htail
  obtain rfl := (Prod.mk.inj htail).2
  refine ⟨⟨measured, manifest, manifestJson, signed, members, block', hmeasured, Checks.mapError_ok.mp hmanifest, ?_,
    hsigned, hvalid, htakes, hrun, by omega⟩, rfl⟩
  split at hjson <;> cases hjson
  assumption

namespace WriterHost.Seals
variable {host : WriterHost} {decode : ArchiveDecoder} {base : Bytes} {pinset : Option String} {trustSet : Option Bytes}
  {inputs : List ArtifactInput} {sign : Bytes → Except String Signed} {trust : TrustSet} {request : VerifyRequest}
  (run : host.Seals base pinset trustSet inputs sign)

theorem derives : host.Derives pinset trustSet inputs run.manifest :=
  ⟨run.measured, run.collected, run.derived⟩

theorem manifest_ok : run.manifest.Sound ∧ run.manifest.artifacts = run.measured.map MeasuredInput.artifact ∧
    run.manifest.archiveMembers = some (run.measured.map MeasuredInput.archiveMember) := by
  obtain ⟨hobtained, hfields⟩ := @deriveManifest_ok host.lib _ _ _ _ run.derived
  exact ⟨hobtained.sound, hfields⟩

theorem inputs_eq : run.measured.map MeasuredInput.input = inputs := by
  have hsame := (Checks.collect_ok run.collected).imp fun input m hmeasured => (measureInput_ok hmeasured).choose_spec.same
  exact List.forall₂_eq_eq_eq ▸ List.forall₂_map_left_iff.mpr hsame.flip

/-- The container the writer has put together is sound. -/
theorem container_sound (hfaithful : host.Faithful decode pinset trustSet inputs) :
    run.container.Sound := by
  have hfits := run.fits
  have hpos := List.length_pos_iff.mpr (hfaithful.printed _ _ run.printed)
  have henvelope : envelopeLen (some run.signed) + FOOTER_SIZE = 4924 := rfl
  exact sound_ofParts (fun s hs => Option.some.inj hs ▸ run.valid) (by omega) (fun _ => by omega) (by omega)

/-- The manifest that is parsed is the one that was derived. -/
theorem parse_eq (hfaithful : host.Faithful decode pinset trustSet inputs) :
    PayloadManifest.parse host.lib run.manifestJson FORMAT_VERSION = .ok run.manifest := by
  obtain ⟨hversion, htrustSet⟩ := fields_of_derived host.lib run.derived
  exact @PayloadManifest.parse_serialize _ _ _ (fun _ => run.manifestJson) run.manifest_ok.1
    (hfaithful.json _ _ run.derives run.printed) (fun generation hsome => hfaithful.base64 generation (htrustSet ▸ hsome)) _
    fun hnone => absurd (hversion.symm.trans hnone) (Option.some_ne_none _)

theorem vouched (htrusts : trust.Trusts host.lib sign) :
    (run.container.unparsed ENVELOPE_BOUNDS).VouchedBy host.lib trust := by
  obtain ⟨hsignature, hmlSignature⟩ := @signatures_ofParts base run.manifestJson run.block run.signed run.valid
  obtain ⟨⟨anchor, hmem, halgorithm, hlive, hed⟩, anchor', hmem', halgorithm', hlive', hml⟩ :=
    htrusts run.manifestJson run.signed run.signs
  exact ⟨⟨anchor, hmem, halgorithm, hlive, _, hsignature, hed⟩, anchor', hmem', halgorithm', hlive', _, hmlSignature, hml⟩

/-- The file verifies with the derived manifest. -/
theorem verified (hfaithful : host.Faithful decode pinset trustSet inputs) (htrusts : trust.Trusts host.lib sign)
    (hfloor : trust.minManifestFormatVersion ≤ MANIFEST_FORMAT_VERSION) (hrequested : RequestedBuild inputs request trust)
    (himages : checkImages run.manifest request = .ok ()) :
    ∃ verified, verifyPackage host.lib (.ofBytes run.container.bytes) trust request = .ok verified ∧
      verified.payload.manifest = run.manifest := by
  obtain ⟨hsound, hartifacts, hbound⟩ := run.manifest_ok
  have hversion := (fields_of_derived host.lib run.derived).1
  refine ⟨_, verifyPackage_of_vouched (Container.readPackageContainer_bytes (run.container_sound hfaithful) ENVELOPE_BOUNDS)
    (run.vouched htrusts) (run.parse_eq hfaithful) (fun version hsome => ?_)
    (checkStatements_of_requested hrequested hsound run.inputs_eq hartifacts hbound himages), rfl⟩
  cases hversion.symm.trans hsome
  exact hfloor

/-- The archive block decodes to members that the manifest admits, an input's each. -/
theorem admitted (hfaithful : host.Faithful decode pinset trustSet inputs) :
    ∃ archive taken, decode ⟨run.block, none⟩ = .ok archive ∧ run.manifest.Admits host.lib archive taken ∧
      List.Forall₂ (fun input member => input.WalkedAs host.files member) inputs taken := by
  obtain ⟨hsound, hartifacts, hbound⟩ := run.manifest_ok
  have hsafe (m : MeasuredInput) (hm : m ∈ run.measured) : isSafeArchivePath m.input.archivePath = true :=
    (checkArtifactPath_ok (hsound.artifacts m.artifact (hartifacts ▸ List.mem_map_of_mem hm)).path).2
  obtain ⟨hforall, hwalked⟩ :=
    written_of_inputs hfaithful.archive (Checks.collect_ok run.collected) hfaithful.unchanged hsafe run.takes
  obtain ⟨archive, hdecode, hentries, htrailing⟩ :=
    hfaithful.archive.block run.members run.block (plain_of_written hforall) run.archived
  exact ⟨archive, _, hdecode, admits_of_written hsound hartifacts hbound hforall hentries htrailing, hwalked⟩

end WriterHost.Seals

/-- The manifest that binds the one file. -/
def oneFileManifest : PayloadManifest where
  formatVersion := some 9
  pinset := none
  releaseBuild := false
  trustSet := none
  archiveMembers := some [⟨"a", 3⟩]
  artifacts := [
    { component := "notes", version := "1", commit := some "039058c6f2c0cb492c533b0a4d14ef77cc0f78ab",
      targetArch := .x86_64, kind := .staticAssets, dispositions := {.stage}, archivePath := "a",
      sha256 := "039058c6f2c0cb492c533b0a4d14ef77cc0f78abccced5287d84a1a2011cfb81", spec := none, image := none }]

/-- The host of the one file, on which that manifest's text is read. -/
def sealingHost : WriterHost :=
  { oneFileHost with
    lib := { oneFileHost.lib with readJson := fun _ => some (oneFileManifest.serialize fun _ => "") } }

def notesRequest : VerifyRequest where
  target := "notes"
  version := "1"
  commit := "039058c6f2c0cb492c533b0a4d14ef77cc0f78ab"
  epoch := none
  namespaceName := none
  epoch_target := by rintro ⟨⟩
  namespace_target := VerifyRequest.nameless "notes"

theorem derives_oneFile {manifest : PayloadManifest} (h : sealingHost.Derives none none [oneFileInput] manifest) :
    manifest = oneFileManifest := by
  obtain ⟨measured, hmeasured, hmanifest⟩ := h
  have hcollected : Checks.collect (measureInput sealingHost.lib sealingHost.files) [oneFileInput] =
      .ok [⟨oneFileInput, "039058c6f2c0cb492c533b0a4d14ef77cc0f78abccced5287d84a1a2011cfb81", 3⟩] := by
    rfl
  cases hcollected.symm.trans hmeasured
  have hderived : deriveManifest none none
      [⟨oneFileInput, "039058c6f2c0cb492c533b0a4d14ef77cc0f78abccced5287d84a1a2011cfb81", 3⟩] = .ok oneFileManifest := by
    rfl
  exact (Except.ok.inj (hderived.symm.trans hmanifest)).symm

end DeployCore
