import DeployCore.ManifestDoors
import DeployCore.ManifestWrite

/-! # Every manifest is valid

A manifest comes from a constructor, one of the two readers, or another manifest through a builder;
`PayloadManifest.Obtained` closes these doors under any sequence. All of them run `PayloadManifest.fromParts`,
and what that checks it would accept again with the same result (`PayloadManifest.Sound`): the builders change
one field each, and a manifest that is written reads back as it was. -/

namespace DeployCore
open Serde Json

/-! ### The doors -/

def PayloadManifest.new (pinset : Option String) (archiveMembers : List ArchiveMember)
    (artifacts : List PayloadArtifact) : Except ManifestError PayloadManifest :=
  fromParts (some MANIFEST_FORMAT_VERSION) pinset false (some archiveMembers) (typedParts artifacts) none

def PayloadManifest.withTrustSet (m : PayloadManifest) (generation : Bytes) : Except ManifestError PayloadManifest :=
  fromParts m.formatVersion m.pinset m.releaseBuild m.archiveMembers (typedParts m.artifacts) (some generation)

def PayloadManifest.withReleaseBuild (m : PayloadManifest) : PayloadManifest :=
  { m with releaseBuild := true }

/-- The door a manifest first came through. -/
inductive Door
  | new
  | parse (footerVersion : UInt8)
  | deserialize

/-- A manifest that some sequence of doors returns. -/
inductive PayloadManifest.Obtained (lib : Externals) : Door → PayloadManifest → Prop
  | new {pinset archiveMembers artifacts m} (h : new pinset archiveMembers artifacts = .ok m) : Obtained lib .new m
  | parse {manifestBytes footerVersion m} (h : parse lib manifestBytes footerVersion = .ok m) :
    Obtained lib (.parse footerVersion) m
  | deserialize {manifestBytes m} (h : deserialize lib manifestBytes = .ok m) : Obtained lib .deserialize m
  | withTrustSet {door m generation m'} (hm : Obtained lib door m) (h : m.withTrustSet generation = .ok m') :
    Obtained lib door m'
  | withReleaseBuild {door m} (hm : Obtained lib door m) : Obtained lib door m.withReleaseBuild

/-! ### What the validation accepts, it accepts again -/

/-- An artifact whose checks pass, its image resolved from itself. -/
structure PayloadArtifact.Sound (formatVersion : Option UInt32) (artifact : PayloadArtifact) : Prop where
  path : checkArtifactPath artifact = .ok ()
  commit : checkCommit formatVersion artifact = .ok ()
  spec : checkSpec formatVersion artifact = .ok ()
  image : resolveImage formatVersion artifact (artifact.image.elim .absent .typed) = .ok artifact.image

structure PayloadManifest.Sound (m : PayloadManifest) : Prop where
  version : checkFormatVersion m.formatVersion = .ok ()
  members : checkArchiveMembers m.archiveMembers m.formatVersion = .ok ()
  artifacts : ∀ artifact ∈ m.artifacts, artifact.Sound m.formatVersion
  nodup : (m.artifacts.map PayloadArtifact.archivePath).Nodup
  trustSet : checkTrustSet m.formatVersion m.trustSet = .ok ()

/-- Parts that stand for an artifact: its fields, and a source of the image it has. -/
def PartOf (formatVersion : Option UInt32) (part : PayloadArtifact × ImageSource) (artifact : PayloadArtifact) : Prop :=
  part.1 = { artifact with image := none } ∧ resolveImage formatVersion artifact part.2 = .ok artifact.image

section Resolve
variable {formatVersion : Option UInt32} {artifact : PayloadArtifact} {source : ImageSource}

/-- An image that was resolved resolves again from the declaration. -/
theorem resolveImage_typed {image : Option ImageDeclaration} (h : resolveImage formatVersion artifact source = .ok image) :
    resolveImage formatVersion artifact (image.elim .absent .typed) = .ok image := by
  unfold resolveImage at h ⊢
  rcases formatVersion with _ | version
  · cases source <;> cases h
    rfl
  dsimp only at h ⊢
  split at h
  next hversion =>
    rw [if_pos hversion]
    cases source <;> cases h
    rfl
  next hversion =>
  rw [if_neg hversion]
  split at h
  next hkind =>
    rw [if_pos hkind]
    cases source <;> cases h
    rfl
  next hkind =>
  rw [if_neg hkind]
  obtain ⟨declaration, -, h⟩ := Checks.bind_ok h
  obtain ⟨_, hvalid, h⟩ := Checks.bind_ok h
  cases h
  simp only [Option.elim, sourceDeclaration, bind, Except.bind, hvalid]

/-- A written image resolves to the declaration it decodes to. -/
theorem resolveImage_wire {image : ImageDeclaration} {v : Value}
    (h : resolveImage formatVersion artifact (.typed image) = .ok (some image)) (hnull : v ≠ .null)
    (hdecode : decodeDeclaration artifact.archivePath v = .ok image) :
    resolveImage formatVersion artifact (.wire v) = .ok (some image) := by
  have hsource : sourceDeclaration artifact.archivePath (.wire v) = .ok image := by
    cases v with
    | null => contradiction
    | _ => exact hdecode
  unfold resolveImage at h ⊢
  rcases formatVersion with _ | version
  · cases h
  dsimp only at h ⊢
  split at h
  · cases h
  next hversion =>
  rw [if_neg hversion]
  split at h
  · cases h
  next hkind =>
  rw [if_neg hkind, hsource]
  exact h

theorem isSome_resolveImage {image : Option ImageDeclaration}
    (h : resolveImage formatVersion artifact source = .ok image) :
    image.isSome ↔ artifact.kind = .containerImage ∧
      ∃ version, formatVersion = some version ∧ IMAGE_DECLARATION_FORMAT_VERSION ≤ version := by
  refine ⟨fun hsome => ?_, ?_⟩
  · obtain ⟨declaration, rfl⟩ := Option.isSome_iff_exists.mp hsome
    exact (resolveImage_ok h).2
  · rintro ⟨hkind, version, rfl, hversion⟩
    unfold resolveImage at h
    dsimp only at h
    rw [if_neg (UInt32.not_lt.mpr hversion), if_neg (not_not.mpr hkind)] at h
    obtain ⟨declaration, -, h⟩ := Checks.bind_ok h
    obtain ⟨_, -, h⟩ := Checks.bind_ok h
    cases h
    rfl

theorem sound_of_completeArtifact {part : PayloadArtifact × ImageSource} (hpath : checkArtifactPath part.1 = .ok ())
    (h : completeArtifact formatVersion part = .ok artifact) : artifact.Sound formatVersion := by
  obtain ⟨_, hcommit, h⟩ := Checks.bind_ok h
  obtain ⟨_, hspec, h⟩ := Checks.bind_ok h
  obtain ⟨image, himage, h⟩ := Checks.bind_ok h
  cases h
  exact ⟨hpath, hcommit, hspec, resolveImage_typed himage⟩

theorem PayloadArtifact.Sound.complete (h : artifact.Sound formatVersion) {part : PayloadArtifact × ImageSource}
    (hpart : PartOf formatVersion part artifact) : completeArtifact formatVersion part = .ok artifact := by
  obtain ⟨part, source⟩ := part
  obtain ⟨rfl, himage⟩ := hpart
  have hcommit : checkCommit formatVersion { artifact with image := none } = .ok () := h.commit
  have hspec : checkSpec formatVersion { artifact with image := none } = .ok () := h.spec
  have himage : resolveImage formatVersion { artifact with image := none } source = .ok artifact.image := himage
  simp only [completeArtifact, hcommit, hspec, himage, bind, Except.bind]

end Resolve

namespace PayloadManifest
variable {m : PayloadManifest} {parts : List (PayloadArtifact × ImageSource)}

/-- What the one validation returns is sound, and holds the parts it was given. -/
theorem sound_of_fromParts {formatVersion : Option UInt32} {pinset : Option String} {releaseBuild : Bool}
    {members : Option (List ArchiveMember)} {trustSet : Option Bytes}
    (h : fromParts formatVersion pinset releaseBuild members parts trustSet = .ok m) : m.Sound := by
  obtain ⟨_, hversion, h⟩ := Checks.bind_ok h
  obtain ⟨_, hmembers, h⟩ := Checks.bind_ok h
  obtain ⟨artifacts, hartifacts, h⟩ := Checks.bind_ok h
  obtain ⟨_, htrust, h⟩ := Checks.bind_ok h
  cases h
  obtain ⟨hpaths, -, hnodup, hcomplete⟩ := Checks.collectDistinct_ok hartifacts
  have hboth := ((List.forall₂_and_left _ _).mpr ⟨hpaths, hcomplete⟩).imp fun _ _ h =>
    (⟨sound_of_completeArtifact h.1 h.2, (completeArtifact_ok h.1 h.2).2⟩ :
      PayloadArtifact.Sound formatVersion _ ∧ _)
  obtain ⟨hsound, hsame⟩ := (List.forall₂_and_left _ _).mp hboth.flip
  have hmap : artifacts.map PayloadArtifact.archivePath = parts.map (·.1.archivePath) :=
    List.forall₂_eq_eq_eq ▸ List.forall₂_map_left_iff.mpr (List.forall₂_map_right_iff.mpr hsame)
  exact ⟨hversion, hmembers, hsound, hmap ▸ hnodup, htrust⟩

/-- The validation of a sound manifest's parts returns it, with whatever trust set passes. -/
theorem Sound.fromParts (h : m.Sound) (hparts : List.Forall₂ (PartOf m.formatVersion) parts m.artifacts)
    (trustSet : Option Bytes) :
    fromParts m.formatVersion m.pinset m.releaseBuild m.archiveMembers parts trustSet =
      (checkTrustSet m.formatVersion trustSet).map fun _ => { m with trustSet } := by
  have hpaths : parts.map (·.1.archivePath) = m.artifacts.map PayloadArtifact.archivePath := by
    refine List.forall₂_eq_eq_eq ▸ List.forall₂_map_left_iff.mpr (List.forall₂_map_right_iff.mpr (hparts.imp ?_))
    rintro part artifact ⟨hpart, -⟩
    rw [hpart]
  have hboth := (List.forall₂_and_left _ _).mpr ⟨h.artifacts, hparts.flip⟩
  have hbefore : ∀ part ∈ parts, checkArtifactPath part.1 = .ok () := by
    have hall := hboth.flip.imp fun part artifact hp =>
      (⟨show checkArtifactPath part.1 = .ok () from hp.2.1 ▸ hp.1.path, hp⟩ : _ ∧ _)
    exact ((List.forall₂_and_left _ _).mp hall).1
  have hcomplete := hboth.flip.imp fun part artifact hp => hp.1.complete hp.2
  have hcollect : Checks.collectDistinct (·.1.archivePath) (checkArtifactPath ·.1) (.duplicateArchivePath ·.1.archivePath)
      (completeArtifact m.formatVersion) [] parts = .ok m.artifacts :=
    Checks.collectDistinct_eq_ok hbefore (fun _ _ => List.not_mem_nil) (hpaths ▸ h.nodup) hcomplete
  simp only [PayloadManifest.fromParts, h.version, h.members, hcollect, bind, Except.bind, Except.map]

theorem Sound.typedParts (h : m.Sound) :
    List.Forall₂ (PartOf m.formatVersion) (typedParts m.artifacts) m.artifacts :=
  List.forall₂_map_left_iff.mpr (List.forall₂_same.mpr fun artifact hmem => ⟨rfl, (h.artifacts artifact hmem).image⟩)

theorem Sound.withTrustSet_eq (h : m.Sound) (generation : Bytes) :
    m.withTrustSet generation =
      (checkTrustSet m.formatVersion (some generation)).map fun _ => { m with trustSet := some generation } :=
  h.fromParts h.typedParts (some generation)

theorem Sound.withReleaseBuild (h : m.Sound) : m.withReleaseBuild.Sound :=
  ⟨h.version, h.members, h.artifacts, h.nodup, h.trustSet⟩

/-- The mark and the trust set can be set in either order. -/
theorem Sound.withTrustSet_withReleaseBuild (h : m.Sound) (generation : Bytes) :
    m.withReleaseBuild.withTrustSet generation = (m.withTrustSet generation).map PayloadManifest.withReleaseBuild := by
  rw [h.withTrustSet_eq, h.withReleaseBuild.withTrustSet_eq]
  show (checkTrustSet m.formatVersion (some generation)).map _ = _
  cases checkTrustSet m.formatVersion (some generation) <;> rfl

end PayloadManifest

/-! ### What is written is read back -/

/-- A valid declaration decodes from the value it is written as. -/
theorem decodeDeclaration_serialize {image : ImageDeclaration} {d : Nat} {v : Value} (archivePath : String)
    (hvalid : image.validate = .ok ()) (hd : 2 < d) (hv : image.serialize.toValue d = some v) :
    decodeDeclaration archivePath v = .ok image := by
  have hschema : image.schema = IMAGE_DECLARATION_SCHEMA := by
    unfold ImageDeclaration.validate at hvalid
    split at hvalid
    · cases hvalid
    next hne => exact not_not.mp hne
  obtain ⟨v', hv', hread⟩ := (image.reads hd).value
  obtain rfl := Option.some.inj (hv'.symm.trans hv)
  have hget : v'.get "schema" = some (.num (.posInt image.schema.toUInt64)) :=
    get_of_toValue_object hv (by simp) List.mem_cons_self
  unfold decodeDeclaration
  simp only [hget, Option.bind_some, Value.asU64, hschema, ne_eq, not_true_eq_false, if_false,
    decodeDeclaration.decode, hread]

/-- An artifact of an unversioned manifest has none of the newer fields. -/
theorem PayloadArtifact.Sound.unversioned {artifact : PayloadArtifact} (h : artifact.Sound none) :
    artifact.commit = none ∧ artifact.spec = none ∧ artifact.image = none := by
  obtain ⟨-, hcommit, hspec, himage⟩ := h
  unfold checkCommit at hcommit
  unfold checkSpec at hspec
  unfold resolveImage at himage
  refine ⟨?_, ?_, ?_⟩
  · cases hc : artifact.commit with
    | none => rfl
    | some commit => rw [hc] at hcommit; cases hcommit
  · cases hs : artifact.spec with
    | none => rfl
    | some spec => rw [hs] at hspec; cases hspec
  · cases hi : artifact.image with
    | none => rfl
    | some image => rw [hi] at himage; cases himage

/-- A written artifact stands for itself. -/
theorem PayloadArtifact.Sound.raw {formatVersion : Option UInt32} {artifact : PayloadArtifact} {d : Nat}
    (h : artifact.Sound formatVersion) (hd : 2 < d) : PartOf formatVersion (artifact.raw d).intoParts artifact := by
  refine ⟨rfl, ?_⟩
  have himage := h.image
  unfold RawArtifact.intoParts PayloadArtifact.raw
  cases hi : artifact.image with
  | none => rwa [hi] at himage
  | some image =>
    rw [hi] at himage
    obtain ⟨v, hv, -⟩ := (image.reads hd).value
    have hnull := Reads.toValue_ne_null (image.reads hd).ne_null hv
    have hdecode := decodeDeclaration_serialize artifact.archivePath (resolveImage_ok himage).1 hd hv
    simpa [hv] using resolveImage_wire himage hnull hdecode

/-- A manifest of the unversioned baseline has none of the fields that came with versions. -/
structure PayloadManifest.Baseline (m : PayloadManifest) : Prop where
  trustSet : m.trustSet = none
  members : m.archiveMembers = none
  artifacts : ∀ artifact ∈ m.artifacts, artifact.commit = none ∧ artifact.spec = none ∧ artifact.image = none

theorem PayloadManifest.Sound.baseline {m : PayloadManifest} (h : m.Sound) (hversion : m.formatVersion = none) :
    m.Baseline := by
  obtain ⟨-, hmembers, hartifacts, -, htrust⟩ := h
  rw [hversion] at hmembers hartifacts htrust
  refine ⟨?_, ?_, fun artifact hmem => (hartifacts artifact hmem).unversioned⟩
  · cases hts : m.trustSet with
    | none => rfl
    | some bytes =>
      rw [hts, checkTrustSet] at htrust
      split at htrust <;> cases htrust
  · cases hms : m.archiveMembers with
    | none => rfl
    | some members => rw [hms] at hmembers; cases hmembers

/-- None of the written artifacts carries a key that none of them has anything under. -/
theorem artifactWithKeyFrom_eq_none {key : String} {d : Nat} {artifacts : List PayloadArtifact} {values : List Value}
    (h : List.Forall₂ (fun artifact v => artifact.serialize.toValue d = some v) artifacts values)
    (hkey : ∀ artifact ∈ artifacts, ∀ v, artifact.serialize.toValue d = some v → v.get key = none) (index : Nat) :
    artifactWithKeyFrom key index values = none := by
  induction h generalizing index with
  | nil => rfl
  | cons hv _ ih =>
    obtain ⟨hown, hothers⟩ := List.forall_mem_cons.mp hkey
    simp only [artifactWithKeyFrom, hown _ hv, Option.isSome_none, Bool.false_eq_true, if_false]
    exact ih hothers _

namespace PayloadManifest
variable {lib : Externals} {m : PayloadManifest} {base64Encode : Bytes → String} {document : Value} {d : Nat}

theorem artifactWithKey_eq_none (h : (m.serialize base64Encode).toValue d = some document) {key : String}
    (hkey : ∀ artifact ∈ m.artifacts, ∀ d v, artifact.serialize.toValue d = some v → v.get key = none) :
    artifactWithKey document key = none := by
  have hget := get_of_toValue_object h (by simp) (.tail _ <| .tail _ <| .tail _ <| .tail _ <| .tail _ <| .head _)
  unfold artifactWithKey
  rw [hget, Option.bind_some]
  cases harr : (Text.arr (m.artifacts.map PayloadArtifact.serialize)).toValue (d - 1) with
  | none => rfl
  | some v =>
    obtain ⟨-, values, hvalues, rfl⟩ := toValue_arr harr
    exact artifactWithKeyFrom_eq_none (List.forall₂_map_left_iff.mp hvalues)
      (fun artifact hmem v hv => hkey artifact hmem _ v hv) 0

/-- A sound manifest without a version is written as the baseline that the reader excuses. -/
theorem Sound.isPreVersionedBaseline (hm : m.Sound) (hversion : m.formatVersion = none)
    (h : (m.serialize base64Encode).toValue d = some document) :
    isPreVersionedBaseline LEGACY_UNVERSIONED_FOOTER_VERSION document = true := by
  have hgetVersion := get_of_toValue_object h (by simp) (.head _)
  have hgetTrust := get_of_toValue_object h (by simp) (.tail _ <| .tail _ <| .tail _ <| .head _)
  have hgetMembers := get_of_toValue_object h (by simp) (.tail _ <| .tail _ <| .tail _ <| .tail _ <| .head _)
  obtain ⟨htrust, hmembers, hbare⟩ := hm.baseline hversion
  rw [hversion] at hgetVersion
  rw [htrust] at hgetTrust
  rw [hmembers] at hgetMembers
  have hcommit : artifactWithCommit document = none := by
    refine artifactWithKey_eq_none h fun artifact hmem d v hv => ?_
    have hget := get_of_toValue_object hv (by simp) (.tail _ <| .tail _ <| .head _)
    rwa [(hbare artifact hmem).1] at hget
  have hspec : artifactWithSpec document = none := by
    refine artifactWithKey_eq_none h fun artifact hmem d v hv => ?_
    have hget := get_of_toValue_object hv (by simp) (.tail _ <| .tail _ <| .tail _ <| .tail _ <| .tail _ <|
      .tail _ <| .tail _ <| .tail _ <| .head _)
    rwa [(hbare artifact hmem).2.1] at hget
  simp [DeployCore.isPreVersionedBaseline, hasTrustSet, hasArchiveMembers, hgetVersion, hgetTrust, hgetMembers, hcommit,
    hspec]

/-- The parts that the text of a sound manifest is read as make that manifest. -/
theorem Sound.fromRawParts (hm : m.Sound) (hd : 2 < d) :
    PayloadManifest.fromParts m.formatVersion m.pinset m.releaseBuild m.archiveMembers
      (rawParts (m.artifacts.map (PayloadArtifact.raw d))) m.trustSet = .ok m := by
  have hparts : List.Forall₂ (PartOf m.formatVersion) (rawParts (m.artifacts.map (PayloadArtifact.raw d)))
      m.artifacts := by
    rw [rawParts, List.map_map]
    exact List.forall₂_map_left_iff.mpr (List.forall₂_same.mpr fun artifact hmem => (hm.artifacts artifact hmem).raw hd)
  rw [hm.fromParts hparts, hm.trustSet]
  rfl

theorem decodeTrustSet_raw (h : ∀ bytes, m.trustSet = some bytes → lib.base64Decode (base64Encode bytes) = some bytes)
    (d : Nat) : decodeTrustSet lib (m.raw base64Encode d).trustSet = .ok m.trustSet := by
  unfold PayloadManifest.raw
  cases hts : m.trustSet with
  | none => rfl
  | some bytes => simp [decodeTrustSet, h bytes hts]

section RoundTrip
variable {writeJson : Text → Bytes}
  (hm : m.Sound)
  (hread : lib.readJson (writeJson (m.serialize base64Encode)) = some (m.serialize base64Encode))
  (hbase64 : ∀ bytes, m.trustSet = some bytes → lib.base64Decode (base64Encode bytes) = some bytes)
include hm hread hbase64

/-- The two-stage parse reads a written manifest back, an unversioned one in the container it came in. -/
theorem parse_serialize {footerVersion : UInt8}
    (hfooter : m.formatVersion = none → footerVersion = LEGACY_UNVERSIONED_FOOTER_VERSION) :
    parse lib (writeJson (m.serialize base64Encode)) footerVersion = .ok m := by
  have hreads := m.reads base64Encode (d := recursionLimit) (by decide)
  obtain ⟨document, hdocument, hraw⟩ := hreads.value
  have hnot : ∀ items, document ≠ .arr items := by
    rintro items rfl
    obtain ⟨-, _, _, -, -, heq⟩ := toValue_obj hdocument
    cases heq
  have hversion : readFormatVersion document = .ok m.formatVersion := readFormatVersion_of_decoder hnot hraw
  have hchecked : checkDocumentVersion footerVersion document m.formatVersion = .ok () := by
    cases hfv : m.formatVersion with
    | some version =>
      rw [checkDocumentVersion, ← hfv]
      exact hm.version
    | none => rw [checkDocumentVersion, hfooter hfv, hm.isPreVersionedBaseline hfv hdocument, if_pos rfl]
  unfold parse
  rw [hread, Option.bind_some, hdocument]
  simp only [bind, Except.bind, hversion, hchecked, hraw, decodeTrustSet_raw hbase64]
  exact hm.fromRawParts (by decide)

/-- The typed decode reads a versioned manifest back. -/
theorem deserialize_serialize (hversion : m.formatVersion ≠ none) :
    deserialize lib (writeJson (m.serialize base64Encode)) = .ok m := by
  have hreads := m.reads base64Encode (d := recursionLimit) (by decide)
  obtain ⟨version, hversion⟩ := Option.ne_none_iff_exists'.mp hversion
  refine deserialize_ok_iff.mpr ⟨_, _, hread, hreads.text, ?_⟩
  have hraw : (m.raw base64Encode (recursionLimit - 1 - 1 - 1)).formatVersion = some version := hversion
  unfold RawManifest.tryInto
  simp only [hraw, bind, Except.bind, decodeTrustSet_raw hbase64]
  rw [← hversion]
  exact hm.fromRawParts (by decide)

end RoundTrip

end PayloadManifest

/-! ### The invariant -/

/-- A safe archive path is a relative one of plain names. -/
theorem segments_of_isSafeArchivePath {path : String} (h : isSafeArchivePath path = true) :
    ∀ segment ∈ path.toList.splitOn '/', segment ≠ [] ∧ segment ≠ ['.'] ∧ segment ≠ ['.', '.'] := by
  intro segment hmem
  simp only [isSafeArchivePath, Bool.and_eq_true, List.all_eq_true] at h
  simpa [and_assoc] using h.2 segment hmem

/-- What holds of an artifact of a manifest of `formatVersion`. -/
structure PayloadArtifact.Valid (formatVersion : Option UInt32) (artifact : PayloadArtifact) : Prop where
  dispositions : artifact.dispositions ≠ ∅
  commit : ∀ version, formatVersion = some version → ∃ commit, artifact.commit = some commit ∧ isValidCommit commit = true
  archivePath : ∀ segment ∈ artifact.archivePath.toList.splitOn '/',
    segment ≠ [] ∧ segment ≠ ['.'] ∧ segment ≠ ['.', '.']
  image_iff : artifact.image.isSome ↔ artifact.kind = .containerImage ∧
    ∃ version, formatVersion = some version ∧ IMAGE_DECLARATION_FORMAT_VERSION ≤ version
  image : ∀ image, artifact.image = some image → image.validate = .ok ()
  spec : ∀ spec, artifact.spec = some spec → spec.validate artifact.component artifact.kind = .ok ()
  supplementaryGroups : ∀ spec unit, artifact.spec = some spec → spec.unit = some unit → unit.supplementaryGroups ≠ [] →
    ∃ version, formatVersion = some version ∧ SUPPLEMENTARY_GROUPS_FORMAT_VERSION ≤ version
  privilegeProfiles : ∀ spec unit, artifact.spec = some spec → spec.unit = some unit → unit.privilegeProfiles ≠ [] →
    ∃ version, formatVersion = some version ∧ PRIVILEGE_PROFILES_FORMAT_VERSION ≤ version

/-- What holds of a manifest, whichever doors it came through. -/
structure PayloadManifest.Valid (m : PayloadManifest) : Prop where
  version : ∀ version, m.formatVersion = some version → 3 ≤ version ∧ version ≤ 9
  artifacts : ∀ artifact ∈ m.artifacts, artifact.Valid m.formatVersion
  nodup : (m.artifacts.map PayloadArtifact.archivePath).Nodup
  members : m.archiveMembers.isSome ↔ m.formatVersion.isSome
  trustSet : ∀ bytes, m.trustSet = some bytes → bytes ≠ [] ∧ m.formatVersion.isSome

theorem PayloadArtifact.Sound.valid {formatVersion : Option UInt32} {artifact : PayloadArtifact}
    (h : artifact.Sound formatVersion) : artifact.Valid formatVersion := by
  obtain ⟨hpath, hcommit, hspec, himage⟩ := h
  obtain ⟨hdispositions, hsafe⟩ := checkArtifactPath_ok hpath
  have hchecks (spec : ModuleSpec) (hs : artifact.spec = some spec) :
      spec.validate artifact.component artifact.kind = .ok () ∧
        checkSpecFormat spec formatVersion artifact.archivePath = .ok () ∧ formatVersion.isSome := by
    unfold checkSpec at hspec
    rw [hs] at hspec
    dsimp only at hspec
    split at hspec
    · cases hspec
    next hfv =>
    obtain ⟨_, hvalid, hformat⟩ := Checks.bind_ok hspec
    exact ⟨Checks.mapError_ok.mp hvalid, hformat, by simpa [Option.isSome_iff_ne_none] using hfv⟩
  have hgates (spec : ModuleSpec) (unit : UnitTemplate) (hs : artifact.spec = some spec) (hu : spec.unit = some unit) :
      ∃ version, formatVersion = some version ∧
        (unit.supplementaryGroups ≠ [] → SUPPLEMENTARY_GROUPS_FORMAT_VERSION ≤ version) ∧
        (unit.privilegeProfiles ≠ [] → PRIVILEGE_PROFILES_FORMAT_VERSION ≤ version) := by
    obtain ⟨-, hformat, hsome⟩ := hchecks spec hs
    obtain ⟨version, rfl⟩ := Option.isSome_iff_exists.mp hsome
    unfold checkSpecFormat at hformat
    rw [hu] at hformat
    dsimp only at hformat
    split at hformat
    · cases hformat
    next hgroups =>
    split at hformat
    · cases hformat
    next hprofiles =>
    simp only [Bool.and_eq_true, decide_eq_true_eq, not_and, Bool.not_eq_true, Bool.not_eq_false',
      List.isEmpty_iff] at hgroups hprofiles
    refine ⟨version, rfl, fun hne => ?_, fun hne => ?_⟩
    · exact UInt32.not_lt.mp fun hlt => hne (hgroups hlt)
    · exact UInt32.not_lt.mp fun hlt => hne (hprofiles hlt)
  refine ⟨hdispositions, ?_, segments_of_isSafeArchivePath hsafe, isSome_resolveImage himage, ?_,
    fun spec hs => (hchecks spec hs).1, ?_, ?_⟩
  · rintro version rfl
    unfold checkCommit at hcommit
    cases hc : artifact.commit with
    | none => rw [hc] at hcommit; cases hcommit
    | some commit =>
      rw [hc] at hcommit
      dsimp only at hcommit
      split at hcommit
      next hvalid => exact ⟨commit, rfl, hvalid⟩
      · cases hcommit
  · intro image hi
    rw [hi] at himage
    exact (resolveImage_ok himage).1
  · intro spec unit hs hu hne
    obtain ⟨version, hfv, hgroups, -⟩ := hgates spec unit hs hu
    exact ⟨version, hfv, hgroups hne⟩
  · intro spec unit hs hu hne
    obtain ⟨version, hfv, -, hprofiles⟩ := hgates spec unit hs hu
    exact ⟨version, hfv, hprofiles hne⟩

namespace PayloadManifest
variable {lib : Externals} {m : PayloadManifest} {door : Door}

theorem Sound.valid (h : m.Sound) : m.Valid := by
  refine ⟨fun version hfv => ?_, fun artifact hmem => (h.artifacts artifact hmem).valid, h.nodup, ?_,
    fun bytes hts => ?_⟩
  · exact checkFormatVersion_some (hfv ▸ h.version)
  · have hmembers := h.members
    revert hmembers
    cases m.archiveMembers <;> cases m.formatVersion <;> simp [checkArchiveMembers]
  · have htrust := h.trustSet
    rw [hts, checkTrustSet] at htrust
    split at htrust
    · cases htrust
    next hempty =>
    split at htrust
    · cases htrust
    next hversion => exact ⟨by simpa using hempty, by simpa [Option.isSome_iff_ne_none] using hversion⟩

theorem Obtained.sound (h : Obtained lib door m) : m.Sound := by
  induction h with
  | new h => exact sound_of_fromParts h
  | @parse manifestBytes footerVersion m h =>
    unfold PayloadManifest.parse at h
    split at h
    · cases h
    obtain ⟨_, -, h⟩ := Checks.bind_ok h
    obtain ⟨_, -, h⟩ := Checks.bind_ok h
    split at h
    · cases h
    obtain ⟨_, -, h⟩ := Checks.bind_ok h
    exact sound_of_fromParts h
  | deserialize h =>
    obtain ⟨_, raw, -, -, h⟩ := deserialize_ok_iff.mp h
    obtain ⟨version, hversion, -⟩ := exists_formatVersion_of_tryInto h
    unfold RawManifest.tryInto at h
    rw [hversion] at h
    obtain ⟨_, -, h⟩ := Checks.bind_ok h
    exact sound_of_fromParts h
  | withTrustSet _ h _ => exact sound_of_fromParts h
  | withReleaseBuild _ ih => exact ih.withReleaseBuild

/-- Only the two-stage parse of an old container returns a manifest without a version. -/
theorem Obtained.door_of_unversioned (h : Obtained lib door m) (hversion : m.formatVersion = none) :
    door = .parse LEGACY_UNVERSIONED_FOOTER_VERSION := by
  induction h with
  | new h =>
    rw [formatVersion_of_fromParts h] at hversion
    cases hversion
  | @parse manifestBytes footerVersion m h =>
    by_contra hne
    have hfooter : footerVersion ≠ LEGACY_UNVERSIONED_FOOTER_VERSION := fun heq => hne (heq ▸ rfl)
    obtain ⟨version, hsome⟩ := exists_formatVersion_of_parse hfooter h
    rw [hsome] at hversion
    cases hversion
  | deserialize h =>
    obtain ⟨_, raw, -, -, h⟩ := deserialize_ok_iff.mp h
    obtain ⟨version, hsome, -⟩ := exists_formatVersion_of_tryInto h
    unfold RawManifest.tryInto at h
    rw [hsome] at h
    obtain ⟨_, -, h⟩ := Checks.bind_ok h
    rw [formatVersion_of_fromParts h] at hversion
    cases hversion
  | withTrustSet _ h ih => exact ih (formatVersion_of_fromParts h ▸ hversion)
  | withReleaseBuild _ ih => exact ih hversion

/-- Every manifest is valid; one without a version is the baseline of an old container; the builders change one
field each, in either order; and the written manifest is read back. -/
theorem obtained_invariant (h : Obtained lib door m) :
    m.Valid ∧
    (m.formatVersion = none → door = .parse 1 ∧ m.Baseline) ∧
    (∀ generation, (∀ m', m.withTrustSet generation = .ok m' → m' = { m with trustSet := some generation }) ∧
      m.withReleaseBuild.withTrustSet generation = (m.withTrustSet generation).map PayloadManifest.withReleaseBuild) ∧
    ∀ (base64Encode : Bytes → String) (writeJson : Text → Bytes),
      lib.readJson (writeJson (m.serialize base64Encode)) = some (m.serialize base64Encode) →
      (∀ bytes, m.trustSet = some bytes → lib.base64Decode (base64Encode bytes) = some bytes) →
      (∀ footerVersion, (m.formatVersion = none → footerVersion = 1) →
        parse lib (writeJson (m.serialize base64Encode)) footerVersion = .ok m) ∧
      (m.formatVersion ≠ none → deserialize lib (writeJson (m.serialize base64Encode)) = .ok m) := by
  have hm := h.sound
  refine ⟨hm.valid, fun hversion => ⟨h.door_of_unversioned hversion, hm.baseline hversion⟩,
    fun generation => ⟨fun m' hm' => ?_, hm.withTrustSet_withReleaseBuild generation⟩,
    fun base64Encode writeJson hread hbase64 => ⟨fun footerVersion => parse_serialize hm hread hbase64,
      deserialize_serialize hm hread hbase64⟩⟩
  rw [hm.withTrustSet_eq] at hm'
  cases hchecked : checkTrustSet m.formatVersion (some generation) with
  | error e => rw [hchecked] at hm'; cases hm'
  | ok => rw [hchecked] at hm'; cases hm'; rfl

/-- A marked manifest with a trust set and one artifact. -/
def signedManifest : PayloadManifest where
  formatVersion := some 9
  pinset := none
  releaseBuild := true
  trustSet := some [1, 2, 3]
  archiveMembers := some [⟨"a", 3⟩]
  artifacts := [
    { component := "app", version := "1", commit := some "0123456789abcdef0123456789abcdef01234567",
      targetArch := .x86_64, kind := .staticAssets, dispositions := {.install, .stage}, archivePath := "a",
      sha256 := "00", spec := none, image := none }]

/-- Third-party functions that know that manifest's text and its trust set. -/
def signedExternals : Externals where
  readJson _ := some (signedManifest.serialize fun _ => "AQID")
  base64Decode encoded := if encoded = "AQID" then some [1, 2, 3] else none
  sha256 _ := []
  verifies _ _ _ _ := true

theorem obtained_invariant_signed :
    signedManifest.Valid ∧
      parse signedExternals (asBytes ("\x7b\"format_version\":9,\"release_build\":true,\"trust_set\":\"AQID\"," ++
        "\"archive_members\":[\x7b\"name\":\"a\",\"length\":3\x7d],\"artifacts\":[\x7b\"component\":\"app\"," ++
        "\"version\":\"1\",\"commit\":\"0123456789abcdef0123456789abcdef01234567\",\"target_arch\":\"x86_64\"," ++
        "\"kind\":\"static-assets\",\"dispositions\":[\"install\",\"stage\"],\"archive_path\":\"a\"," ++
        "\"sha256\":\"00\"\x7d]\x7d")) 3 = .ok signedManifest := by
  have hnew : new none [⟨"a", 3⟩] signedManifest.artifacts =
      .ok { signedManifest with releaseBuild := false, trustSet := none } := rfl
  have htrust : withTrustSet { signedManifest with releaseBuild := false, trustSet := none } [1, 2, 3] =
      .ok { signedManifest with releaseBuild := false } := rfl
  have hobtained : Obtained signedExternals .new signedManifest := .withReleaseBuild (.withTrustSet (.new hnew) htrust)
  have hinvariant := obtained_invariant hobtained
  refine ⟨hinvariant.1, (hinvariant.2.2.2 (fun _ => "AQID") (fun _ => _) rfl ?_).1 3 nofun⟩
  rintro _ ⟨⟩
  rfl

end PayloadManifest

end DeployCore
