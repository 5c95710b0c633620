import DeployCore.Lib.JsonWrite
import DeployCore.ManifestInvariant

/-! # The digest of the module specs (`src/manifest.rs`)

`spec_digest` hashes one canonical JSON document of the specs a manifest declares. The bytes of that document say
exactly which specs those are. -/

namespace DeployCore
open Serde Json

def SPEC_DIGEST_LABEL : String := "deploy-core.spec-digest.v1"

/-- One artifact's contribution. -/
structure SpecDigestEntry where
  archivePath : String
  component : String
  spec : ModuleSpec
  deriving DecidableEq

def SpecDigestEntry.serialize (entry : SpecDigestEntry) : Text :=
  object [
    ("archive_path", some (.str entry.archivePath)),
    ("component", some (.str entry.component)),
    ("spec", some entry.spec.serialize)]

/-- The document that is hashed. -/
structure SpecDigestDocument where
  label : String
  specs : List SpecDigestEntry

def SpecDigestDocument.serialize (document : SpecDigestDocument) : Text :=
  object [("label", some (.str document.label)), ("specs", some (.arr (document.specs.map SpecDigestEntry.serialize)))]

/-- Bytes compared one after another. -/
def bytesLe : Bytes → Bytes → Bool
  | [], _ => true
  | _ :: _, [] => false
  | a :: as, b :: bs => a < b || (a == b && bytesLe as bs)

def PayloadArtifact.specEntry (artifact : PayloadArtifact) : Option SpecDigestEntry :=
  artifact.spec.map fun spec => ⟨artifact.archivePath, artifact.component, spec⟩

namespace PayloadManifest

def specEntries (m : PayloadManifest) : List SpecDigestEntry := m.artifacts.filterMap PayloadArtifact.specEntry

/-- The canonical bytes: a value's objects are already in key order, so sorting them changes nothing. `float` writes
floats, of which there are none. -/
def specDigestBytes (float : UInt64 → Bytes) (m : PayloadManifest) : Bytes :=
  let specs := m.specEntries.mergeSort fun a b => bytesLe (asBytes a.archivePath) (asBytes b.archivePath)
  (SpecDigestDocument.mk SPEC_DIGEST_LABEL specs).serialize.written.write float

def specDigest (lib : Externals) (float : UInt64 → Bytes) (m : PayloadManifest) : Bytes :=
  lib.sha256 (m.specDigestBytes float)

end PayloadManifest

/-! ### The document is read back -/

def SpecDigestEntry.decoder : Decoder SpecDigestEntry :=
  .record true
    (.cons "archive_path" none .string <| .cons "component" none .string <| .cons "spec" none ModuleSpec.decoder .nil)
    fun (archivePath, component, spec, ()) => ⟨archivePath, component, spec⟩

def SpecDigestDocument.decoder : Decoder SpecDigestDocument :=
  .record true (.cons "label" none .string <| .cons "specs" none (.seq SpecDigestEntry.decoder) .nil)
    fun (label, specs, ()) => ⟨label, specs⟩

theorem SpecDigestEntry.reads (entry : SpecDigestEntry) {d : Nat} (hd : 6 < d) :
    Reads decoder entry.serialize entry d := by
  exact .record (by decide) (by omega)
    (.cons (.written (.string _ _)) <| .cons (.written (.string _ _)) <|
    .cons (.written (entry.spec.reads (by omega))) .nil) rfl

theorem SpecDigestDocument.reads (document : SpecDigestDocument) {d : Nat} (hd : 8 < d) :
    Reads decoder document.serialize document d := by
  have hd' : 1 < d - 1 := by omega
  exact .record (by decide) (by omega)
    (.cons (.written (.string _ _)) <|
    .cons (.written (.list hd' fun entry _ => entry.reads (by omega))) .nil) rfl

theorem SpecDigestDocument.eq_of_written {document document' : SpecDigestDocument}
    (h : document.serialize.written = document'.serialize.written) : document = document' := by
  obtain ⟨v, hv, hread⟩ := (document.reads (d := 9) (by omega)).value
  obtain ⟨v', hv', hread'⟩ := (document'.reads (d := 9) (by omega)).value
  obtain rfl : v = v' := (Text.written_of_toValue hv).symm.trans (h.trans (Text.written_of_toValue hv'))
  exact Option.some.inj (hread.symm.trans hread')

/-! ### The document holds no float -/

/-- A field that is skipped, or written without a float. -/
def FieldIntegral (o : Option Text) : Prop := ∀ t, o = some t → t.integral = true

theorem FieldIntegral.written {t : Text} (h : t.integral = true) : FieldIntegral (some t) := by
  rintro _ ⟨⟩
  exact h

theorem FieldIntegral.skipNone {α : Type} {w : α → Text} {o : Option α} (h : ∀ a, (w a).integral = true) :
    FieldIntegral (o.map w) := by
  intro t ht
  obtain ⟨a, -, rfl⟩ := Option.map_eq_some_iff.mp ht
  exact h a

theorem FieldIntegral.skipIf {p : Bool} {t : Text} (h : t.integral = true) :
    FieldIntegral (if p then none else some t) := by
  cases p with
  | true => exact fun _ ht => nomatch ht
  | false => exact .written h

theorem integral_object {fields : List (String × Option Text)} (h : ∀ field ∈ fields, FieldIntegral field.2) :
    (object fields).integral = true := by
  rw [object, Text.integral]
  induction fields with
  | nil => rfl
  | cons field fields ih =>
    obtain ⟨hfield, hfields⟩ := List.forall_mem_cons.mp h
    obtain ⟨name, o⟩ := field
    cases o with
    | none => exact ih hfields
    | some t =>
      have hcons : (((name, some t) :: fields).filterMap fun f => f.2.map (some f.1, ·)) =
          (some name, t) :: fields.filterMap fun f => f.2.map (some f.1, ·) := rfl
      rw [hcons, namedIntegral, hfield t rfl, ih hfields, Bool.and_self]

section Integral

theorem SystemdTarget.integral (target : SystemdTarget) : target.serialize.integral = true := by cases target <;> rfl

theorem SupplementaryGroup.integral (group : SupplementaryGroup) : group.serialize.integral = true := by
  cases group <;> rfl

theorem Capability.integral (capability : Capability) : capability.serialize.integral = true := by
  cases capability <;> rfl

theorem RunAs.integral (runAs : RunAs) : runAs.serialize.integral = true := by cases runAs; rfl

theorem Arg.integral (arg : Arg) : arg.serialize.integral = true := by
  cases arg with
  | literal text => rfl
  | var name => cases name <;> rfl

theorem PrivilegeProfile.integral (profile : PrivilegeProfile) : profile.serialize.integral = true := by
  have hname : profile.name.serialize.integral = true := by cases profile.name <;> rfl
  refine integral_object ?_
  simp only [List.forall_mem_cons, List.not_mem_nil, false_implies, implies_true, and_true]
  exact ⟨.written hname, .skipNone RunAs.integral, .skipIf (textsIntegral_map fun c _ => c.integral),
    .skipNone fun limit => by cases limit; rfl, .skipIf (textsIntegral_map fun g _ => g.integral)⟩

theorem UnitTemplate.integral (unit : UnitTemplate) : unit.serialize.integral = true := by
  have htargets (targets : List SystemdTarget) : (Text.arr (targets.map SystemdTarget.serialize)).integral = true :=
    textsIntegral_map fun s _ => s.integral
  have hargs (args : List Arg) : (Text.arr (args.map Arg.serialize)).integral = true :=
    textsIntegral_map fun a _ => a.integral
  have hentry (entry : String × Arg) : (Text.arr [.str entry.1, entry.2.serialize]).integral = true := by
    simp [Text.integral, textsIntegral, entry.2.integral]
  refine integral_object ?_
  simp only [List.forall_mem_cons, List.not_mem_nil, false_implies, implies_true, and_true]
  exact ⟨.written rfl, .written (htargets _), .written (htargets _), .written (htargets _), .written (hargs _),
    .skipNone hargs, .skipNone Arg.integral, .written (textsIntegral_map fun e _ => hentry e),
    .written (by cases unit.restart; rfl), .written rfl, .skipNone fun _ => rfl, .skipNone RunAs.integral,
    .skipIf (textsIntegral_map fun g _ => g.integral), .written rfl, .written rfl, .written rfl,
    .skipIf (textsIntegral_map fun p _ => p.integral)⟩

theorem RegistrationTemplate.integral (registration : RegistrationTemplate) :
    registration.serialize.integral = true := by
  have hreload : registration.reload.serialize.integral = true := by cases registration.reload <;> rfl
  refine integral_object ?_
  simp only [List.forall_mem_cons, List.not_mem_nil, false_implies, implies_true, and_true]
  exact ⟨.written rfl, .written rfl, .written hreload, .skipNone fun _ => rfl⟩

theorem ModuleSpec.integral (spec : ModuleSpec) : spec.serialize.integral = true := by
  have hplacement : spec.placement.serialize.integral = true := by cases spec.placement <;> rfl
  refine integral_object ?_
  simp only [List.forall_mem_cons, List.not_mem_nil, false_implies, implies_true, and_true]
  exact ⟨.skipNone UnitTemplate.integral, .written spec.registration.integral, .written hplacement⟩

theorem SpecDigestEntry.integral (entry : SpecDigestEntry) : entry.serialize.integral = true := by
  refine integral_object ?_
  simp only [List.forall_mem_cons, List.not_mem_nil, false_implies, implies_true, and_true]
  exact ⟨.written rfl, .written rfl, .written entry.spec.integral⟩

theorem SpecDigestDocument.integral (document : SpecDigestDocument) : document.serialize.integral = true := by
  refine integral_object ?_
  simp only [List.forall_mem_cons, List.not_mem_nil, false_implies, implies_true, and_true]
  exact ⟨.written rfl, .written (textsIntegral_map fun entry _ => entry.integral)⟩

end Integral

/-! ### The order of the entries -/

theorem bytesLe_trans {a b c : Bytes} (hab : bytesLe a b = true) (hbc : bytesLe b c = true) : bytesLe a c = true := by
  induction a generalizing b c with
  | nil => rfl
  | cons x a ih =>
    rcases b with _ | ⟨y, b⟩
    · cases hab
    rcases c with _ | ⟨z, c⟩
    · cases hbc
    simp only [bytesLe, Bool.or_eq_true, Bool.and_eq_true, decide_eq_true_eq, beq_iff_eq] at hab hbc ⊢
    rcases hab with hxy | ⟨rfl, hab⟩
    · rcases hbc with hyz | ⟨rfl, -⟩
      · exact .inl (UInt8.lt_trans hxy hyz)
      · exact .inl hxy
    · exact hbc.imp_right fun h => ⟨h.1, ih hab h.2⟩

theorem bytesLe_total (a b : Bytes) : (bytesLe a b || bytesLe b a) = true := by
  induction a generalizing b with
  | nil => rfl
  | cons x a ih =>
    rcases b with _ | ⟨y, b⟩
    · rfl
    by_cases hxy : x = y
    · subst hxy
      simpa [bytesLe] using ih b
    · rcases UInt8.lt_or_lt_of_ne hxy with h | h <;> simp [bytesLe, h]

theorem bytesLe_antisymm {a b : Bytes} (hab : bytesLe a b = true) (hba : bytesLe b a = true) : a = b := by
  induction a generalizing b with
  | nil =>
    rcases b with _ | ⟨y, b⟩
    · rfl
    · cases hba
  | cons x a ih =>
    rcases b with _ | ⟨y, b⟩
    · cases hab
    simp only [bytesLe, Bool.or_eq_true, Bool.and_eq_true, decide_eq_true_eq, beq_iff_eq] at hab hba
    rcases hab with hxy | ⟨rfl, hab⟩
    · rcases hba with hyx | ⟨rfl, -⟩
      · exact absurd hyx (UInt8.lt_asymm hxy)
      · exact absurd hxy (UInt8.lt_irrefl _)
    · rcases hba with hxx | ⟨-, hba⟩
      · exact absurd hxx (UInt8.lt_irrefl _)
      · rw [ih hab hba]

section Entries
variable {m m' : PayloadManifest}

theorem PayloadArtifact.specEntry_eq_some {artifact : PayloadArtifact} {entry : SpecDigestEntry}
    (h : artifact.specEntry = some entry) : entry.archivePath = artifact.archivePath := by
  obtain ⟨spec, -, rfl⟩ := Option.map_eq_some_iff.mp h
  rfl

/-- Entries of one manifest under one path are one entry. -/
theorem PayloadManifest.Sound.nodup_specEntries (h : m.Sound) : (m.specEntries.map SpecDigestEntry.archivePath).Nodup := by
  have hsub : (m.specEntries.map SpecDigestEntry.archivePath).Sublist (m.artifacts.map PayloadArtifact.archivePath) := by
    unfold PayloadManifest.specEntries
    induction m.artifacts with
    | nil => exact .slnil
    | cons artifact artifacts ih =>
      cases hentry : artifact.specEntry with
      | none =>
        rw [List.filterMap_cons_none hentry]
        exact ih.cons _
      | some entry =>
        rw [List.filterMap_cons_some hentry, List.map_cons, List.map_cons,
          PayloadArtifact.specEntry_eq_some hentry]
        exact ih.cons_cons _
  exact hsub.nodup h.nodup

/-- Two lists of the same entries under distinct paths are sorted alike. -/
theorem mergeSort_eq {es es' : List SpecDigestEntry} (hnodup : (es.map SpecDigestEntry.archivePath).Nodup)
    (hperm : es.Perm es') :
    (es.mergeSort fun a b => bytesLe (asBytes a.archivePath) (asBytes b.archivePath)) =
      es'.mergeSort fun a b => bytesLe (asBytes a.archivePath) (asBytes b.archivePath) := by
  have hsorted (es : List SpecDigestEntry) :
      (es.mergeSort fun a b => bytesLe (asBytes a.archivePath) (asBytes b.archivePath)).Pairwise fun a b =>
        bytesLe (asBytes a.archivePath) (asBytes b.archivePath) = true := by
    apply List.pairwise_mergeSort
    · exact fun _ _ _ => bytesLe_trans
    · exact fun _ _ => bytesLe_total _ _
  refine List.Perm.eq_of_pairwise (fun a b ha hb hab hba => ?_) (hsorted es) (hsorted es')
    ((List.mergeSort_perm ..).trans (hperm.trans (List.mergeSort_perm ..).symm))
  have ha := (List.mergeSort_perm ..).mem_iff.mp ha
  have hb := hperm.mem_iff.mpr ((List.mergeSort_perm ..).mem_iff.mp hb)
  exact List.inj_on_of_nodup_map hnodup ha hb (asBytes_inj (bytesLe_antisymm hab hba))

/-- The digest depends on the declared specs alone, each with its path and component, and the bytes that are hashed
tell them. -/
theorem specDigest_specEntries (lib : Externals) (float : UInt64 → Bytes) (h : m.Sound) (h' : m'.Sound) :
    ((m.artifacts.map fun a => (a.archivePath, a.component, a.spec)).Perm
        (m'.artifacts.map fun a => (a.archivePath, a.component, a.spec)) →
      m.specDigest lib float = m'.specDigest lib float) ∧
    (m.specDigestBytes float = m'.specDigestBytes float ↔ ∀ entry, entry ∈ m.specEntries ↔ entry ∈ m'.specEntries) := by
  have hnodup := h.nodup_specEntries
  have hsame (hperm : m.specEntries.Perm m'.specEntries) : m.specDigestBytes float = m'.specDigestBytes float := by
    rw [PayloadManifest.specDigestBytes, PayloadManifest.specDigestBytes, mergeSort_eq hnodup hperm]
  constructor
  · intro hperm
    have hentries (m : PayloadManifest) : m.specEntries =
        (m.artifacts.map fun a => (a.archivePath, a.component, a.spec)).filterMap fun t =>
          t.2.2.map fun spec => SpecDigestEntry.mk t.1 t.2.1 spec := by
      rw [List.filterMap_map]
      rfl
    exact congrArg lib.sha256 (hsame (hentries m ▸ hentries m' ▸ hperm.filterMap _))
  · constructor
    · intro hbytes entry
      have hwritten := Value.eq_of_write (Text.integral_written (SpecDigestDocument.integral _))
        (Text.integral_written (SpecDigestDocument.integral _)) hbytes
      have hdocument := SpecDigestDocument.eq_of_written hwritten
      have hspecs := congrArg SpecDigestDocument.specs hdocument
      calc entry ∈ m.specEntries ↔ entry ∈ m.specEntries.mergeSort _ := (List.mergeSort_perm ..).mem_iff.symm
        _ ↔ entry ∈ m'.specEntries.mergeSort _ := iff_of_eq (congrArg (entry ∈ ·) hspecs)
        _ ↔ entry ∈ m'.specEntries := (List.mergeSort_perm ..).mem_iff
    · intro hmem
      exact hsame ((List.perm_ext_iff_of_nodup hnodup.of_map h'.nodup_specEntries.of_map).mpr hmem)

/-- An artifact that declares a spec, under the path that is its component. -/
def registeredArtifact (component : String) : PayloadArtifact where
  component
  version := "1"
  commit := some "0123456789abcdef0123456789abcdef01234567"
  targetArch := .x86_64
  kind := .staticAssets
  dispositions := {.install}
  archivePath := component
  sha256 := "00"
  spec := some ⟨none, ⟨component, "web", .dockerSighup "web", none⟩, .moduleHosts⟩
  image := none

def registeredManifest (components : List String) : PayloadManifest :=
  ⟨some 9, none, false, none, some (components.map fun component => ⟨component, 3⟩), components.map registeredArtifact⟩

/-- The digest of bytes is the bytes. -/
def unhashedLib : Externals := ⟨fun _ => none, fun _ => none, id, fun _ _ _ _ => false⟩

theorem specDigest_specEntries_registered :
    (registeredManifest ["b", "a"]).specDigest unhashedLib (fun _ => []) =
        (registeredManifest ["a", "b"]).specDigest unhashedLib (fun _ => []) ∧
      (registeredManifest ["a"]).specDigestBytes (fun _ => []) ≠ (registeredManifest ["b"]).specDigestBytes fun _ => [] := by
  have hsound (components : List String)
      (h : PayloadManifest.new none (components.map fun component => ⟨component, 3⟩) (components.map registeredArtifact) =
        .ok (registeredManifest components)) : (registeredManifest components).Sound :=
    PayloadManifest.sound_of_fromParts h
  refine ⟨(specDigest_specEntries unhashedLib _ (hsound _ rfl) (hsound _ rfl)).1 (List.Perm.swap _ _ []), fun hbytes => ?_⟩
  have hentry := (specDigest_specEntries unhashedLib _ (hsound _ rfl) (hsound _ rfl)).2.mp hbytes
    ⟨"a", "a", ⟨none, ⟨"a", "web", .dockerSighup "web", none⟩, .moduleHosts⟩⟩
  exact absurd (hentry.mp (by decide)) (by decide)

/-- An artifact without a spec adds nothing to what is hashed. -/
theorem specDigestBytes_undeclared :
    ∃ m m' : PayloadManifest, m.Sound ∧ m'.Sound ∧ (∀ float, m.specDigestBytes float = m'.specDigestBytes float) ∧
      ¬ ∀ t, t ∈ m.artifacts.map (fun a => (a.archivePath, a.component, a.spec)) ↔
        t ∈ m'.artifacts.map (fun a => (a.archivePath, a.component, a.spec)) := by
  have hempty : PayloadManifest.new none [] [] = .ok (registeredManifest []) := rfl
  have hone : PayloadManifest.new none [⟨"a", 3⟩] [{ registeredArtifact "a" with spec := none }] =
      .ok { registeredManifest ["a"] with artifacts := [{ registeredArtifact "a" with spec := none }] } := rfl
  refine ⟨_, _, PayloadManifest.sound_of_fromParts hempty, PayloadManifest.sound_of_fromParts hone, fun _ => rfl,
    fun h => ?_⟩
  exact absurd ((h ("a", "a", none)).mpr (List.mem_singleton.mpr rfl)) List.not_mem_nil

end Entries

end DeployCore
