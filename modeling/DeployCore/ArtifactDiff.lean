import DeployCore.OuterWalk

/-! # The artifact axis of an update (`src/engine.rs`)

What a new release adds, changes and removes against the records of what is installed, matched by archive path. -/

namespace DeployCore

/-- What is recorded of an artifact; the archive path is the key it is matched by. -/
structure ArtifactRecord where
  component : String
  kind : ArtifactKind
  dispositions : Finset Disposition
  targetArch : TargetArch
  archivePath : String
  sha256 : String
  deriving DecidableEq

def ArtifactRecord.fromArtifact (artifact : PayloadArtifact) : ArtifactRecord :=
  ⟨artifact.component, artifact.kind, artifact.dispositions, artifact.targetArch, artifact.archivePath, artifact.sha256⟩

structure ChangedArtifact where
  component : String
  archivePath : String
  kind : ArtifactKind
  dispositions : Finset Disposition
  targetArch : TargetArch
  installedSha256 : String
  newSha256 : String
  deriving DecidableEq

def ChangedArtifact.has (artifact : ChangedArtifact) (disposition : Disposition) : Bool :=
  disposition ∈ artifact.dispositions

structure ArtifactDiff where
  added : List ArtifactRecord
  changed : List ChangedArtifact
  removed : List ArtifactRecord
  deriving DecidableEq

/-- The record a map by archive path holds, once all are collected into it. -/
def installedByPath (installed : List ArtifactRecord) (path : String) : Option ArtifactRecord :=
  installed.reverse.find? (·.archivePath == path)

/-- Whether the recorded tuple differs, its digest but for the case of the digits. -/
def differs (existing : ArtifactRecord) (artifact : PayloadArtifact) : Bool :=
  !eqIgnoreAsciiCase existing.sha256 artifact.sha256 ||
    (existing.component != artifact.component || existing.kind != artifact.kind ||
      existing.dispositions != artifact.dispositions || existing.targetArch != artifact.targetArch)

/-- One artifact of the new release. -/
def diffArtifact (installed : List ArtifactRecord) (diff : ArtifactDiff) (artifact : PayloadArtifact) : ArtifactDiff :=
  match installedByPath installed artifact.archivePath with
  | none => { diff with added := diff.added ++ [.fromArtifact artifact] }
  | some existing =>
    if differs existing artifact then
      { diff with
        changed := diff.changed ++ [⟨artifact.component, artifact.archivePath, artifact.kind, artifact.dispositions,
          artifact.targetArch, existing.sha256, artifact.sha256⟩] }
    else diff

def diffArtifacts (installed : List ArtifactRecord) (new : PayloadManifest) : ArtifactDiff :=
  let newByPath := new.artifacts.map PayloadArtifact.archivePath
  let diff := new.artifacts.foldl (diffArtifact installed) ⟨[], [], []⟩
  { diff with removed := diff.removed ++ installed.filter fun artifact => !newByPath.contains artifact.archivePath }

/-- Every artifact to install that changed or was added: its path, component and kind. -/
def changedInstallArtifacts (diff : ArtifactDiff) : List (String × String × ArtifactKind) :=
  (diff.changed.filter (·.has .install)).map (fun artifact => (artifact.archivePath, artifact.component, artifact.kind)) ++
    (diff.added.filter (.install ∈ ·.dispositions)).map fun artifact =>
      (artifact.archivePath, artifact.component, artifact.kind)

/-- The path of every artifact to stage that changed or was added. -/
def changedStageArtifacts (diff : ArtifactDiff) : List String :=
  (diff.changed.filter (·.has .stage)).map ChangedArtifact.archivePath ++
    (diff.added.filter (.stage ∈ ·.dispositions)).map ArtifactRecord.archivePath

/-! ### What is meant -/

/-- A record, its digest in lower case. -/
def ArtifactRecord.folded (record : ArtifactRecord) : ArtifactRecord :=
  { record with sha256 := .ofList (record.sha256.toList.map toAsciiLower) }

/-- The records of a release. -/
def recordsOf (new : PayloadManifest) : List ArtifactRecord := new.artifacts.map .fromArtifact

/-- The record that a changed artifact puts in the place of the installed one. -/
def ChangedArtifact.record (artifact : ChangedArtifact) : ArtifactRecord :=
  ⟨artifact.component, artifact.kind, artifact.dispositions, artifact.targetArch, artifact.archivePath,
    artifact.newSha256⟩

/-- The installed records once a difference is applied: the removed dropped, the changed replaced, the added put
behind them. -/
def ArtifactDiff.patch (diff : ArtifactDiff) (installed : List ArtifactRecord) : List ArtifactRecord :=
  let kept := installed.filter fun record => !(diff.removed.map ArtifactRecord.archivePath).contains record.archivePath
  kept.map (fun record =>
    ((diff.changed.find? (·.archivePath == record.archivePath)).map ChangedArtifact.record).getD record) ++ diff.added

/-- Two lists hold the same records, in whatever order, but for the case of the digests. -/
def SameRecords (a b : List ArtifactRecord) : Prop := (a.map ArtifactRecord.folded).Perm (b.map ArtifactRecord.folded)

/-- What becomes of an archive path. -/
inductive PathClass
  | added
  | changed
  | removed
  | unchanged
  deriving DecidableEq

/-- The paths of a class; unchanged are those that both sides have with one record but for the case of the digest. -/
def PathClass.holds (installed : List ArtifactRecord) (new : PayloadManifest) (path : String) : PathClass → Prop
  | added => path ∈ (diffArtifacts installed new).added.map ArtifactRecord.archivePath
  | changed => path ∈ (diffArtifacts installed new).changed.map ChangedArtifact.archivePath
  | removed => path ∈ (diffArtifacts installed new).removed.map ArtifactRecord.archivePath
  | unchanged => ∃ existing ∈ installed, ∃ record ∈ recordsOf new, existing.archivePath = path ∧
      existing.folded = record.folded

/-- An artifact of the release that no installed record holds yet. -/
def Outstanding (installed : List ArtifactRecord) (new : PayloadManifest) (artifact : PayloadArtifact) : Prop :=
  artifact ∈ new.artifacts ∧ ∀ existing ∈ installed, existing.folded ≠ (ArtifactRecord.fromArtifact artifact).folded

/-- The laws of a difference. -/
structure DiffLaws (installed : List ArtifactRecord) (new : PayloadManifest) : Prop where
  classes : ∀ path, path ∈ installed.map ArtifactRecord.archivePath ∨ path ∈ new.artifacts.map PayloadArtifact.archivePath →
    ∃! c : PathClass, c.holds installed new path
  patched : SameRecords ((diffArtifacts installed new).patch installed) (recordsOf new)
  empty : diffArtifacts installed new = ⟨[], [], []⟩ ↔ SameRecords installed (recordsOf new)
  installs : ∀ entry, entry ∈ changedInstallArtifacts (diffArtifacts installed new) ↔
    ∃ artifact, Outstanding installed new artifact ∧ .install ∈ artifact.dispositions ∧
      entry = (artifact.archivePath, artifact.component, artifact.kind)
  stages : ∀ path, path ∈ changedStageArtifacts (diffArtifacts installed new) ↔
    ∃ artifact, Outstanding installed new artifact ∧ .stage ∈ artifact.dispositions ∧ path = artifact.archivePath

/-! ### Finding by key -/

theorem find_key {α κ : Type} [DecidableEq κ] {key : α → κ} {l : List α} (h : (l.map key).Nodup) {k : κ} {x : α} :
    l.find? (key · == k) = some x ↔ x ∈ l ∧ key x = k := by
  constructor
  · intro hfind
    exact ⟨List.mem_of_find?_eq_some hfind, by simpa using List.find?_some hfind⟩
  · rintro ⟨hx, rfl⟩
    induction l with
    | nil => cases hx
    | cons y l ih =>
      rw [List.map_cons, List.nodup_cons] at h
      rcases List.mem_cons.mp hx with rfl | hx
      · exact List.find?_cons_of_pos (beq_self_eq_true _)
      · have hne : key y ≠ key x := fun heq => h.1 (heq ▸ List.mem_map_of_mem hx)
        rw [List.find?_cons_of_neg (by simpa using hne)]
        exact ih h.2 hx

section
variable {installed : List ArtifactRecord} {new : PayloadManifest} {existing record : ArtifactRecord}
  {artifact : PayloadArtifact} {diff : ArtifactDiff} {artifacts : List PayloadArtifact} {path : String}

theorem installedByPath_eq_some (h : (installed.map ArtifactRecord.archivePath).Nodup) :
    installedByPath installed path = some existing ↔ existing ∈ installed ∧ existing.archivePath = path := by
  have hreverse : (installed.reverse.map ArtifactRecord.archivePath).Nodup := by
    rw [List.map_reverse]
    exact List.nodup_reverse.mpr h
  rw [installedByPath, find_key hreverse, List.mem_reverse]

theorem installedByPath_eq_none :
    installedByPath installed path = none ↔ path ∉ installed.map ArtifactRecord.archivePath := by
  simp [installedByPath]

/-! ### Folding case -/

@[simp] theorem archivePath_folded : existing.folded.archivePath = existing.archivePath := rfl

/-- The tuples are the same but for the case of the digest where nothing of them differs. -/
theorem differs_eq_false (hpath : existing.archivePath = artifact.archivePath) :
    differs existing artifact = false ↔ existing.folded = (ArtifactRecord.fromArtifact artifact).folded := by
  have htext {a b : List Char} : String.ofList a = String.ofList b ↔ a = b := String.ofList_inj
  simp only [differs, eqIgnoreAsciiCase, Bool.or_eq_false_iff, Bool.not_eq_false', beq_iff_eq, bne_eq_false_iff_eq,
    ArtifactRecord.folded, ArtifactRecord.fromArtifact, ArtifactRecord.mk.injEq, htext, hpath, true_and]
  tauto

/-! ### What the difference holds -/

/-- The change that is recorded of an artifact, if it changed. -/
def changeOf (installed : List ArtifactRecord) (artifact : PayloadArtifact) : Option ChangedArtifact :=
  ((installedByPath installed artifact.archivePath).filter (differs · artifact)).map fun existing =>
    ⟨artifact.component, artifact.archivePath, artifact.kind, artifact.dispositions, artifact.targetArch,
      existing.sha256, artifact.sha256⟩

/-- Whether nothing is installed under the path of an artifact. -/
def isNew (installed : List ArtifactRecord) (artifact : PayloadArtifact) : Bool :=
  (installedByPath installed artifact.archivePath).isNone

theorem diffArtifact_eq : diffArtifact installed diff artifact =
    ⟨diff.added ++ if isNew installed artifact then [.fromArtifact artifact] else [],
      diff.changed ++ (changeOf installed artifact).toList, diff.removed⟩ := by
  unfold diffArtifact isNew changeOf
  rcases installedByPath installed artifact.archivePath with _ | existing
  · simp
  · by_cases h : differs existing artifact = true
    · simp [h, Option.filter]
    · simp [h, Option.filter]

theorem foldl_diffArtifact : artifacts.foldl (diffArtifact installed) diff =
    ⟨diff.added ++ (artifacts.filter (isNew installed)).map .fromArtifact,
      diff.changed ++ artifacts.filterMap (changeOf installed), diff.removed⟩ := by
  induction artifacts generalizing diff with
  | nil => simp
  | cons artifact artifacts ih =>
    rw [List.foldl_cons, ih, diffArtifact_eq]
    by_cases hnew : isNew installed artifact = true
    · rcases hchange : changeOf installed artifact with _ | change <;> simp [hnew, hchange]
    · rcases hchange : changeOf installed artifact with _ | change <;> simp [hnew, hchange]

theorem diffArtifacts_eq : diffArtifacts installed new =
    ⟨(new.artifacts.filter (isNew installed)).map .fromArtifact, new.artifacts.filterMap (changeOf installed),
      installed.filter fun existing => !(new.artifacts.map PayloadArtifact.archivePath).contains existing.archivePath⟩ := by
  simp [diffArtifacts, foldl_diffArtifact]

theorem isNew_iff : isNew installed artifact = true ↔
    artifact.archivePath ∉ installed.map ArtifactRecord.archivePath := by
  rw [isNew, Option.isNone_iff_eq_none, installedByPath_eq_none]

theorem changeOf_eq_some (h : (installed.map ArtifactRecord.archivePath).Nodup) {change : ChangedArtifact} :
    changeOf installed artifact = some change ↔ ∃ existing ∈ installed, existing.archivePath = artifact.archivePath ∧
      differs existing artifact = true ∧ change = ⟨artifact.component, artifact.archivePath, artifact.kind,
        artifact.dispositions, artifact.targetArch, existing.sha256, artifact.sha256⟩ := by
  simp only [changeOf, Option.map_eq_some_iff, Option.filter_eq_some_iff, installedByPath_eq_some h]
  constructor
  · rintro ⟨existing, ⟨⟨hmem, hpath⟩, hdiffers⟩, rfl⟩
    exact ⟨existing, hmem, hpath, hdiffers, rfl⟩
  · rintro ⟨existing, hmem, hpath, hdiffers, rfl⟩
    exact ⟨existing, ⟨⟨hmem, hpath⟩, hdiffers⟩, rfl⟩

theorem archivePath_changeOf {change : ChangedArtifact} (h : changeOf installed artifact = some change) :
    change.archivePath = artifact.archivePath := by
  obtain ⟨existing, -, rfl⟩ := Option.map_eq_some_iff.mp h
  rfl

theorem record_changeOf {change : ChangedArtifact} (h : changeOf installed artifact = some change) :
    change.record = .fromArtifact artifact := by
  obtain ⟨existing, -, rfl⟩ := Option.map_eq_some_iff.mp h
  rfl

/-- Of artifacts with distinct paths, those that changed have distinct paths. -/
theorem nodup_changes (h : (artifacts.map PayloadArtifact.archivePath).Nodup) :
    ((artifacts.filterMap (changeOf installed)).map ChangedArtifact.archivePath).Nodup := by
  refine h.sublist ?_
  clear h
  induction artifacts with
  | nil => simp
  | cons artifact artifacts ih =>
    rcases hchange : changeOf installed artifact with _ | change
    · rw [List.filterMap_cons_none hchange]
      exact ih.cons _
    · rw [List.filterMap_cons_some hchange, List.map_cons, List.map_cons, archivePath_changeOf hchange]
      exact ih.cons_cons _

/-! ### The patch -/

/-- The record that stands for an installed one once the changes are applied. -/
def replaced (diff : ArtifactDiff) (existing : ArtifactRecord) : ArtifactRecord :=
  ((diff.changed.find? (·.archivePath == existing.archivePath)).map ChangedArtifact.record).getD existing

/-- An installed record that the release has a record for becomes that record. -/
theorem folded_replaced (hinstalled : (installed.map ArtifactRecord.archivePath).Nodup)
    (hnew : (new.artifacts.map PayloadArtifact.archivePath).Nodup) (hexisting : existing ∈ installed)
    (hartifact : artifact ∈ new.artifacts) (hpath : existing.archivePath = artifact.archivePath) :
    (replaced (diffArtifacts installed new) existing).folded = (ArtifactRecord.fromArtifact artifact).folded := by
  have hfound : installedByPath installed artifact.archivePath = some existing :=
    (installedByPath_eq_some hinstalled).mpr ⟨hexisting, hpath⟩
  rw [replaced, diffArtifacts_eq]
  rcases hchange : changeOf installed artifact with _ | change
  · have hsame : differs existing artifact = false := by
      simpa [changeOf, hfound, Option.filter] using hchange
    have hnone : (new.artifacts.filterMap (changeOf installed)).find? (·.archivePath == existing.archivePath) = none := by
      rw [List.find?_eq_none]
      intro change hmem heq
      obtain ⟨other, hother, hchanged⟩ := List.mem_filterMap.mp hmem
      have hkey : other.archivePath = artifact.archivePath := by
        rw [← archivePath_changeOf hchanged, beq_iff_eq.mp heq, hpath]
      obtain rfl := List.inj_on_of_nodup_map hnew hother hartifact hkey
      rw [hchange] at hchanged
      cases hchanged
    rw [hnone]
    exact (differs_eq_false hpath).mp hsame
  · have hsome : (new.artifacts.filterMap (changeOf installed)).find? (·.archivePath == existing.archivePath) =
        some change :=
      (find_key (nodup_changes hnew)).mpr ⟨List.mem_filterMap.mpr ⟨artifact, hartifact, hchange⟩,
        (archivePath_changeOf hchange).trans hpath.symm⟩
    rw [hsome]
    exact congrArg ArtifactRecord.folded (record_changeOf hchange)

theorem archivePath_replaced : (replaced diff existing).archivePath = existing.archivePath := by
  rw [replaced]
  rcases hfind : diff.changed.find? (·.archivePath == existing.archivePath) with _ | change
  · rw [hfind]
    rfl
  · have hpath := List.find?_some hfind
    rw [hfind]
    exact beq_iff_eq.mp hpath

theorem patch_eq : diff.patch installed =
    (installed.filter fun record => !(diff.removed.map ArtifactRecord.archivePath).contains record.archivePath).map
      (replaced diff) ++ diff.added := rfl

/-- What a patch keeps of the installed records is what the release has a record for. -/
theorem kept_eq :
    (installed.filter fun record =>
      !((diffArtifacts installed new).removed.map ArtifactRecord.archivePath).contains record.archivePath) =
      installed.filter fun record => (new.artifacts.map PayloadArtifact.archivePath).contains record.archivePath := by
  refine List.filter_congr fun record hrecord => ?_
  rw [diffArtifacts_eq, Bool.eq_iff_iff]
  simp only [Bool.not_eq_true', ← Bool.not_eq_true, List.contains_iff_mem, List.mem_map, List.mem_filter,
    not_exists, not_and]
  constructor
  · intro h
    by_contra hnot
    exact h record ⟨hrecord, fun artifact hartifact hpath => hnot ⟨artifact, hartifact, hpath⟩⟩ rfl
  · rintro ⟨artifact, hartifact, hpath⟩ other ⟨-, hother⟩ hsame
    exact hother artifact hartifact (hpath.trans hsame.symm)

/-- The paths of a patched list are distinct. -/
theorem nodup_patched (hinstalled : (installed.map ArtifactRecord.archivePath).Nodup)
    (hnew : (new.artifacts.map PayloadArtifact.archivePath).Nodup) :
    (((diffArtifacts installed new).patch installed).map ArtifactRecord.archivePath).Nodup := by
  have hreplaced : (ArtifactRecord.archivePath ∘ replaced (diffArtifacts installed new)) = ArtifactRecord.archivePath :=
    funext fun _ => archivePath_replaced
  have hadded : (diffArtifacts installed new).added.map ArtifactRecord.archivePath =
      (new.artifacts.filter (isNew installed)).map PayloadArtifact.archivePath := by
    rw [diffArtifacts_eq, List.map_map]
    rfl
  rw [patch_eq, kept_eq, List.map_append, List.map_map, hreplaced, hadded]
  refine List.Nodup.append (hinstalled.sublist (List.filter_sublist.map _)) (hnew.sublist (List.filter_sublist.map _)) ?_
  intro path hkept hfresh
  obtain ⟨artifact, hartifact, rfl⟩ := List.mem_map.mp hfresh
  refine isNew_iff.mp (List.mem_filter.mp hartifact).2 ?_
  exact (List.filter_sublist.map _).subset hkept

theorem patched_sameRecords (hinstalled : (installed.map ArtifactRecord.archivePath).Nodup)
    (hnew : (new.artifacts.map PayloadArtifact.archivePath).Nodup) :
    SameRecords ((diffArtifacts installed new).patch installed) (recordsOf new) := by
  have hfolded {l : List ArtifactRecord} (h : (l.map ArtifactRecord.archivePath).Nodup) :
      (l.map ArtifactRecord.folded).Nodup := by
    refine List.Nodup.of_map ArtifactRecord.archivePath ?_
    rw [List.map_map]
    exact h
  have hrecords : ((recordsOf new).map ArtifactRecord.archivePath).Nodup := by
    rw [recordsOf, List.map_map]
    exact hnew
  refine (List.perm_ext_iff_of_nodup (hfolded (nodup_patched hinstalled hnew)) (hfolded hrecords)).mpr fun record => ?_
  rw [patch_eq, kept_eq, recordsOf]
  simp only [List.map_append, List.map_map, List.mem_append, List.mem_map, List.mem_filter, List.contains_iff_mem,
    Function.comp_apply]
  constructor
  · rintro (⟨existing, ⟨hexisting, artifact, hartifact, hpath⟩, rfl⟩ | ⟨added, hadded, rfl⟩)
    · exact ⟨artifact, hartifact, (folded_replaced hinstalled hnew hexisting hartifact hpath.symm).symm⟩
    · rw [diffArtifacts_eq] at hadded
      obtain ⟨artifact, hartifact, rfl⟩ := List.mem_map.mp hadded
      exact ⟨artifact, (List.mem_filter.mp hartifact).1, rfl⟩
  · rintro ⟨artifact, hartifact, rfl⟩
    by_cases hfresh : isNew installed artifact = true
    · right
      rw [diffArtifacts_eq]
      exact ⟨.fromArtifact artifact, List.mem_map_of_mem (List.mem_filter.mpr ⟨hartifact, hfresh⟩), rfl⟩
    · left
      rw [isNew_iff, not_not] at hfresh
      obtain ⟨existing, hexisting, hpath⟩ := List.mem_map.mp hfresh
      exact ⟨existing, ⟨hexisting, artifact, hartifact, hpath.symm⟩,
        folded_replaced hinstalled hnew hexisting hartifact hpath⟩

/-! ### The classes -/

theorem mem_added : path ∈ (diffArtifacts installed new).added.map ArtifactRecord.archivePath ↔
    path ∈ new.artifacts.map PayloadArtifact.archivePath ∧ path ∉ installed.map ArtifactRecord.archivePath := by
  rw [diffArtifacts_eq]
  simp only [List.map_map, List.mem_map, List.mem_filter, isNew_iff, Function.comp_apply, ArtifactRecord.fromArtifact]
  constructor
  · rintro ⟨artifact, ⟨hartifact, hfresh⟩, rfl⟩
    exact ⟨⟨artifact, hartifact, rfl⟩, hfresh⟩
  · rintro ⟨⟨artifact, hartifact, rfl⟩, hfresh⟩
    exact ⟨artifact, ⟨hartifact, hfresh⟩, rfl⟩

theorem mem_removed : path ∈ (diffArtifacts installed new).removed.map ArtifactRecord.archivePath ↔
    path ∈ installed.map ArtifactRecord.archivePath ∧ path ∉ new.artifacts.map PayloadArtifact.archivePath := by
  rw [diffArtifacts_eq]
  simp only [List.mem_map, List.mem_filter, Bool.not_eq_true', ← Bool.not_eq_true, List.contains_iff_mem]
  constructor
  · rintro ⟨existing, ⟨hexisting, hgone⟩, rfl⟩
    exact ⟨⟨existing, hexisting, rfl⟩, hgone⟩
  · rintro ⟨⟨existing, hexisting, rfl⟩, hgone⟩
    exact ⟨existing, ⟨hexisting, hgone⟩, rfl⟩

/-- The changes are those of artifacts whose installed record differs. -/
theorem mem_changed (hinstalled : (installed.map ArtifactRecord.archivePath).Nodup) {change : ChangedArtifact} :
    change ∈ (diffArtifacts installed new).changed ↔ ∃ artifact ∈ new.artifacts, ∃ existing ∈ installed,
      existing.archivePath = artifact.archivePath ∧
      existing.folded ≠ (ArtifactRecord.fromArtifact artifact).folded ∧
      change = ⟨artifact.component, artifact.archivePath, artifact.kind, artifact.dispositions, artifact.targetArch,
        existing.sha256, artifact.sha256⟩ := by
  rw [diffArtifacts_eq, List.mem_filterMap]
  constructor
  · rintro ⟨artifact, hartifact, hchange⟩
    obtain ⟨existing, hexisting, hpath, hdiffers, rfl⟩ := (changeOf_eq_some hinstalled).mp hchange
    refine ⟨artifact, hartifact, existing, hexisting, hpath, ?_, rfl⟩
    intro hsame
    rw [(differs_eq_false hpath).mpr hsame] at hdiffers
    cases hdiffers
  · rintro ⟨artifact, hartifact, existing, hexisting, hpath, hdiffers, rfl⟩
    refine ⟨artifact, hartifact, (changeOf_eq_some hinstalled).mpr ⟨existing, hexisting, hpath, ?_, rfl⟩⟩
    rw [← Bool.not_eq_false]
    exact fun hsame => hdiffers ((differs_eq_false hpath).mp hsame)

/-- An artifact whose path is installed is changed or unchanged, as its record tells. -/
theorem holds_both (hinstalled : (installed.map ArtifactRecord.archivePath).Nodup)
    (hnew : (new.artifacts.map PayloadArtifact.archivePath).Nodup) (hexisting : existing ∈ installed)
    (hartifact : artifact ∈ new.artifacts) (hpath : existing.archivePath = artifact.archivePath) :
    (PathClass.changed.holds installed new artifact.archivePath ↔
        existing.folded ≠ (ArtifactRecord.fromArtifact artifact).folded) ∧
      (PathClass.unchanged.holds installed new artifact.archivePath ↔
        existing.folded = (ArtifactRecord.fromArtifact artifact).folded) := by
  have honly {other : ArtifactRecord} (hother : other ∈ installed) (hsame : other.archivePath = artifact.archivePath) :
      other = existing := List.inj_on_of_nodup_map hinstalled hother hexisting (hsame.trans hpath.symm)
  constructor
  · constructor
    · intro h
      obtain ⟨change, hchange, hkey⟩ := List.mem_map.mp h
      obtain ⟨artifact', hartifact', existing', hexisting', hpath', hdiffers, rfl⟩ := (mem_changed hinstalled).mp hchange
      obtain rfl := List.inj_on_of_nodup_map hnew hartifact' hartifact hkey
      rwa [← honly hexisting' hpath']
    · intro h
      exact List.mem_map.mpr ⟨_, (mem_changed hinstalled).mpr ⟨artifact, hartifact, existing, hexisting, hpath, h, rfl⟩, rfl⟩
  · constructor
    · rintro ⟨existing', hexisting', record, hrecord, hpath', hsame⟩
      obtain ⟨artifact', hartifact', rfl⟩ := List.mem_map.mp hrecord
      have hkey : artifact'.archivePath = artifact.archivePath := by
        rw [← hpath']
        exact (congrArg ArtifactRecord.archivePath hsame).symm
      obtain rfl := List.inj_on_of_nodup_map hnew hartifact' hartifact hkey
      rwa [← honly hexisting' hpath']
    · intro h
      exact ⟨existing, hexisting, _, List.mem_map_of_mem hartifact, hpath, h⟩

theorem existsUnique_class (hinstalled : (installed.map ArtifactRecord.archivePath).Nodup)
    (hnew : (new.artifacts.map PayloadArtifact.archivePath).Nodup)
    (hside : path ∈ installed.map ArtifactRecord.archivePath ∨ path ∈ new.artifacts.map PayloadArtifact.archivePath) :
    ∃! c : PathClass, c.holds installed new path := by
  have hadded : PathClass.added.holds installed new path ↔ path ∈ new.artifacts.map PayloadArtifact.archivePath ∧
    path ∉ installed.map ArtifactRecord.archivePath := mem_added
  have hremoved : PathClass.removed.holds installed new path ↔ path ∈ installed.map ArtifactRecord.archivePath ∧
    path ∉ new.artifacts.map PayloadArtifact.archivePath := mem_removed
  have hchanged (h : PathClass.changed.holds installed new path) :
      path ∈ installed.map ArtifactRecord.archivePath ∧ path ∈ new.artifacts.map PayloadArtifact.archivePath := by
    obtain ⟨change, hchange, rfl⟩ := List.mem_map.mp h
    obtain ⟨artifact, hartifact, existing, hexisting, hpath, -, rfl⟩ := (mem_changed hinstalled).mp hchange
    exact ⟨List.mem_map.mpr ⟨existing, hexisting, hpath⟩, List.mem_map_of_mem hartifact⟩
  have hunchanged (h : PathClass.unchanged.holds installed new path) :
      path ∈ installed.map ArtifactRecord.archivePath ∧ path ∈ new.artifacts.map PayloadArtifact.archivePath := by
    obtain ⟨existing, hexisting, record, hrecord, hpath, hsame⟩ := h
    obtain ⟨artifact, hartifact, rfl⟩ := List.mem_map.mp hrecord
    refine ⟨List.mem_map.mpr ⟨existing, hexisting, hpath⟩, List.mem_map.mpr ⟨artifact, hartifact, ?_⟩⟩
    rw [← hpath]
    exact (congrArg ArtifactRecord.archivePath hsame).symm
  by_cases hin : path ∈ installed.map ArtifactRecord.archivePath
  · by_cases hout : path ∈ new.artifacts.map PayloadArtifact.archivePath
    · obtain ⟨existing, hexisting, hpath⟩ := List.mem_map.mp hin
      obtain ⟨artifact, hartifact, rfl⟩ := List.mem_map.mp hout
      obtain ⟨hchange, hsame⟩ := holds_both hinstalled hnew hexisting hartifact hpath
      by_cases hfolded : existing.folded = (ArtifactRecord.fromArtifact artifact).folded
      · refine ⟨.unchanged, hsame.mpr hfolded, fun c hc => ?_⟩
        rcases c with _ | _ | _ | _
        · exact absurd hin (hadded.mp hc).2
        · exact absurd hfolded (hchange.mp hc)
        · exact absurd hout (hremoved.mp hc).2
        · rfl
      · refine ⟨.changed, hchange.mpr hfolded, fun c hc => ?_⟩
        rcases c with _ | _ | _ | _
        · exact absurd hin (hadded.mp hc).2
        · rfl
        · exact absurd hout (hremoved.mp hc).2
        · exact absurd (hsame.mp hc) hfolded
    · refine ⟨.removed, hremoved.mpr ⟨hin, hout⟩, fun c hc => ?_⟩
      rcases c with _ | _ | _ | _
      · exact absurd hin (hadded.mp hc).2
      · exact absurd (hchanged hc).2 hout
      · rfl
      · exact absurd (hunchanged hc).2 hout
  · have hout := hside.resolve_left hin
    refine ⟨.added, hadded.mpr ⟨hout, hin⟩, fun c hc => ?_⟩
    rcases c with _ | _ | _ | _
    · rfl
    · exact absurd (hchanged hc).1 hin
    · exact absurd (hremoved.mp hc).1 hin
    · exact absurd (hunchanged hc).1 hin

/-- Nothing differs between sides that hold the same records, and nothing else is left undone. -/
theorem diffArtifacts_empty (hinstalled : (installed.map ArtifactRecord.archivePath).Nodup)
    (hnew : (new.artifacts.map PayloadArtifact.archivePath).Nodup) :
    diffArtifacts installed new = ⟨[], [], []⟩ ↔ SameRecords installed (recordsOf new) := by
  constructor
  · intro h
    have hpatched := patched_sameRecords hinstalled hnew
    have hsame : (⟨[], [], []⟩ : ArtifactDiff).patch installed = installed := by
      simp [ArtifactDiff.patch]
    rwa [h, hsame] at hpatched
  · intro h
    have hrecord : ∀ artifact ∈ new.artifacts, ∃ existing ∈ installed,
        existing.folded = (ArtifactRecord.fromArtifact artifact).folded := by
      intro artifact hartifact
      have hmem := h.mem_iff.mpr (List.mem_map_of_mem (List.mem_map_of_mem hartifact))
      exact List.mem_map.mp hmem
    have hexists : ∀ existing ∈ installed, existing.archivePath ∈ new.artifacts.map PayloadArtifact.archivePath := by
      intro existing hexisting
      obtain ⟨record, hrecord, hsame⟩ := List.mem_map.mp (h.mem_iff.mp (List.mem_map_of_mem hexisting))
      obtain ⟨artifact, hartifact, rfl⟩ := List.mem_map.mp hrecord
      exact List.mem_map.mpr ⟨artifact, hartifact, congrArg ArtifactRecord.archivePath hsame⟩
    have hadded : (diffArtifacts installed new).added = [] := by
      rw [List.eq_nil_iff_forall_not_mem]
      intro added hadded
      obtain ⟨hout, hin⟩ := mem_added.mp (List.mem_map_of_mem hadded)
      obtain ⟨artifact, hartifact, hpath⟩ := List.mem_map.mp hout
      obtain ⟨existing, hexisting, hsame⟩ := hrecord artifact hartifact
      exact hin (List.mem_map.mpr ⟨existing, hexisting, (congrArg ArtifactRecord.archivePath hsame).trans hpath⟩)
    have hchanged : (diffArtifacts installed new).changed = [] := by
      rw [List.eq_nil_iff_forall_not_mem]
      intro change hchange
      obtain ⟨artifact, hartifact, existing, hexisting, hpath, hdiffers, -⟩ := (mem_changed hinstalled).mp hchange
      obtain ⟨other, hother, hsame⟩ := hrecord artifact hartifact
      have hkey : other.archivePath = existing.archivePath :=
        (congrArg ArtifactRecord.archivePath hsame).trans hpath.symm
      rw [List.inj_on_of_nodup_map hinstalled hother hexisting hkey] at hsame
      exact hdiffers hsame
    have hremoved : (diffArtifacts installed new).removed = [] := by
      rw [List.eq_nil_iff_forall_not_mem]
      intro removed hremoved
      obtain ⟨hin, hout⟩ := mem_removed.mp (List.mem_map_of_mem hremoved)
      obtain ⟨existing, hexisting, hpath⟩ := List.mem_map.mp hin
      exact hout (hpath ▸ hexists existing hexisting)
    rcases hdiff : diffArtifacts installed new with ⟨added, changed, removed⟩
    rw [hdiff] at hadded hchanged hremoved
    rw [ArtifactDiff.mk.injEq]
    exact ⟨hadded, hchanged, hremoved⟩

/-- What is pending is what changed or was added. -/
theorem outstanding_iff (hinstalled : (installed.map ArtifactRecord.archivePath).Nodup)
    (hartifact : artifact ∈ new.artifacts) :
    Outstanding installed new artifact ↔ (changeOf installed artifact).isSome = true ∨ isNew installed artifact = true := by
  constructor
  · rintro ⟨-, houtstanding⟩
    by_cases hfresh : isNew installed artifact = true
    · exact .inr hfresh
    · left
      rw [isNew_iff, not_not] at hfresh
      obtain ⟨existing, hexisting, hpath⟩ := List.mem_map.mp hfresh
      rw [Option.isSome_iff_exists]
      refine ⟨_, (changeOf_eq_some hinstalled).mpr ⟨existing, hexisting, hpath, ?_, rfl⟩⟩
      rw [← Bool.not_eq_false]
      exact fun hsame => houtstanding existing hexisting ((differs_eq_false hpath).mp hsame)
  · intro h
    refine ⟨hartifact, fun existing hexisting hsame => ?_⟩
    have hpath : existing.archivePath = artifact.archivePath := congrArg ArtifactRecord.archivePath hsame
    rcases h with h | h
    · obtain ⟨change, hchange⟩ := Option.isSome_iff_exists.mp h
      obtain ⟨other, hother, hkey, hdiffers, -⟩ := (changeOf_eq_some hinstalled).mp hchange
      obtain rfl := List.inj_on_of_nodup_map hinstalled hother hexisting (hkey.trans hpath.symm)
      rw [(differs_eq_false hpath).mpr hsame] at hdiffers
      cases hdiffers
    · exact isNew_iff.mp h (List.mem_map.mpr ⟨existing, hexisting, hpath⟩)

/-- What is read of the changed and of the added artifacts of one disposition is what is pending of it. -/
theorem mem_outstanding {α : Type} (disposition : Disposition) {ofChange : ChangedArtifact → α}
    {ofAdded : ArtifactRecord → α}
    {ofArtifact : PayloadArtifact → α}
    (hchange : ∀ {artifact change}, changeOf installed artifact = some change → ofChange change = ofArtifact artifact)
    (hadded : ∀ {artifact}, ofAdded (.fromArtifact artifact) = ofArtifact artifact)
    (hinstalled : (installed.map ArtifactRecord.archivePath).Nodup) (entry : α) :
    entry ∈ ((diffArtifacts installed new).changed.filter (·.has disposition)).map ofChange ++
        ((diffArtifacts installed new).added.filter (disposition ∈ ·.dispositions)).map ofAdded ↔
      ∃ artifact, Outstanding installed new artifact ∧ disposition ∈ artifact.dispositions ∧
        entry = ofArtifact artifact := by
  have hhas {artifact : PayloadArtifact} {change : ChangedArtifact} (h : changeOf installed artifact = some change) :
      change.has disposition = true ↔ disposition ∈ artifact.dispositions := by
    obtain ⟨existing, -, rfl⟩ := Option.map_eq_some_iff.mp h
    exact decide_eq_true_iff
  rw [List.mem_append, List.mem_map, List.mem_map, diffArtifacts_eq]
  constructor
  · rintro (⟨change, hmem, rfl⟩ | ⟨added, hmem, rfl⟩)
    · obtain ⟨hmem, hdisposition⟩ := List.mem_filter.mp hmem
      obtain ⟨artifact, hartifact, hchanged⟩ := List.mem_filterMap.mp hmem
      exact ⟨artifact, (outstanding_iff hinstalled hartifact).mpr (.inl (by rw [hchanged]; rfl)),
        (hhas hchanged).mp hdisposition, hchange hchanged⟩
    · obtain ⟨hmem, hdisposition⟩ := List.mem_filter.mp hmem
      obtain ⟨artifact, hartifact, rfl⟩ := List.mem_map.mp hmem
      obtain ⟨hartifact, hfresh⟩ := List.mem_filter.mp hartifact
      exact ⟨artifact, (outstanding_iff hinstalled hartifact).mpr (.inr hfresh), of_decide_eq_true hdisposition, hadded⟩
  · rintro ⟨artifact, houtstanding, hdisposition, rfl⟩
    have hartifact := houtstanding.1
    rcases (outstanding_iff hinstalled hartifact).mp houtstanding with h | hfresh
    · left
      obtain ⟨change, hchanged⟩ := Option.isSome_iff_exists.mp h
      exact ⟨change, List.mem_filter.mpr ⟨List.mem_filterMap.mpr ⟨artifact, hartifact, hchanged⟩,
        (hhas hchanged).mpr hdisposition⟩, hchange hchanged⟩
    · right
      exact ⟨.fromArtifact artifact, List.mem_filter.mpr ⟨List.mem_map_of_mem (List.mem_filter.mpr ⟨hartifact, hfresh⟩),
        decide_eq_true hdisposition⟩, hadded⟩

/-- Against installed records of distinct paths, the difference of a release (whose paths its validation keeps distinct)
puts every path in one class; applied, it makes the records those of the release; it is empty where they are already;
and what it lists to install and to stage is what is pending of each. -/
theorem diffArtifacts_laws (installed : List ArtifactRecord) (new : PayloadManifest)
    (hinstalled : (installed.map ArtifactRecord.archivePath).Nodup)
    (hnew : (new.artifacts.map PayloadArtifact.archivePath).Nodup) : DiffLaws installed new where
  classes _ := existsUnique_class hinstalled hnew
  patched := patched_sameRecords hinstalled hnew
  empty := diffArtifacts_empty hinstalled hnew
  installs := by
    refine mem_outstanding .install ?_ rfl hinstalled
    intro artifact change h
    obtain ⟨existing, -, rfl⟩ := Option.map_eq_some_iff.mp h
    rfl
  stages := by
    refine mem_outstanding .stage ?_ rfl hinstalled
    intro artifact change h
    exact archivePath_changeOf h

end

/-- A record kept but for the case of its digest, one changed, one gone and one new. -/
theorem diffArtifacts_laws_mixed :
    let artifact (path sha256 : String) : PayloadArtifact :=
      ⟨"roxyd", "1.0.0", none, .x86_64, .nativeBinary, {.install}, path, sha256, none, none⟩
    let installed := [ArtifactRecord.fromArtifact (artifact "a" "AB"), .fromArtifact (artifact "b" "01"),
      .fromArtifact (artifact "c" "02")]
    let new : PayloadManifest := ⟨none, none, false, none, none, [artifact "a" "ab", artifact "b" "ff", artifact "d" "03"]⟩
    DiffLaws installed new ∧ changedStageArtifacts (diffArtifacts installed new) = [] :=
  ⟨diffArtifacts_laws _ _ (by decide) (by decide), by decide⟩

end DeployCore
