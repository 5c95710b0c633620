import DeployCore.Generation

/-! # What the steps of an activation return and leave

One lemma for each function of the engine, about the runs in which it returns. What the steps keep when they
fail or crash follows from the names their operations touch (`wp_frame`). -/

namespace DeployCore
open Directory Crash

/-- A disk in the course of a program, with the operations so far. -/
abbrev Scene (ε : Type) := World Op (Op.Result ε) Disk

variable {ε α β : Type} [FromGenerationError ε] {host : Host ε} {w : Scene ε}

/-- Every run that returns meets `post`. -/
abbrev Returns (host : Host ε) (post : α → Scene ε → Prop) (p : Engine ε α) (w : Scene ε) : Prop :=
  wp (device host) post (fun _ => True) p w

omit [FromGenerationError ε] in
theorem returns_tryFs {o : FsOp} {post : Except ErrorKind o.Out → Scene ε → Prop}
    (hok : ∀ out d, o.run host.elsewhere w.state = .ok (out, d) →
      post (.ok out) (w.record (.fs o) (some (.ok out)) d))
    (herror : ∀ kind d, (kind = .notFound → o.run host.elsewhere w.state = .error kind ∧ d = w.state) →
      o.Torn host.elsewhere w.state d → post (.error kind) (w.record (.fs o) (some (.error kind)) d)) :
    Returns host post (tryFs o) w := by
  suffices ∀ r d, (device host).Ends (.fs o) w.state r d → post r (w.record (.fs o) (some r) d) from
    wp_perform.mpr ⟨trivial, fun _ _ => trivial, fun r d hends => ⟨trivial, this r d hends⟩⟩
  intro r d hends
  rcases hends with hrun | ⟨⟨kind, hne, rfl⟩, htorn⟩
  · cases ho : o.run host.elsewhere w.state with
    | error kind =>
      simp only [device, ho] at hrun
      cases hrun
      exact herror kind w.state (fun _ => ⟨ho, rfl⟩) .unchanged
    | ok res =>
      obtain ⟨out, d'⟩ := res
      simp only [device, ho] at hrun
      cases hrun
      exact hok out d ho
  · exact herror kind d (fun heq => absurd heq hne) htorn

theorem returns_refuse_error {e : GenerationError} {post : α → Scene ε → Prop} :
    Returns host post (refuse (.error e)) w := trivial

omit [FromGenerationError ε] in
theorem returns_pure {a : α} {post : α → Scene ε → Prop} (h : post a w) :
    Returns host post (pure a : Engine ε α) w := ⟨trivial, h⟩

theorem returns_fs {path : Bytes} {o : FsOp} {post : o.Out → Scene ε → Prop}
    (hok : ∀ out d, o.run host.elsewhere w.state = .ok (out, d) →
      post out (w.record (.fs o) (some (.ok out)) d)) : Returns host post (fs path o) w := by
  unfold fs
  refine wp_bind.mpr (returns_tryFs (fun out d hrun => ?_) fun kind d _ _ => ?_)
  · exact returns_pure (hok out d hrun)
  · exact returns_refuse_error

/-! ## Looking at the active generation -/

/-- The generation `active` points at, if any. -/
def Disk.current (d : Disk) : Option UInt64 :=
  match find d.root ACTIVE_LINK with
  | some (.link target) => parseGeneration target
  | _ => none

/-- The material matches the active generation, which is this one. -/
structure Disk.Matches (d : Disk) (host : Host ε) (material : List GenerationFile) (generation : UInt64) :
    Prop where
  current : d.current = some generation
  served : ∀ file ∈ material, d.read host.elsewhere ACTIVE_LINK file.name = .ok file.bytes

omit [FromGenerationError ε] in
theorem run_readLink {d d' : Disk} {name out : Bytes} {elsewhere : Bytes → Except ErrorKind Bytes}
    (h : (FsOp.readLink name).run elsewhere d = .ok (out, d')) :
    find d.root name = some (.link out) ∧ d' = d := by
  simp only [FsOp.run] at h
  split at h
  · next hfind =>
    cases h
    exact ⟨hfind, rfl⟩
  · cases h
  · cases h

theorem run_readFile {d d' : Disk} {dir name out : Bytes} {elsewhere : Bytes → Except ErrorKind Bytes}
    (h : (FsOp.readFile dir name).run elsewhere d = .ok (out, d')) :
    d.read elsewhere dir name = .ok out ∧ d' = d := by
  simp only [FsOp.run] at h
  cases hread : d.read elsewhere dir name <;> rw [hread] at h <;> cases h
  exact ⟨rfl, rfl⟩

theorem run_readFile_error {d : Disk} {dir name : Bytes} {kind : ErrorKind}
    {elsewhere : Bytes → Except ErrorKind Bytes} (h : (FsOp.readFile dir name).run elsewhere d = .error kind) :
    d.read elsewhere dir name = .error kind := by
  simp only [FsOp.run] at h
  cases hread : d.read elsewhere dir name <;> rw [hread] at h <;> cases h
  rfl

theorem currentGeneration_returns {root : Bytes} :
    Returns host (fun current w' => current = w.state.current ∧ w'.state = w.state)
      (currentGeneration root) w := by
  unfold currentGeneration
  refine wp_bind.mpr (returns_tryFs (fun target d hrun => ?_) fun kind d hmissing _ => ?_)
  · obtain ⟨hfind, rfl⟩ := run_readLink hrun
    exact returns_pure ⟨by rw [Disk.current, hfind], rfl⟩
  · match kind with
    | .notFound =>
      obtain ⟨hrun, rfl⟩ := hmissing rfl
      refine returns_pure ⟨?_, rfl⟩
      simp only [FsOp.run] at hrun
      split at hrun
      · cases hrun
      · cases hrun
      · next hfind => rw [Disk.current, hfind]
    | .unexpectedEof => exact returns_refuse_error
    | .other code => exact returns_refuse_error

theorem activeMatches_returns {root : Bytes} {material : List GenerationFile} :
    Returns host (fun same w' => w'.state = w.state ∧
      (same = true ↔ ∀ file ∈ material, w.state.read host.elsewhere ACTIVE_LINK file.name = .ok file.bytes))
      (activeMatches root material) w := by
  induction material generalizing w with
  | nil => exact returns_pure ⟨rfl, by simp⟩
  | cons file rest ih =>
    rw [activeMatches]
    refine wp_bind.mpr (returns_tryFs (fun bytes d hrun => ?_) fun kind d hmissing _ => ?_)
    · obtain ⟨hread, rfl⟩ := run_readFile hrun
      by_cases hbytes : bytes = file.bytes
      · simp only [if_pos hbytes]
        refine ih.mono (fun same w' h => ⟨h.1, h.2.trans ?_⟩) fun _ h => h
        rw [List.forall_mem_cons, hread, hbytes]
        exact (and_iff_right rfl).symm
      · simp only [if_neg hbytes]
        refine returns_pure ⟨rfl, iff_of_false (by simp) fun hall => ?_⟩
        have hfile := hall file List.mem_cons_self
        rw [hread] at hfile
        exact hbytes (Except.ok.inj hfile)
    · match kind with
      | .notFound =>
        obtain ⟨hrun, rfl⟩ := hmissing rfl
        refine returns_pure ⟨rfl, iff_of_false (by simp) fun hall => ?_⟩
        have hfile := hall file List.mem_cons_self
        rw [run_readFile_error hrun] at hfile
        cases hfile
      | .unexpectedEof => exact returns_refuse_error
      | .other code => exact returns_refuse_error

/-- The fast path is taken exactly when the material matches. -/
theorem unchangedGeneration_returns {root : Bytes} {material : List GenerationFile} :
    Returns host (fun current w' => w'.state = w.state ∧
      ∀ generation, current = some generation ↔ w.state.Matches host material generation)
      (unchangedGeneration root material) w := by
  unfold unchangedGeneration
  refine currentGeneration_returns.bind fun current w₁ h₁ => ?_
  obtain ⟨hcurrent, hstate₁⟩ := h₁
  cases hgen : current with
  | none =>
    refine returns_pure ⟨hstate₁, fun generation => ⟨fun h => (nomatch h), fun h => ?_⟩⟩
    rw [← hgen, hcurrent]
    exact h.current
  | some generation =>
    refine wp.bind activeMatches_returns fun same w₂ h₂ => ?_
    obtain ⟨hstate₂, hsame⟩ := h₂
    rw [hstate₁] at hsame hstate₂
    have hcur : w.state.current = some generation := by rw [← hcurrent, hgen]
    cases same with
    | true =>
      refine returns_pure ⟨hstate₂, fun other => ⟨fun h => ?_, fun h => ?_⟩⟩
      · cases h
        exact ⟨hcur, hsame.mp rfl⟩
      · exact hcur.symm.trans h.current
    | false =>
      refine returns_pure ⟨hstate₂, fun other => ⟨fun h => (nomatch h), fun h => ?_⟩⟩
      exact absurd (hsame.mpr h.served) (by simp)

/-! ## Allocating an index -/

/-- The highest generation number of the names, and of those seen before. -/
def highestGeneration (max : UInt64) : List Bytes → UInt64
  | [] => max
  | name :: rest =>
    highestGeneration (match parseGeneration name with | some n => Max.max max n | none => max) rest

/-- The index a call allocates. -/
def Disk.nextIndex (d : Disk) : UInt64 := highestGeneration 0 (names d.root) + 1

/-- `u64::MAX`, past which indices wrap around. -/
def MAX_GENERATION : UInt64 := 18446744073709551615

/-- No entry of the root uses the last generation index. -/
def Disk.HasRoom (d : Disk) : Prop := ∀ name ∈ names d.root, parseGeneration name ≠ some MAX_GENERATION

theorem max_cases (a b : UInt64) : a.toNat ≤ (max a b).toNat ∧ b.toNat ≤ (max a b).toNat ∧ (max a b = a ∨ max a b = b) := by
  have hmax : max a b = if a ≤ b then b else a := rfl
  rw [hmax]
  split
  · next h => exact ⟨UInt64.le_iff_toNat_le.mp h, le_refl _, .inr rfl⟩
  · next h =>
    rw [UInt64.le_iff_toNat_le] at h
    exact ⟨le_refl _, by omega, .inl rfl⟩

theorem le_highestGeneration (max : UInt64) (names : List Bytes) :
    max.toNat ≤ (highestGeneration max names).toNat ∧
      ∀ name ∈ names, ∀ n, parseGeneration name = some n → n.toNat ≤ (highestGeneration max names).toNat := by
  induction names generalizing max with
  | nil => simp [highestGeneration]
  | cons name rest ih =>
    rw [highestGeneration]
    cases hname : parseGeneration name with
    | none =>
      dsimp only
      obtain ⟨hmax, hrest⟩ := ih max
      refine ⟨hmax, List.forall_mem_cons.mpr ⟨fun n hn => ?_, hrest⟩⟩
      rw [hname] at hn
      cases hn
    | some m =>
      dsimp only
      obtain ⟨hmax, hrest⟩ := ih (Max.max max m)
      obtain ⟨hleft, hright, -⟩ := max_cases max m
      refine ⟨by omega, List.forall_mem_cons.mpr ⟨fun n hn => ?_, hrest⟩⟩
      rw [hname] at hn
      cases hn
      omega

theorem highestGeneration_eq (max : UInt64) (names : List Bytes) :
    highestGeneration max names = max ∨ ∃ name ∈ names, parseGeneration name = some (highestGeneration max names) := by
  induction names generalizing max with
  | nil => exact .inl rfl
  | cons name rest ih =>
    rw [highestGeneration]
    cases hname : parseGeneration name with
    | none =>
      rcases ih max with heq | ⟨other, hother, hparse⟩
      · exact .inl heq
      · exact .inr ⟨other, List.mem_cons_of_mem _ hother, hparse⟩
    | some m =>
      rcases ih (Max.max max m) with heq | ⟨other, hother, hparse⟩
      · rcases (max_cases max m).2.2 with hmax | hmax
        · exact .inl (heq.trans hmax)
        · exact .inr ⟨name, List.mem_cons_self, by rw [hname, heq, hmax]⟩
      · exact .inr ⟨other, List.mem_cons_of_mem _ hother, hparse⟩

/-- With room left, the highest index has one above it. -/
theorem Disk.HasRoom.toNat_nextIndex {d : Disk} (h : d.HasRoom) :
    d.nextIndex.toNat = (highestGeneration 0 (names d.root)).toNat + 1 := by
  have hlt : (highestGeneration 0 (names d.root)).toNat ≠ 18446744073709551615 := by
    intro heq
    have htop : highestGeneration 0 (names d.root) = MAX_GENERATION := UInt64.toNat_inj.mp heq
    rcases highestGeneration_eq 0 (names d.root) with hzero | ⟨name, hname, hparse⟩
    · rw [hzero] at htop
      exact absurd htop (by decide)
    · exact h name hname (htop ▸ hparse)
  have hbound := (highestGeneration 0 (names d.root)).toNat_lt
  have hone : (1 : UInt64).toNat = 1 := rfl
  rw [Disk.nextIndex, UInt64.toNat_add, hone, Nat.mod_eq_of_lt (by omega)]

/-- With room left, the index allocated is above every index in use. -/
theorem Disk.HasRoom.find_nextIndex {d : Disk} (h : d.HasRoom) : find d.root (generationName d.nextIndex) = none := by
  by_contra hused
  have hmem : generationName d.nextIndex ∈ names d.root := mem_names.mpr hused
  have hle := (le_highestGeneration 0 (names d.root)).2 _ hmem _ parseGeneration_generationName
  rw [h.toNat_nextIndex] at hle
  omega

theorem maxGeneration_returns {root : Bytes} {max : UInt64} {names : List Bytes} :
    Returns host (fun n w' => n = highestGeneration max names ∧ w'.state = w.state)
      (maxGeneration root max names) w := by
  induction names generalizing max w with
  | nil => exact returns_pure ⟨rfl, rfl⟩
  | cons name rest ih =>
    refine wp_bind.mpr (returns_fs fun out d hrun => ?_)
    cases hrun
    exact ih.mono (fun n w' h => ⟨by rw [highestGeneration]; exact h.1, h.2⟩) fun _ h => h

theorem nextGeneration_returns {root : Bytes} :
    Returns host (fun n w' => n = w.state.nextIndex ∧ w'.state = w.state) (nextGeneration root) w := by
  refine wp_bind.mpr (returns_fs fun names d hrun => ?_)
  cases hrun
  refine maxGeneration_returns.bind fun n w' h => ?_
  exact returns_pure ⟨by rw [h.1]; rfl, h.2⟩

/-! ## Staging and reading back -/

/-- The entries of a generation directory that holds the material, each file flushed. -/
def fileEntries (material : List GenerationFile) : Entries :=
  material.map fun file => (file.name, .file file.bytes true)

omit [FromGenerationError ε] in
theorem find_fileEntries_none {material : List GenerationFile} {name : Bytes} (h : name ∉ material.map (·.name)) :
    find (fileEntries material) name = none := by
  by_contra hfind
  obtain ⟨entry, hentry, rfl⟩ := List.mem_map.mp (mem_names.mpr hfind)
  obtain ⟨file, hfile, rfl⟩ := List.mem_map.mp hentry
  exact h (List.mem_map_of_mem hfile)

theorem find_fileEntries {material : List GenerationFile} {file : GenerationFile}
    (hnodup : (material.map (·.name)).Nodup) (h : file ∈ material) :
    find (fileEntries material) file.name = some (.file file.bytes true) := by
  induction material with
  | nil => cases h
  | cons first rest ih =>
    obtain ⟨hfirst, hnodup⟩ := List.nodup_cons.mp hnodup
    rw [fileEntries, List.map_cons, find_cons]
    rcases List.mem_cons.mp h with rfl | h
    · exact if_pos rfl
    · have hmem : file.name ∈ rest.map (·.name) := List.mem_map_of_mem h
      have hne : file.name ≠ first.name := fun heq => hfirst (by simpa [← heq] using hmem)
      rw [if_neg hne]
      exact ih hnodup h

theorem makeDir0700_returns {root name : Bytes} :
    Returns host (fun _ w' => find w'.state.root name = some (.dir [] false)) (makeDir0700 root name) w := by
  refine returns_fs fun out d hrun => ?_
  simp only [FsOp.run] at hrun
  split at hrun
  · cases hrun
  · cases hrun
    exact find_put_self

theorem writeFile0600_returns {root dir : Bytes} {file : GenerationFile} {entries : Entries} {flushed : Bool}
    (hdir : find w.state.root dir = some (.dir entries flushed)) (hnew : find entries file.name = none) :
    Returns host (fun _ w' => find w'.state.root dir =
      some (.dir (entries ++ [(file.name, .file file.bytes true)]) false)) (writeFile0600 root dir file) w := by
  refine wp_bind.mpr (returns_fs fun _ d₁ hrun₁ => ?_)
  obtain ⟨entries₁, _, changed₁, hfind₁, hchange₁, rfl⟩ := Disk.modifyDir_eq_ok hrun₁
  cases hdir.symm.trans hfind₁
  simp only [hnew, Except.ok.injEq, put_of_find_none hnew] at hchange₁
  subst hchange₁
  refine wp_bind.mpr (returns_fs fun _ d₂ hrun₂ => ?_)
  obtain ⟨entries₂, _, changed₂, hfind₂, hchange₂, rfl⟩ := Disk.modifyDir_eq_ok hrun₂
  cases find_put_self.symm.trans hfind₂
  have hlast : ∀ node : Node, find (entries ++ [(file.name, node)]) file.name = some node := by
    intro node
    rw [find_append, hnew, find_cons, if_pos rfl]
    rfl
  simp only [hlast, Except.ok.injEq, put_append_self hnew, List.nil_append] at hchange₂
  subst hchange₂
  refine returns_fs fun _ d₃ hrun₃ => ?_
  obtain ⟨entries₃, _, changed₃, hfind₃, hchange₃, rfl⟩ := Disk.modifyDir_eq_ok hrun₃
  cases find_put_self.symm.trans hfind₃
  simp only [hlast, Except.ok.injEq, put_append_self hnew] at hchange₃
  subst hchange₃
  exact find_put_self

theorem removeDirAllIfPresent_returns {root name : Bytes} :
    Returns host (fun _ w' => find w'.state.root name = none ∧
      ∀ other, other ≠ name → find w'.state.root other = find w.state.root other)
      (removeDirAllIfPresent root name) w := by
  refine wp_bind.mpr (returns_tryFs (fun out d hrun => ?_) fun kind d hmissing _ => ?_)
  · simp only [FsOp.run] at hrun
    split at hrun
    · cases hrun
    · cases hrun
      exact returns_pure ⟨find_erase_self, fun other hne => find_erase_ne hne⟩
    · cases hrun
  · rcases kind with _ | _ | code
    · obtain ⟨hrun, rfl⟩ := hmissing rfl
      simp only [FsOp.run] at hrun
      split at hrun
      · cases hrun
      · cases hrun
      · next hfind => exact returns_pure ⟨hfind, fun _ _ => rfl⟩
    · exact returns_refuse_error
    · exact returns_refuse_error

/-- A staged copy holds exactly the material, in its order. -/
theorem stage_returns {root dir : Bytes} {material : List GenerationFile} (hnodup : (material.map (·.name)).Nodup) :
    Returns host (fun _ w' => find w'.state.root dir = some (.dir (fileEntries material) false))
      (stage root dir material) w := by
  refine removeDirAllIfPresent_returns.bind fun _ w₁ _ => ?_
  refine makeDir0700_returns.bind fun _ w₂ hdir => ?_
  refine wp_each (fun done (w : Scene ε) => find w.state.root dir = some (.dir (fileEntries done) false)) hdir
    (fun _ _ _ => trivial) fun done file rest w hmaterial hdone => ?_
  rw [hmaterial, List.map_append, List.map_cons, List.nodup_append] at hnodup
  have hnew : file.name ∉ done.map (·.name) := fun hmem =>
    hnodup.2.2 _ hmem _ List.mem_cons_self rfl
  refine (writeFile0600_returns hdone (find_fileEntries_none hnew)).mono (fun _ w' h => ?_) fun _ h => h
  rw [h, fileEntries, fileEntries, List.map_append]
  rfl

theorem readBack_returns {root dir : Bytes} {material : List GenerationFile} {file : GenerationFile}
    (hnodup : (material.map (·.name)).Nodup) (hfile : file ∈ material)
    (hdir : find w.state.root dir = some (.dir (fileEntries material) false)) :
    Returns host (fun copy w' => copy = file ∧ w'.state = w.state) (readBack root dir file) w := by
  refine wp_bind.mpr (returns_fs fun bytes d hrun => ?_)
  obtain ⟨hread, rfl⟩ := run_readFile hrun
  simp only [Disk.read, hdir, readEntry, find_fileEntries hnodup hfile, Except.ok.injEq] at hread
  exact returns_pure ⟨by rw [← hread], rfl⟩

/-- What is read back for the validator is the material. -/
theorem collect_readBack_returns {root dir : Bytes} {material : List GenerationFile}
    (hnodup : (material.map (·.name)).Nodup)
    (hdir : find w.state.root dir = some (.dir (fileEntries material) false)) :
    Returns host (fun copied w' => copied = material ∧
      find w'.state.root dir = some (.dir (fileEntries material) false))
      (Prog.collect (readBack root dir) material) w := by
  refine (wp_collect id (fun w : Scene ε => find w.state.root dir = some (.dir (fileEntries material) false)) hdir
    (fun _ _ => trivial) fun file hfile w hinv => ?_).mono (fun copied w' h => ?_) fun _ h => h
  · refine (readBack_returns hnodup hfile hinv).mono (fun copy w' h => ⟨h.1, ?_⟩) fun _ h => h
    rw [h.2, hinv]
  · rwa [List.map_id] at h

/-! ## Publishing -/

theorem syncDir_returns {path dir : Bytes} {entries : Entries} {flushed : Bool}
    (hdir : find w.state.root dir = some (.dir entries flushed)) :
    Returns host (fun _ w' => find w'.state.root dir = some (.dir entries true)) (fs path (.syncDir dir)) w := by
  refine returns_fs fun _ d hrun => ?_
  simp only [FsOp.run, Disk.entriesOf, hdir, bind, Except.bind, Except.ok.injEq, Prod.mk.injEq] at hrun
  rw [← hrun.2]
  exact find_put_self

theorem syncRoot_returns {path : Bytes} :
    Returns host (fun _ w' => w'.state = { w.state with unflushed := [] }) (fs path .syncRoot) w := by
  refine returns_fs fun _ d hrun => ?_
  cases hrun
  rfl

theorem symlink_returns {path target name : Bytes} :
    Returns host (fun _ w' => find w'.state.root name = some (.link target)) (fs path (.symlink target name)) w := by
  refine returns_fs fun _ d hrun => ?_
  simp only [FsOp.run] at hrun
  split at hrun
  · cases hrun
  · cases hrun
    exact find_put_self

omit [FromGenerationError ε] in
theorem run_rename {d d' : Disk} {source target : Bytes} {elsewhere : Bytes → Except ErrorKind Bytes}
    (h : (FsOp.rename source target).run elsewhere d = .ok ((), d')) :
    ∃ node, find d.root source = some node ∧ d' = d.update (put (erase d.root source) target node) := by
  simp only [FsOp.run] at h
  split at h
  · cases h
  next node hnode =>
  split at h
  · cases h
  · cases h
    exact ⟨node, hnode, rfl⟩

/-- A rename that is not carried out changes nothing. -/
theorem wp_renameTo {root source target : Bytes} {post : Unit → Scene ε → Prop} {stop : Scene ε → Prop}
    (hstop : stop w)
    (hnot : ∀ r, r ≠ some (.ok ()) → stop (w.record (.fs (.rename source target)) r w.state))
    (hok : ∀ d, (FsOp.rename source target).run host.elsewhere w.state = .ok ((), d) →
      stop (w.record (.fs (.rename source target)) (some (.ok ())) d) ∧
        post () (w.record (.fs (.rename source target)) (some (.ok ())) d)) :
    wp (device host) post stop (renameTo root source target) w := by
  refine wp_bind.mpr (wp_perform.mpr ⟨hstop, fun d htorn => ?_, fun r d hends => ?_⟩)
  · cases htorn
    exact hnot none (by simp)
  rcases hends with hrun | ⟨⟨kind, -, rfl⟩, htorn⟩
  · cases ho : (FsOp.rename source target).run host.elsewhere w.state with
    | error kind =>
      simp only [device, ho] at hrun
      cases hrun
      have := hnot (some (.error kind)) (by simp)
      exact ⟨this, this⟩
    | ok res =>
      obtain ⟨⟨⟩, d'⟩ := res
      simp only [device, ho] at hrun
      cases hrun
      exact ⟨(hok d ho).1, hok d ho⟩
  · cases htorn
    have := hnot (some (.error kind)) (by simp)
    exact ⟨this, this⟩

/-- A prune removes staging directories, and the generations other than the one kept. -/
def Prunable (keep : UInt64) : Set Bytes :=
  {name | (parseTmpGeneration name).isSome ∨ (parseGeneration name).any (· ≠ keep)}

theorem pruneGenerations_returns {root : Bytes} {keep : UInt64} :
    Returns host (fun _ w' => ∀ name ∈ Prunable keep, find w'.state.root name = none)
      (pruneGenerations root keep) w := by
  refine wp_bind.mpr (returns_fs fun listed d hrun => ?_)
  cases hrun
  -- what is left of the root is among the names listed at the start
  let Pruned (done : List Bytes) (w' : Scene ε) : Prop :=
    (∀ name ∈ done, name ∈ Prunable keep → find w'.state.root name = none) ∧
      ∀ name, find w'.state.root name ≠ none → name ∈ names w.state.root
  suffices ∀ done name rest w₁, names w.state.root = done ++ name :: rest → Pruned done w₁ →
      Returns host (fun _ => Pruned (done ++ [name])) (pruneEntry root keep name) w₁ from
    wp.mono (wp_each Pruned ⟨by simp, fun name h => mem_names.mpr h⟩ (fun _ _ _ => trivial) this)
      (fun _ w' h name hname => by_contra fun hfind => hfind (h.1 name (h.2 name hfind) hname)) fun _ h => h
  intro done name rest w₁ _ hdone
  refine wp_bind.mpr (returns_fs fun _ d hrun => ?_)
  cases hrun
  split
  · refine removeDirAllIfPresent_returns.mono (fun _ w₂ hremoved => ⟨fun other hother hprune => ?_, fun other h => ?_⟩)
      fun _ h => h
    · by_cases heq : other = name
      · rw [heq]
        exact hremoved.1
      · rw [hremoved.2 other heq]
        have hmem : other ∈ done := by simpa [heq] using hother
        exact hdone.1 other hmem hprune
    · by_cases heq : other = name
      · exact absurd (heq ▸ hremoved.1) h
      · rw [hremoved.2 other heq] at h
        exact hdone.2 other h
  · next hkeep =>
    refine returns_pure ⟨fun other hother hprune => ?_, hdone.2⟩
    rcases List.mem_append.mp hother with hmem | hmem
    · exact hdone.1 other hmem hprune
    · rw [List.mem_singleton.mp hmem] at hprune
      exact absurd hprune hkeep

end DeployCore
