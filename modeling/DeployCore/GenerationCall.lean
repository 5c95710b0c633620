import DeployCore.GenerationSteps

/-! # One call of the engine

Wherever a call stops, it has only looked at the tree, or it is before the swap (`Unswapped`), or behind it
(`Swapped`); a call that returns has looked only, or has swapped and pruned (`activateGeneration_call`). -/

namespace DeployCore
open Directory Crash

/-- An operation that changes the root under the names of `S` at most, and neither renames nor validates. -/
def Op.Within (S : Set Bytes) : Op → Prop
  | .fs (.rename _ _) => False
  | .fs o => o.touches ⊆ S
  | .validate _ _ => False
  | .systemctl _ => True

/-- A look at the active generation. -/
def Op.Looks : Op → Prop
  | .fs (.readLink _) => True
  | .fs (.readFile _ _) => True
  | _ => False

section Kinds
variable {ε α : Type} {host : Host ε} {S : Set Bytes} {o : Op} {d d' : Disk} {w : Scene ε} {p : Engine ε α}
  {kind : Op → Prop}

theorem Op.Within.touches {o : FsOp} (h : (Op.fs o).Within S) : o.touches ⊆ S := by
  cases o with
  | rename source target => exact h.elim
  | _ => exact h

theorem Op.Within.torn (ho : o.Within S) (h : (device host).torn o d d') : d.Frame S d' := by
  match o with
  | .fs o => exact (FsOp.Torn.frame h).mono ho.touches
  | .systemctl _ =>
    cases h
    exact .refl

theorem Op.Within.ends {r : o.Result ε} (ho : o.Within S) (h : (device host).Ends o d r d') : d.Frame S d' := by
  rcases h with hrun | ⟨-, htorn⟩
  · match o with
    | .fs o =>
      simp only [device] at hrun
      split at hrun
      · next out d₁ ho' =>
        cases hrun
        exact (FsOp.frame_run ho').mono ho.touches
      · cases hrun
        exact .refl
    | .systemctl _ =>
      cases hrun
      exact .refl
  · exact ho.torn htorn

/-- What a program leaves of the names it does not work under. -/
theorem wp_within (hp : p.Uses (Op.Within S)) :
    wp (device host) (fun _ => w.Since (Disk.Frame S) (Op.Within S)) (w.Since (Disk.Frame S) (Op.Within S)) p w :=
  wp_since (fun _ => .refl) .trans hp (fun ho h => ho.torn h) fun ho h => ho.ends h

theorem Op.Looks.torn (ho : o.Looks) (h : (device host).torn o d d') : d' = d := by
  match o with
  | .fs (.readLink _) =>
    cases h
    rfl
  | .fs (.readFile _ _) =>
    cases h
    rfl

theorem Op.Looks.ends {r : o.Result ε} (ho : o.Looks) (h : (device host).Ends o d r d') : d' = d := by
  rcases h with hrun | ⟨-, htorn⟩
  · match o with
    | .fs (.readLink _) =>
      simp only [device] at hrun
      split at hrun
      · next hok => cases hrun; exact (run_readLink hok).2
      · cases hrun; rfl
    | .fs (.readFile _ _) =>
      simp only [device] at hrun
      split at hrun
      · next hok => cases hrun; exact (run_readFile hok).2
      · cases hrun; rfl
  · exact ho.torn htorn

/-- A program that only looks leaves the disk as it was. -/
theorem wp_looks (hp : p.Uses Op.Looks) :
    wp (device host) (fun _ => w.Since (fun d d' => d' = d) Op.Looks) (w.Since (fun d d' => d' = d) Op.Looks) p w :=
  wp_since (fun _ => rfl) (fun h h' => h'.trans h) hp (fun ho h => ho.torn h) fun ho h => ho.ends h

section Uses
variable [FromGenerationError ε] {root dir name path : Bytes} {material : List GenerationFile}

theorem uses_fs {o : FsOp} (h : kind (.fs o)) : (fs path o : Engine ε o.Out).Uses kind :=
  (Prog.Uses.perform h).bind fun r => by cases r <;> trivial

theorem currentGeneration_uses : (currentGeneration root : Engine ε _).Uses Op.Looks := by
  refine (Prog.Uses.perform (o := Op.fs (.readLink ACTIVE_LINK)) trivial).bind fun r => ?_
  match r with
  | .ok target => trivial
  | .error .notFound => trivial
  | .error .unexpectedEof => trivial
  | .error (.other _) => trivial

theorem activeMatches_uses : (activeMatches root material : Engine ε _).Uses Op.Looks := by
  induction material with
  | nil => trivial
  | cons file rest ih =>
    refine (Prog.Uses.perform (o := Op.fs (.readFile ACTIVE_LINK file.name)) trivial).bind fun r => ?_
    match r with
    | .ok bytes => exact ih.ite trivial
    | .error .notFound => trivial
    | .error .unexpectedEof => trivial
    | .error (.other _) => trivial

theorem unchangedGeneration_uses : (unchangedGeneration root material : Engine ε _).Uses Op.Looks := by
  refine currentGeneration_uses.bind fun current => ?_
  cases current with
  | none => trivial
  | some generation => exact activeMatches_uses.bind fun same => by cases same <;> trivial

theorem nextGeneration_uses : (nextGeneration root : Engine ε _).Uses (Op.Within ∅) := by
  have hscan : ∀ (names : List Bytes) max, (maxGeneration root max names : Engine ε _).Uses (Op.Within ∅) := by
    intro names
    induction names with
    | nil => exact fun _ => trivial
    | cons name rest ih => exact fun max => (uses_fs (Set.empty_subset ∅)).bind fun _ => ih _
  exact (uses_fs (Set.empty_subset ∅)).bind fun names => (hscan names 0).bind fun max => trivial

theorem removeDirAllIfPresent_uses (h : name ∈ S) :
    (removeDirAllIfPresent root name : Engine ε _).Uses (Op.Within S) := by
  refine (Prog.Uses.perform (o := Op.fs (.removeDirAll name))
    (show {name} ⊆ S from Set.singleton_subset_iff.mpr h)).bind fun r => ?_
  match r with
  | .ok () => trivial
  | .error .notFound => trivial
  | .error .unexpectedEof => trivial
  | .error (.other _) => trivial

theorem writeFile0600_uses {file : GenerationFile} :
    (writeFile0600 root dir file : Engine ε _).Uses (Op.Within {dir}) :=
  (uses_fs (subset_refl {dir})).bind fun _ => (uses_fs (subset_refl {dir})).bind fun _ => uses_fs (subset_refl {dir})

theorem removeFileIfPresent_uses (h : name ∈ S) :
    (removeFileIfPresent root name : Engine ε _).Uses (Op.Within S) := by
  refine (Prog.Uses.perform (o := Op.fs (.removeFile name))
    (show {name} ⊆ S from Set.singleton_subset_iff.mpr h)).bind fun r => ?_
  match r with
  | .ok () => trivial
  | .error .notFound => trivial
  | .error .unexpectedEof => trivial
  | .error (.other _) => trivial

theorem stage_uses : (stage root dir material : Engine ε _).Uses (Op.Within {dir}) :=
  (removeDirAllIfPresent_uses (Set.mem_singleton dir)).bind fun _ => Prog.Uses.bind (uses_fs (subset_refl {dir})) fun _ =>
    Prog.Uses.each fun _ => writeFile0600_uses

theorem collect_readBack_uses : (Prog.collect (readBack root dir) material : Engine ε _).Uses (Op.Within ∅) :=
  Prog.Uses.collect fun _ => (uses_fs (Set.empty_subset ∅)).bind fun _ => trivial

theorem reloadIfActive_uses {unit : String} : (reloadIfActive unit : Engine ε _).Uses (Op.Within ∅) := by
  refine (Prog.Uses.perform (o := Op.systemctl ["is-active", "--quiet", unit]) trivial).bind fun r => ?_
  cases r with
  | error reason => trivial
  | ok status =>
    refine Prog.Uses.ite ?_ trivial
    refine (Prog.Uses.perform (o := Op.systemctl ["reload", unit]) trivial).bind fun r => ?_
    cases r with
    | error reason => trivial
    | ok status => exact Prog.Uses.ite trivial trivial

theorem reload_uses {tree : GenerationTree} : (reload tree : Engine ε _).Uses (Op.Within ∅) := by
  unfold reload
  split
  · exact reloadIfActive_uses
  · trivial

theorem pruneGenerations_uses {keep : UInt64} :
    (pruneGenerations root keep : Engine ε _).Uses (Op.Within (Prunable keep)) := by
  refine (uses_fs (Set.empty_subset _)).bind fun names => Prog.Uses.each fun name => ?_
  refine Prog.Uses.bind (uses_fs (Set.empty_subset _)) fun _ => ?_
  split
  · next h => exact removeDirAllIfPresent_uses h
  · trivial

end Uses

end Kinds

/-! ## The phases of a call -/

section Phases
variable {ε : Type}

abbrev EngineEvent (ε : Type) := Event Op (Op.Result ε) Disk

/-- The validator accepted this material. -/
def Accepts (material : List GenerationFile) (e : EngineEvent ε) : Prop :=
  ∃ dir before, e = ⟨.validate dir material, before, some (.ok ())⟩

/-- The link swap. -/
def Swaps (e : EngineEvent ε) : Prop :=
  ∃ before, e = ⟨.fs (.rename ACTIVE_TMP ACTIVE_LINK), before, some (.ok ())⟩

/-- The renames and validations of a call that starts at `d₀`: the swap, the finalisation of the next
generation, whose name has until then the entry it had at the start, and the validation of the material. -/
def Proper (d₀ : Disk) (material : List GenerationFile) (e : EngineEvent ε) : Prop :=
  match e.op with
  | .fs (.rename source target) =>
    (source = ACTIVE_TMP ∧ target = ACTIVE_LINK) ∨
      (source = tmpGenerationName d₀.nextIndex ∧ target = generationName d₀.nextIndex ∧
        find e.before.root target = find d₀.root target)
  | .validate _ files => files = material
  | _ => True

/-- The names a call works under before the swap. -/
def Disk.scratch (d₀ : Disk) : Set Bytes :=
  {tmpGenerationName d₀.nextIndex, generationName d₀.nextIndex, ACTIVE_TMP}

/-- The directory of a generation that holds the material and is on disk. -/
def generationNode (material : List GenerationFile) : Node := .dir (fileEntries material) true

/-- Before the swap. -/
structure Unswapped (d₀ : Disk) (material : List GenerationFile) (w : Scene ε) : Prop where
  frame : d₀.Frame d₀.scratch w.state
  proper : ∀ e ∈ w.events, Proper d₀ material e
  unswapped : ∀ e ∈ w.events, ¬Swaps e

/-- The swap may not be on disk yet, but the generation it swaps to is. -/
def Disk.Swapping (d₀ : Disk) (material : List GenerationFile) (d : Disk) : Prop :=
  ∀ view ∈ d.views, find view (generationName d₀.nextIndex) = some (generationNode material) ∧
    ∃ view₀ ∈ d₀.views, (∀ name ∉ d₀.scratch, name ≠ ACTIVE_LINK → find view name = find view₀ name) ∧
      (find view ACTIVE_LINK = find view₀ ACTIVE_LINK ∨
        find view ACTIVE_LINK = some (.link (generationName d₀.nextIndex)))

/-- The active generation is this one, with this material, and it is on disk. -/
def Disk.Shows (d : Disk) (generation : UInt64) (material : List GenerationFile) : Prop :=
  ∀ view ∈ d.views, find view ACTIVE_LINK = some (.link (generationName generation)) ∧
    find view (generationName generation) = some (generationNode material)

def Disk.Published (d₀ : Disk) (material : List GenerationFile) (d : Disk) : Prop :=
  d₀.Swapping material d ∨ d.Shows d₀.nextIndex material

/-- Behind the swap. -/
structure Swapped (d₀ : Disk) (material : List GenerationFile) (w : Scene ε) : Prop where
  published : d₀.Published material w.state
  active : find w.state.root ACTIVE_LINK = some (.link (generationName d₀.nextIndex))
  proper : ∀ e ∈ w.events, Proper d₀ material e
  accepted : ∃ e ∈ w.events, Accepts material e
  swapped : ∃ e ∈ w.events, Swaps e

/-- Where a call that allocates an index may stop. -/
def Unfinished (d₀ : Disk) (material : List GenerationFile) (w : Scene ε) : Prop :=
  Unswapped d₀ material w ∨ Swapped d₀ material w

end Phases

section Runs
variable {ε α : Type} [FromGenerationError ε] {host : Host ε} {w w' : Scene ε} {d₀ : Disk}
  {material : List GenerationFile} {S : Set Bytes}

omit [FromGenerationError ε] in
theorem Op.Within.proper {e : EngineEvent ε} (h : e.op.Within S) : Proper d₀ material e := by
  unfold Proper
  split
  · next heq => rw [heq] at h; exact h.elim
  · next heq => rw [heq] at h; exact h.elim
  · trivial

omit [FromGenerationError ε] in
theorem Op.Within.not_swaps {e : EngineEvent ε} (h : e.op.Within S) : ¬Swaps e := by
  rintro ⟨before, rfl⟩
  exact h

omit [FromGenerationError ε] in
theorem Unswapped.since (h : Unswapped d₀ material w) (hS : S ⊆ d₀.scratch)
    (hsince : w.Since (Disk.Frame S) (Op.Within S) w') : Unswapped d₀ material w' where
  frame := h.frame.trans (hsince.state.mono hS)
  proper := hsince.forall h.proper fun _ he => he.proper
  unswapped := hsince.forall h.unswapped fun _ he => he.not_swaps

omit [FromGenerationError ε] in
/-- A step before the swap: what it returns, and that it stays before the swap. -/
theorem Unswapped.step {p : Engine ε α} {post : α → Scene ε → Prop} (h : Unswapped d₀ material w)
    (hS : S ⊆ d₀.scratch) (hp : p.Uses (Op.Within S)) (hreturns : Returns host post p w) :
    wp (device host) (fun a w' => post a w' ∧ w.Since (Disk.Frame S) (Op.Within S) w' ∧ Unswapped d₀ material w')
      (Unfinished d₀ material) p w :=
  (hreturns.and (wp_within hp)).mono (fun _ _ hpost => ⟨hpost.1, hpost.2, h.since hS hpost.2⟩)
    fun _ hstop => .inl (h.since hS hstop.2)

omit [FromGenerationError ε] in
theorem Disk.Shows.frame {d d' : Disk} {generation : UInt64} (h : d.Shows generation material) (hframe : d.Frame S d')
    (hactive : ACTIVE_LINK ∉ S) (hgen : generationName generation ∉ S) : d'.Shows generation material := by
  intro view' hview'
  obtain ⟨view, hview, hsame⟩ := hframe.views view' hview'
  rw [hsame _ hactive, hsame _ hgen]
  exact h view hview

omit [FromGenerationError ε] in
theorem Disk.Published.frame {d d' : Disk} (h : d₀.Published material d) (hframe : d.Frame ∅ d') :
    d₀.Published material d' := by
  rcases h with h | h
  · refine .inl fun view' hview' => ?_
    obtain ⟨view, hview, hsame⟩ := hframe.views view' hview'
    obtain ⟨hgen, view₀, hview₀, hothers, hactive⟩ := h view hview
    have hsame := fun name => hsame name (Set.notMem_empty name)
    exact ⟨(hsame _).trans hgen, view₀, hview₀, fun name hname hne => (hsame name).trans (hothers name hname hne),
      hactive.imp (hsame _).trans (hsame _).trans⟩
  · exact .inr (h.frame hframe (Set.notMem_empty _) (Set.notMem_empty _))

omit [FromGenerationError ε] in
/-- A step behind the swap. -/
theorem Swapped.step {p : Engine ε α} {post : α → Scene ε → Prop} (h : Swapped d₀ material w)
    (hpublished : ∀ d, w.state.Frame S d → d₀.Published material d) (hactive : ACTIVE_LINK ∉ S) (hp : p.Uses (Op.Within S))
    (hreturns : Returns host post p w) :
    wp (device host) (fun a w' => post a w' ∧ w.Since (Disk.Frame S) (Op.Within S) w' ∧ Swapped d₀ material w')
      (Unfinished d₀ material) p w := by
  have hsince : ∀ w', w.Since (Disk.Frame S) (Op.Within S) w' → Swapped d₀ material w' := by
    intro w' hw'
    refine ⟨hpublished _ hw'.state, (hw'.state.root _ hactive).trans h.active,
      hw'.forall h.proper fun _ he => he.proper, ?_, ?_⟩
    · exact h.accepted.imp fun e he => ⟨hw'.mem he.1, he.2⟩
    · exact h.swapped.imp fun e he => ⟨hw'.mem he.1, he.2⟩
  exact (hreturns.and (wp_within hp)).mono (fun _ w' hpost => ⟨hpost.1, hpost.2, hsince w' hpost.2⟩)
    fun w' hstop => .inr (hsince w' hstop.2)

/-- The names a call that returns may have changed. -/
def Disk.owned (d₀ : Disk) : Set Bytes :=
  d₀.scratch ∪ {ACTIVE_LINK} ∪ Prunable d₀.nextIndex

theorem Disk.active_not_mem_scratch : ACTIVE_LINK ∉ d₀.scratch := by
  rintro (h | h | h)
  · exact tmpGenerationName_ne_active h.symm
  · exact generationName_ne_active h.symm
  · exact activeTmp_ne_active h.symm

theorem active_not_mem_prunable {keep : UInt64} : ACTIVE_LINK ∉ Prunable keep := by
  rintro (h | h)
  · exact absurd h (by decide)
  · have hnone : parseGeneration ACTIVE_LINK = none := by decide
    rw [hnone] at h
    cases h

theorem keep_not_mem_prunable {keep : UInt64} : generationName keep ∉ Prunable keep := by
  rintro (h | h)
  · rw [parseTmpGeneration_generationName] at h
    cases h
  · rw [parseGeneration_generationName] at h
    simp at h

theorem removeFileIfPresent_returns {root name : Bytes} :
    Returns host (fun _ _ => True) (removeFileIfPresent root name) w := by
  refine wp_bind.mpr (returns_tryFs (fun _ _ _ => returns_pure trivial) fun kind _ _ _ => ?_)
  match kind with
  | .notFound => exact returns_pure trivial
  | .unexpectedEof => exact returns_refuse_error
  | .other code => exact returns_refuse_error

/-- Every state the disk may hold has the finalised generation. -/
def Disk.Finalised (d₀ : Disk) (material : List GenerationFile) (d : Disk) : Prop :=
  ∀ view ∈ d.views, find view (generationName d₀.nextIndex) = some (generationNode material)

theorem Disk.Finalised.frame {d d' : Disk} (h : d₀.Finalised material d) (hframe : d.Frame S d')
    (hgen : generationName d₀.nextIndex ∉ S) : d₀.Finalised material d' := by
  intro view' hview'
  obtain ⟨view, hview, hsame⟩ := hframe.views view' hview'
  rw [hsame _ hgen]
  exact h view hview

/-- What the root holds right behind the swap. -/
structure Disk.JustSwapped (d₀ : Disk) (material : List GenerationFile) (d : Disk) : Prop where
  active : find d.root ACTIVE_LINK = some (.link (generationName d₀.nextIndex))
  generation : find d.root (generationName d₀.nextIndex) = some (generationNode material)
  others : ∀ name ∉ d₀.scratch, name ≠ ACTIVE_LINK → find d.root name = find d₀.root name

theorem swapActiveSymlink_step {root : Bytes} (hU : Unswapped d₀ material w)
    (hfinal : d₀.Finalised material w.state) (haccepts : ∃ e ∈ w.events, Accepts material e) :
    wp (device host) (fun _ w' => Swapped d₀ material w' ∧ d₀.JustSwapped material w'.state)
      (Unfinished d₀ material) (swapActiveSymlink root d₀.nextIndex) w := by
  have hscratch : {ACTIVE_TMP} ⊆ d₀.scratch := Set.singleton_subset_iff.mpr (.inr (.inr rfl))
  have hgen : generationName d₀.nextIndex ∉ ({ACTIVE_TMP} : Set Bytes) := generationName_ne_activeTmp
  refine wp.bind (hU.step hscratch (removeFileIfPresent_uses rfl) removeFileIfPresent_returns) fun _ w₁ h₁ => ?_
  obtain ⟨-, hsince₁, hU₁⟩ := h₁
  refine wp.bind (hU₁.step hscratch (uses_fs (subset_refl {ACTIVE_TMP})) symlink_returns) fun _ w₂ h₂ => ?_
  obtain ⟨hlink, hsince₂, hU₂⟩ := h₂
  have hfinal₂ := (hfinal.frame hsince₁.state hgen).frame hsince₂.state hgen
  have haccepts₂ : ∃ e ∈ w₂.events, Accepts material e := by
    obtain ⟨e, he, ha⟩ := haccepts
    exact ⟨e, hsince₂.mem (hsince₁.mem he), ha⟩
  refine wp_renameTo (.inl hU₂) (fun r hr => .inl ⟨hU₂.frame, ?_, ?_⟩) fun d hrun => ?_
  · exact World.forall_record hU₂.proper (.inl ⟨rfl, rfl⟩)
  · refine World.forall_record hU₂.unswapped ?_
    rintro ⟨before, h⟩
    cases h
    exact hr rfl
  · obtain ⟨node, hnode, rfl⟩ := run_rename hrun
    cases hlink.symm.trans hnode
    have hroot : ∀ name, name ≠ ACTIVE_TMP → name ≠ ACTIVE_LINK →
        find (put (erase w₂.state.root ACTIVE_TMP) ACTIVE_LINK (.link (generationName d₀.nextIndex))) name =
          find w₂.state.root name := fun name htmp hactive => by
      rw [find_put_ne hactive, find_erase_ne htmp]
    have hgenroot := (hroot _ generationName_ne_activeTmp generationName_ne_active).trans
      (hfinal₂ w₂.state.root Disk.mem_views_root)
    have hothers : ∀ name ∉ d₀.scratch, name ≠ ACTIVE_LINK →
        find (put (erase w₂.state.root ACTIVE_TMP) ACTIVE_LINK (.link (generationName d₀.nextIndex))) name =
          find d₀.root name := fun name hname hactive => by
      rw [hroot name (fun heq => hname (heq ▸ .inr (.inr rfl))) hactive, hU₂.frame.root name hname]
    let swapped := put (erase w₂.state.root ACTIVE_TMP) ACTIVE_LINK (.link (generationName d₀.nextIndex))
    have hswapping : d₀.Swapping material (w₂.state.update swapped) := by
      intro view hview
      rcases List.mem_cons.mp hview with rfl | hview
      · exact ⟨hgenroot, d₀.root, Disk.mem_views_root, hothers, .inr find_put_self⟩
      · obtain ⟨view₀, hview₀, hsame⟩ := hU₂.frame.views view hview
        exact ⟨hfinal₂ view hview, view₀, hview₀, fun name hname _ => hsame name hname,
          .inl (hsame _ Disk.active_not_mem_scratch)⟩
    have hswapped : Swapped d₀ material (w₂.record (.fs (.rename ACTIVE_TMP ACTIVE_LINK))
        (some (.ok ())) (w₂.state.update swapped)) := by
      refine ⟨.inl hswapping, find_put_self, World.forall_record hU₂.proper (.inl ⟨rfl, rfl⟩), ?_, _,
        List.mem_append_right _ (List.mem_singleton.mpr rfl), w₂.state, rfl⟩
      obtain ⟨e, he, ha⟩ := haccepts₂
      exact ⟨e, List.mem_append_left _ he, ha⟩
    exact ⟨.inr hswapped, hswapped, find_put_self, hgenroot, hothers⟩

/-- What a call that changed the tree leaves. -/
structure Disk.Installed (d₀ : Disk) (material : List GenerationFile) (d : Disk) : Prop where
  shows : d.Shows d₀.nextIndex material
  pruned : ∀ name ∈ Prunable d₀.nextIndex, find d.root name = none
  others : ∀ name ∉ d₀.owned, find d.root name = find d₀.root name

theorem publish_step {tree : GenerationTree} (hU : Unswapped d₀ material w)
    (hstaged : find w.state.root (tmpGenerationName d₀.nextIndex) = some (.dir (fileEntries material) false))
    (hgen : find w.state.root (generationName d₀.nextIndex) = find d₀.root (generationName d₀.nextIndex))
    (haccepts : ∃ e ∈ w.events, Accepts material e) :
    wp (device host) (fun _ w' => Swapped d₀ material w' ∧ d₀.Installed material w'.state)
      (Unfinished d₀ material) (publish tree d₀.nextIndex) w := by
  have htmp : {tmpGenerationName d₀.nextIndex} ⊆ d₀.scratch := Set.singleton_subset_iff.mpr (.inl rfl)
  -- the staged directory is flushed
  refine wp.bind (hU.step htmp (uses_fs (subset_refl {tmpGenerationName d₀.nextIndex})) (syncDir_returns hstaged))
    fun _ w₁ h₁ => ?_
  obtain ⟨hstaged₁, hsince₁, hU₁⟩ := h₁
  have hgen₁ : find w₁.state.root (generationName d₀.nextIndex) = find d₀.root (generationName d₀.nextIndex) :=
    (hsince₁.state.root _ fun h => tmpGenerationName_ne_generationName h.symm).trans hgen
  have haccepts₁ : ∃ e ∈ w₁.events, Accepts material e := haccepts.imp fun e he => ⟨hsince₁.mem he.1, he.2⟩
  -- and renamed into place
  have hfinalise : wp (device host) (fun _ w₂ => Unswapped d₀ material w₂ ∧ (∃ e ∈ w₂.events, Accepts material e) ∧
      find w₂.state.root (generationName d₀.nextIndex) = some (generationNode material)) (Unfinished d₀ material)
      (renameTo tree.root (tmpGenerationName d₀.nextIndex) (generationName d₀.nextIndex)) w₁ := by
    have hproper : ∀ {r s}, ∀ e ∈ (w₁.record (.fs (.rename (tmpGenerationName d₀.nextIndex)
        (generationName d₀.nextIndex))) r s).events, Proper d₀ material e :=
      World.forall_record hU₁.proper (.inr ⟨rfl, rfl, hgen₁⟩)
    have hunswapped : ∀ {r s}, ∀ e ∈ (w₁.record (.fs (.rename (tmpGenerationName d₀.nextIndex)
        (generationName d₀.nextIndex))) r s).events, ¬Swaps e := by
      refine World.forall_record hU₁.unswapped ?_
      rintro ⟨before, h⟩
      injection h with hop
      injection hop with hfs
      injection hfs with hsource
      exact tmpGenerationName_ne_activeTmp hsource
    refine wp_renameTo (.inl hU₁) (fun r _ => .inl ⟨hU₁.frame, hproper, hunswapped⟩) fun d hrun => ?_
    obtain ⟨node, hnode, rfl⟩ := run_rename hrun
    cases hstaged₁.symm.trans hnode
    let finalised := put (erase w₁.state.root (tmpGenerationName d₀.nextIndex)) (generationName d₀.nextIndex)
      (generationNode material)
    have hU₂ : Unswapped d₀ material (w₁.record (.fs (.rename (tmpGenerationName d₀.nextIndex)
        (generationName d₀.nextIndex))) (some (.ok ())) (w₁.state.update finalised)) := by
      refine ⟨hU₁.frame.trans (.update fun name hname => ?_), hproper, hunswapped⟩
      have hgenne : name ≠ generationName d₀.nextIndex := fun heq => hname (heq ▸ .inr (.inl rfl))
      have htmpne : name ≠ tmpGenerationName d₀.nextIndex := fun heq => hname (heq ▸ .inl rfl)
      exact (find_put_ne hgenne).trans (find_erase_ne htmpne)
    obtain ⟨e, he, ha⟩ := haccepts₁
    exact ⟨.inl hU₂, hU₂, ⟨e, List.mem_append_left _ he, ha⟩, find_put_self⟩
  refine wp.bind hfinalise fun _ w₂ h₂ => ?_
  obtain ⟨hU₂, haccepts₂, hgen₂⟩ := h₂
  refine wp.bind (hU₂.step (Set.empty_subset _) (uses_fs (subset_refl ∅)) syncRoot_returns) fun _ w₃ h₃ => ?_
  obtain ⟨hflush₃, hsince₃, hU₃⟩ := h₃
  have hfinal₃ : d₀.Finalised material w₃.state := by
    intro view hview
    rw [hflush₃] at hview
    cases List.mem_singleton.mp hview
    exact hgen₂
  have haccepts₃ : ∃ e ∈ w₃.events, Accepts material e := haccepts₂.imp fun e he => ⟨hsince₃.mem he.1, he.2⟩
  refine wp.bind (swapActiveSymlink_step hU₃ hfinal₃ haccepts₃) fun _ w₄ h₄ => ?_
  obtain ⟨hS₄, hswapped₄⟩ := h₄
  -- the flush of the root makes the swap durable
  refine wp.bind (hS₄.step (fun _ => hS₄.published.frame) (Set.notMem_empty _) (uses_fs (subset_refl ∅)) syncRoot_returns)
    fun _ w₅ h₅ => ?_
  obtain ⟨hflush₅, -, hS₅⟩ := h₅
  have hshows₅ : w₅.state.Shows d₀.nextIndex material := by
    intro view hview
    rw [hflush₅] at hview
    cases List.mem_singleton.mp hview
    exact ⟨hswapped₄.active, hswapped₄.generation⟩
  refine wp.bind (hS₅.step (fun _ => hS₅.published.frame) (Set.notMem_empty _) reload_uses wp_trivial) fun _ w₆ h₆ => ?_
  obtain ⟨-, hsince₆, hS₆⟩ := h₆
  have hshows₆ := hshows₅.frame hsince₆.state (Set.notMem_empty _) (Set.notMem_empty _)
  refine (hS₆.step (fun d hd => .inr (hshows₆.frame hd active_not_mem_prunable keep_not_mem_prunable))
    active_not_mem_prunable pruneGenerations_uses pruneGenerations_returns).mono (fun _ w₇ h₇ => ?_) fun _ h => h
  obtain ⟨hpruned, hsince₇, hS₇⟩ := h₇
  refine ⟨hS₇, hshows₆.frame hsince₇.state active_not_mem_prunable keep_not_mem_prunable, hpruned,
    fun name hname => ?_⟩
  have hscratch : name ∉ d₀.scratch := fun h => hname (.inl (.inl h))
  have hactive : name ≠ ACTIVE_LINK := fun h => hname (.inl (.inr h))
  have hprune : name ∉ Prunable d₀.nextIndex := fun h => hname (.inr h)
  calc find w₇.state.root name = find w₆.state.root name := hsince₇.state.root name hprune
    _ = find w₅.state.root name := hsince₆.state.root name (Set.notMem_empty _)
    _ = find w₄.state.root name := by rw [hflush₅]
    _ = find d₀.root name := hswapped₄.others name hscratch hactive

/-- Only looks so far. -/
structure Looked (d₀ : Disk) (w : Scene ε) : Prop where
  state : w.state = d₀
  looks : ∀ e ∈ w.events, e.op.Looks

/-- The call gets to allocate an index: the material is well formed and does not match what is active. -/
structure Allocates (host : Host ε) (d₀ : Disk) (material : List GenerationFile) : Prop where
  checked : checkMaterial material = .ok ()
  changed : ∀ generation, ¬d₀.Matches host material generation

omit [FromGenerationError ε] in
theorem Op.Looks.proper {e : EngineEvent ε} (h : e.op.Looks) : Proper d₀ material e := by
  unfold Proper
  split
  · next heq => rw [heq] at h; exact h.elim
  · next heq => rw [heq] at h; exact h.elim
  · trivial

omit [FromGenerationError ε] in
theorem Looked.unswapped (h : Looked d₀ w) : Unswapped d₀ material w where
  frame := h.state ▸ .refl
  proper := fun e he => (h.looks e he).proper
  unswapped := by
    rintro e he ⟨before, rfl⟩
    exact h.looks _ he

theorem nodup_of_checkMaterial (h : checkMaterial material = .ok ()) : (material.map (·.name)).Nodup := by
  unfold checkMaterial at h
  split at h
  · cases h
  · cases hc : Checks.collectDistinct (·.name)
        (fun file : GenerationFile =>
          if isSingleComponent file.name then .ok () else .error (GenerationError.invalidName file.name))
        (fun file => .duplicateName file.name) (fun _ => .ok ()) [] material with
    | error e => rw [hc] at h; cases h
    | ok files => exact (Checks.collectDistinct_ok hc).2.2.1

theorem installGeneration_step {tree : GenerationTree} (hlooked : Looked d₀ w)
    (hnodup : (material.map (·.name)).Nodup) :
    wp (device host) (fun act w' => act = ⟨d₀.nextIndex, true⟩ ∧ Swapped d₀ material w' ∧
      d₀.Installed material w'.state) (Unfinished d₀ material) (installGeneration tree material) w := by
  have htmp : {tmpGenerationName d₀.nextIndex} ⊆ d₀.scratch := Set.singleton_subset_iff.mpr (.inl rfl)
  have hne : generationName d₀.nextIndex ∉ ({tmpGenerationName d₀.nextIndex} : Set Bytes) := fun h =>
    tmpGenerationName_ne_generationName h.symm
  have hU : Unswapped d₀ material w := hlooked.unswapped
  refine wp.bind (hU.step (Set.empty_subset _) nextGeneration_uses nextGeneration_returns) fun n w₁ h₁ => ?_
  obtain ⟨⟨hn, hstate₁⟩, -, hU₁⟩ := h₁
  rw [hlooked.state] at hn hstate₁
  subst hn
  refine wp.bind (hU₁.step htmp stage_uses (stage_returns hnodup)) fun _ w₂ h₂ => ?_
  obtain ⟨hstaged₂, hsince₂, hU₂⟩ := h₂
  refine wp.bind (hU₂.step (Set.empty_subset _) collect_readBack_uses (collect_readBack_returns hnodup hstaged₂))
    fun copied w₃ h₃ => ?_
  obtain ⟨⟨hcopied, hstaged₃⟩, hsince₃, hU₃⟩ := h₃
  subst hcopied
  have hgen₃ : find w₃.state.root (generationName d₀.nextIndex) = find d₀.root (generationName d₀.nextIndex) := by
    rw [hsince₃.state.root _ (Set.notMem_empty _), hsince₂.state.root _ hne, hstate₁]
  -- the validator is given the material, and leaves the tree alone
  have hjudged : ∀ r, Unswapped d₀ copied
      (w₃.record (.validate (joinPath tree.root (tmpGenerationName d₀.nextIndex)) copied) r w₃.state) := by
    refine fun r => ⟨hU₃.frame, World.forall_record hU₃.proper rfl, World.forall_record hU₃.unswapped ?_⟩
    rintro ⟨before, h⟩
    cases h
  refine wp_bind.mpr (wp_perform.mpr ⟨.inl hU₃, fun d htorn => ?_, fun verdict d hends => ?_⟩)
  · cases htorn
    exact .inl (hjudged none)
  rcases hends with hrun | ⟨hfault, -⟩
  swap
  · exact hfault.elim
  cases hrun
  refine ⟨.inl (hjudged _), ?_⟩
  cases hverdict : host.validate (joinPath tree.root (tmpGenerationName d₀.nextIndex)) copied with
  | error err =>
    -- the rejected copy is discarded
    have hU₄ := hjudged (some (.error err))
    exact wp.bind (hU₄.step htmp (Prog.Uses.perform (o := Op.fs (.removeDirAll _)) (subset_refl _)) wp_trivial)
      fun _ w₅ h₅ => .inl h₅.2.2
  | ok _ =>
    have hU₄ := hjudged (some (.ok ()))
    refine wp.bind (publish_step hU₄ hstaged₃ hgen₃ ⟨_, List.mem_append_right _ (List.mem_singleton.mpr rfl), _, _, rfl⟩)
      fun _ w₅ h₅ => ?_
    exact wp_pure.mpr ⟨.inr h₅.1, rfl, h₅⟩

/-- What a call is about to return, or where it stops. -/
theorem activateGeneration_call {tree : GenerationTree} :
    wp (device host)
      (fun act w' => (act.changed = false ∧ Looked d₀ w' ∧ d₀.Matches host material act.generation) ∨
        (act = ⟨d₀.nextIndex, true⟩ ∧ Allocates host d₀ material ∧ Swapped d₀ material w' ∧
          d₀.Installed material w'.state))
      (fun w' => Looked d₀ w' ∨ (Allocates host d₀ material ∧ Unfinished d₀ material w'))
      (activateGeneration tree material) ⟨d₀, []⟩ := by
  have hstart : Looked d₀ (⟨d₀, []⟩ : Scene ε) := ⟨rfl, by simp⟩
  cases hcheck : checkMaterial material with
  | error e =>
    rw [activateGeneration, hcheck]
    exact .inl hstart
  | ok checked =>
    rw [activateGeneration, hcheck]
    refine wp_bind.mpr ⟨.inl hstart, ?_⟩
    have hlooked : ∀ w' : Scene ε, World.Since (fun d d' => d' = d) Op.Looks ⟨d₀, []⟩ w' → Looked d₀ w' :=
      fun w' h => ⟨h.state, h.forall hstart.looks fun _ he => he⟩
    refine wp.bind ((unchangedGeneration_returns.and (wp_looks unchangedGeneration_uses)).mono
      (fun _ _ h => h) fun w' h => .inl (hlooked w' h.2)) fun current w' h => ?_
    obtain ⟨⟨-, hmatches⟩, hsince⟩ := h
    have hL := hlooked w' hsince
    cases current with
    | some generation =>
      exact wp_pure.mpr ⟨.inl hL, .inl ⟨rfl, hL, (hmatches generation).mp rfl⟩⟩
    | none =>
      have hallocates : Allocates host d₀ material :=
        ⟨hcheck, fun generation h => nomatch (hmatches generation).mpr h⟩
      exact (installGeneration_step hL (nodup_of_checkMaterial hcheck)).mono
        (fun act w'' h => .inr ⟨h.1, hallocates, h.2⟩) fun w'' h => .inr ⟨hallocates, h⟩

/-! ### A name that is taken -/

/-- The name of the next generation is that of a directory with entries, as it can be where the index wrapped
around. -/
def Disk.Occupied (d : Disk) : Prop :=
  ∃ entry entries flushed, find d.root (generationName d.nextIndex) = some (.dir (entry :: entries) flushed)

/-- Nothing but the staging directory has changed. -/
structure Stuck (d₀ : Disk) (w : Scene ε) : Prop where
  frame : d₀.Frame {tmpGenerationName d₀.nextIndex} w.state
  unswapped : ∀ e ∈ w.events, ¬Swaps e

omit [FromGenerationError ε] in
theorem Stuck.since (h : Stuck d₀ w) (hS : S ⊆ {tmpGenerationName d₀.nextIndex})
    (hsince : w.Since (Disk.Frame S) (Op.Within S) w') : Stuck d₀ w' :=
  ⟨h.frame.trans (hsince.state.mono hS), hsince.forall h.unswapped fun _ he => he.not_swaps⟩

omit [FromGenerationError ε] in
theorem Stuck.step {p : Engine ε α} {post : α → Scene ε → Prop} (h : Stuck d₀ w)
    (hS : S ⊆ {tmpGenerationName d₀.nextIndex}) (hp : p.Uses (Op.Within S)) (hreturns : Returns host post p w) :
    wp (device host) (fun a w' => post a w' ∧ Stuck d₀ w') (Stuck d₀) p w :=
  (hreturns.and (wp_within hp)).mono (fun _ _ hpost => ⟨hpost.1, h.since hS hpost.2⟩) fun _ hstop => h.since hS hstop.2

/-- No rename replaces a directory with entries. -/
theorem rename_refused {elsewhere : Bytes → Except ErrorKind Bytes} {d d' : Disk} {source target : Bytes}
    {entry : Bytes × Node} {entries : Entries} {flushed : Bool}
    (h : find d.root target = some (.dir (entry :: entries) flushed)) :
    (FsOp.rename source target).run elsewhere d ≠ .ok ((), d') := by
  intro hrun
  simp only [FsOp.run, h] at hrun
  split at hrun
  · cases hrun
  next node _ =>
  cases node <;> cases hrun

/-- A call that would finalise under a name that is taken stops before it does. -/
theorem activateGeneration_occupied {tree : GenerationTree} (hoccupied : d₀.Occupied) :
    wp (device host) (fun _ _ => True) (Stuck d₀) (activateGeneration tree material) ⟨d₀, []⟩ := by
  obtain ⟨entry, entries, flushed, htaken⟩ := hoccupied
  have hstart : Stuck d₀ (⟨d₀, []⟩ : Scene ε) := ⟨.refl, by simp⟩
  have htmp : ∅ ⊆ ({tmpGenerationName d₀.nextIndex} : Set Bytes) := Set.empty_subset _
  cases hcheck : checkMaterial material with
  | error e =>
    rw [activateGeneration, hcheck]
    exact hstart
  | ok checked =>
  rw [activateGeneration, hcheck]
  refine wp_bind.mpr ⟨hstart, ?_⟩
  have hlooked : ∀ w' : Scene ε, World.Since (fun d d' => d' = d) Op.Looks ⟨d₀, []⟩ w' → w'.state = d₀ ∧ Stuck d₀ w' := by
    refine fun w' h => ⟨h.state, h.state ▸ .refl, h.forall hstart.unswapped ?_⟩
    rintro e he ⟨before, rfl⟩
    exact he
  refine wp.bind ((wp_looks unchangedGeneration_uses).mono (fun _ _ h => h) fun w' h => (hlooked w' h).2)
    fun current w' h => ?_
  obtain ⟨hstate, hstuck⟩ := hlooked w' h
  cases current with
  | some generation => exact wp_pure.mpr ⟨hstuck, trivial⟩
  | none =>
  refine wp.bind (hstuck.step htmp nextGeneration_uses nextGeneration_returns) fun n w₁ h₁ => ?_
  obtain ⟨⟨hn, -⟩, hstuck₁⟩ := h₁
  rw [hstate] at hn
  subst hn
  refine wp.bind (hstuck₁.step subset_rfl stage_uses wp_trivial) fun _ w₂ h₂ => ?_
  refine wp.bind (h₂.2.step htmp collect_readBack_uses wp_trivial) fun copied w₃ h₃ => ?_
  have hjudged : ∀ r, Stuck d₀
      (w₃.record (.validate (joinPath tree.root (tmpGenerationName d₀.nextIndex)) copied) r w₃.state) := by
    refine fun r => ⟨h₃.2.frame, World.forall_record h₃.2.unswapped ?_⟩
    rintro ⟨before, h⟩
    cases h
  refine wp_bind.mpr (wp_perform.mpr ⟨h₃.2, fun d htorn => ?_, fun verdict d hends => ?_⟩)
  · cases htorn
    exact hjudged none
  rcases hends with hrun | ⟨hfault, -⟩
  swap
  · exact hfault.elim
  cases hrun
  refine ⟨hjudged _, ?_⟩
  cases hverdict : host.validate (joinPath tree.root (tmpGenerationName d₀.nextIndex)) copied with
  | error err =>
    exact wp.bind ((hjudged (some (.error err))).step subset_rfl
      (Prog.Uses.perform (o := Op.fs (.removeDirAll _)) (subset_refl _)) wp_trivial) fun _ w₅ h₅ => h₅.2
  | ok _ =>
    refine wp.bind (wp.bind ((hjudged (some (.ok ()))).step subset_rfl
      (uses_fs (subset_refl {tmpGenerationName d₀.nextIndex})) wp_trivial) fun _ w₄ h₄ => ?_) fun _ w₅ h₅ => h₅
    have htaken₄ : find w₄.state.root (generationName d₀.nextIndex) = some (.dir (entry :: entries) flushed) :=
      (h₄.2.frame.root _ fun h => tmpGenerationName_ne_generationName h.symm).trans htaken
    have hrename : wp (device host) (fun _ _ => False) (Stuck d₀)
        (renameTo tree.root (tmpGenerationName d₀.nextIndex) (generationName d₀.nextIndex)) w₄ := by
      refine wp_renameTo h₄.2 (fun r _ => ⟨h₄.2.frame, ?_⟩) fun d hrun => absurd hrun (rename_refused htaken₄)
      refine World.forall_record h₄.2.unswapped ?_
      rintro ⟨before, h⟩
      injection h with hop
      injection hop with hfs
      injection hfs with hsource
      exact tmpGenerationName_ne_activeTmp hsource
    exact wp.bind hrename fun _ _ h => h.elim

end Runs

end DeployCore
