import DeployCore.GenerationServe

/-! # What a tree shows, over calls of any number

`shown` is what the active link names in a state of the root. A call leaves it alone or swaps it to the new
generation, in every state that the disk may hold, also where the index wrapped around to a name in use: such a call
is refused before it changes anything but its staging directory (`Call.moved`). -/

namespace DeployCore
open Directory Crash

/-- The active entry, and what it leads to when it is a link. -/
def shown (view : Entries) : Option (Node × Option Node) :=
  (find view ACTIVE_LINK).map fun
    | .link target => (.link target, find view target)
    | node => (node, none)

/-- A complete generation, as it is shown. -/
def shownGeneration (generation : UInt64) (material : List GenerationFile) : Node × Option Node :=
  (.link (generationName generation), some (generationNode material))

/-- In every state the disk may hold, what is active is a complete generation of a good material, and it is complete
in all of them. -/
def Disk.Keeps (d : Disk) (good : List GenerationFile → Prop) : Prop :=
  ∀ view ∈ d.views, ∀ node, find view ACTIVE_LINK = some node →
    ∃ generation material, node = .link (generationName generation) ∧ material ≠ [] ∧ good material ∧
      ∀ view' ∈ d.views, find view' (generationName generation) = some (generationNode material)

/-- What was shown still is, or what a swap shows. -/
inductive Disk.Moved (d d' : Disk) (new : Node × Option Node) : Prop
  | kept (root : shown d'.root = shown d.root) (views : ∀ view' ∈ d'.views, ∃ view ∈ d.views, shown view' = shown view)
  | swapped (root : shown d'.root = some new)
      (views : ∀ view' ∈ d'.views, shown view' = some new ∨ ∃ view ∈ d.views, shown view' = shown view)

variable {d d' : Disk} {good : List GenerationFile → Prop} {S : Set Bytes} {view view' : Entries}
  {generation : UInt64} {material : List GenerationFile}

theorem shown_eq_none (h : find view ACTIVE_LINK = none) : shown view = none := by
  rw [shown, h]
  rfl

theorem shown_link {target : Bytes} (h : find view ACTIVE_LINK = some (.link target)) :
    shown view = some (.link target, find view target) := by
  rw [shown, h]
  rfl

theorem shown_eq_generation (h : find view ACTIVE_LINK = some (.link (generationName generation)))
    (hgen : find view (generationName generation) = some (generationNode material)) :
    shown view = some (shownGeneration generation material) := by
  rw [shown_link h, hgen]
  rfl

theorem of_shown_eq_generation (h : shown view = some (shownGeneration generation material)) :
    find view ACTIVE_LINK = some (.link (generationName generation)) ∧
      find view (generationName generation) = some (generationNode material) := by
  rw [shown] at h
  obtain ⟨node, hnode, hpair⟩ := Option.map_eq_some_iff.mp h
  cases node with
  | link target =>
    obtain ⟨htarget, hgen⟩ := Prod.mk.inj hpair
    cases htarget
    exact ⟨hnode, hgen⟩
  | file => cases (Prod.mk.inj hpair).1
  | dir => cases (Prod.mk.inj hpair).1

/-- Two states that agree on the active entry, and on what a link of that name leads to, show the same. -/
theorem shown_congr (hactive : find view' ACTIVE_LINK = find view ACTIVE_LINK)
    (htarget : ∀ target, find view ACTIVE_LINK = some (.link target) → find view' target = find view target) :
    shown view' = shown view := by
  rw [shown, shown, hactive]
  cases hfind : find view ACTIVE_LINK with
  | none => rfl
  | some node =>
    cases node with
    | link target => exact congrArg (fun found => some (Node.link target, found)) (htarget target hfind)
    | file => rfl
    | dir => rfl

/-- What is kept shows as nothing or as a good generation. -/
theorem Disk.Keeps.shown (h : d.Keeps good) (hview : view ∈ d.views) :
    shown view = none ∨ ∃ generation material, shown view = some (shownGeneration generation material) ∧ good material := by
  cases hfind : find view ACTIVE_LINK with
  | none => exact .inl (shown_eq_none hfind)
  | some node =>
    obtain ⟨generation, material, rfl, -, hgood, hall⟩ := h view hview node hfind
    exact .inr ⟨generation, material, shown_eq_generation hfind (hall view hview), hgood⟩

theorem Disk.Keeps.mono {good' : List GenerationFile → Prop} (h : d.Keeps good) (himp : ∀ material, good material → good' material) :
    d.Keeps good' := by
  intro view hview node hnode
  obtain ⟨generation, material, hlink, hne, hgood, hall⟩ := h view hview node hnode
  exact ⟨generation, material, hlink, hne, himp material hgood, hall⟩

/-- Where no active link is set, and the names that changed are no generation's. -/
theorem Disk.Keeps.frame (h : d.Keeps good) (hframe : d.Frame S d') (hactive : ACTIVE_LINK ∉ S)
    (htargets : ∀ view ∈ d.views, ∀ generation, find view ACTIVE_LINK = some (.link (generationName generation)) →
      generationName generation ∉ S) :
    d'.Keeps good ∧ DeployCore.shown d'.root = DeployCore.shown d.root ∧
      ∀ view' ∈ d'.views, ∃ view ∈ d.views, DeployCore.shown view' = DeployCore.shown view := by
  have hsame : ∀ view ∈ d.views, ∀ view', (∀ name ∉ S, find view' name = find view name) →
      DeployCore.shown view' = DeployCore.shown view := by
    intro view hview view' hagree
    refine shown_congr (hagree _ hactive) fun target htarget => hagree _ ?_
    obtain ⟨generation, -, hlink, -⟩ := h view hview _ htarget
    cases hlink
    exact htargets view hview generation htarget
  refine ⟨fun view' hview' node hnode => ?_, hsame _ Disk.mem_views_root _ hframe.root, fun view' hview' => ?_⟩
  · obtain ⟨view, hview, hagree⟩ := hframe.views view' hview'
    rw [hagree _ hactive] at hnode
    obtain ⟨generation, material, rfl, hne, hgood, hall⟩ := h view hview node hnode
    refine ⟨generation, material, rfl, hne, hgood, fun other' hother' => ?_⟩
    obtain ⟨other, hother, hagree'⟩ := hframe.views other' hother'
    rw [hagree' _ (htargets view hview generation hnode)]
    exact hall other hother
  · obtain ⟨view, hview, hagree⟩ := hframe.views view' hview'
    exact ⟨view, hview, hsame view hview view' hagree⟩

theorem Disk.Keeps.powerLoss (h : d.Keeps good) (hloss : d.PowerLoss d') :
    d'.Keeps good ∧ d'.views = [d'.root] ∧ ∃ view ∈ d.views, DeployCore.shown d'.root = DeployCore.shown view := by
  have hviews : d'.views = [d'.root] := by rw [Disk.views, hloss.flushed]
  obtain ⟨view, hview, hrel⟩ := hloss.entry ACTIVE_LINK
  cases hfind : find view ACTIVE_LINK with
  | none =>
    rw [hfind] at hrel
    cases hfind' : find d'.root ACTIVE_LINK with
    | some node => rw [hfind'] at hrel; cases hrel
    | none =>
      refine ⟨fun view' hview' node hnode => ?_, hviews, view, hview, by rw [shown_eq_none hfind, shown_eq_none hfind']⟩
      rw [hviews, List.mem_singleton] at hview'
      subst hview'
      cases hfind'.symm.trans hnode
  | some node =>
    obtain ⟨generation, material, rfl, hne, hgood, hall⟩ := h view hview node hfind
    rw [hfind] at hrel
    cases hfind' : find d'.root ACTIVE_LINK with
    | none => rw [hfind'] at hrel; cases hrel
    | some node' =>
      rw [hfind'] at hrel
      cases hrel with
      | some hsurvives =>
        cases hsurvives.eq .link
        have hgen := hloss.find_eq settled_generationNode hall
        refine ⟨fun view' hview' node hnode => ?_, hviews, view, hview, ?_⟩
        · rw [hviews, List.mem_singleton] at hview'
          subst hview'
          cases hfind'.symm.trans hnode
          refine ⟨generation, material, rfl, hne, hgood, fun other hother => ?_⟩
          rw [hviews, List.mem_singleton] at hother
          subst hother
          exact hgen
        · rw [shown_eq_generation hfind (hall view hview), shown_eq_generation hfind' hgen]

theorem ne_nil_of_checkMaterial (h : checkMaterial material = .ok ()) : material ≠ [] := by
  rintro rfl
  cases h

section Calls
variable {ε : Type} [FromGenerationError ε] {c : Call ε}

theorem generationNode_ne_nil (h : material ≠ []) :
    ∃ entry entries, generationNode material = .dir (entry :: entries) true := by
  cases material with
  | nil => exact absurd rfl h
  | cons file files => exact ⟨_, _, rfl⟩

/-- Unless its name is taken, the next generation is active in no state. -/
theorem Disk.Keeps.not_mem_scratch (h : d.Keeps good) (hfree : ¬d.Occupied) (hview : view ∈ d.views)
    (hlink : find view ACTIVE_LINK = some (.link (generationName generation))) :
    generationName generation ∉ d.scratch ∧ generationName generation ≠ generationName d.nextIndex := by
  obtain ⟨generation', material, heq, hne, -, hall⟩ := h view hview _ hlink
  rw [Node.link.inj heq]
  have hnext : generationName generation' ≠ generationName d.nextIndex := by
    intro hnext
    obtain ⟨entry, entries, hnode⟩ := generationNode_ne_nil hne
    exact hfree ⟨entry, entries, true, by rw [← hnext, hall d.root Disk.mem_views_root, hnode]⟩
  refine ⟨?_, hnext⟩
  rintro (htmp | hgen | hactive)
  · exact tmpGenerationName_ne_generationName htmp.symm
  · exact hnext hgen
  · exact generationName_ne_activeTmp hactive

/-- Behind the swap, every state has the new generation, and shows it or what a state showed before. -/
theorem Disk.Published.moved (h : d.Published material d') (hkeeps : d.Keeps good) (hfree : ¬d.Occupied)
    (hgood : good material) (hne : material ≠ []) :
    d'.Keeps good ∧ (∀ view' ∈ d'.views, find view' (generationName d.nextIndex) = some (generationNode material)) ∧
      ∀ view' ∈ d'.views, DeployCore.shown view' = some (shownGeneration d.nextIndex material) ∨
        ∃ view ∈ d.views, DeployCore.shown view' = DeployCore.shown view := by
  rcases h with hswapping | hshows
  · have hgen := fun view' hview' => (hswapping view' hview').1
    refine ⟨fun view' hview' node hnode => ?_, hgen, fun view' hview' => ?_⟩
    · obtain ⟨-, view, hview, -, hold | hnew⟩ := hswapping view' hview'
      · rw [hold] at hnode
        obtain ⟨generation, old, rfl, holdne, hold, hall⟩ := hkeeps view hview node hnode
        refine ⟨generation, old, rfl, holdne, hold, fun other' hother' => ?_⟩
        obtain ⟨-, other, hother, hagree, -⟩ := hswapping other' hother'
        rw [hagree _ (hkeeps.not_mem_scratch hfree hview hnode).1 generationName_ne_active]
        exact hall other hother
      · cases hnew.symm.trans hnode
        exact ⟨d.nextIndex, material, rfl, hne, hgood, hgen⟩
    · obtain ⟨-, view, hview, hagree, hold | hnew⟩ := hswapping view' hview'
      · refine .inr ⟨view, hview, shown_congr hold fun target htarget => ?_⟩
        obtain ⟨generation, -, hlink, -⟩ := hkeeps view hview _ htarget
        cases hlink
        exact hagree _ (hkeeps.not_mem_scratch hfree hview htarget).1 generationName_ne_active
      · exact .inl (shown_eq_generation hnew (hgen view' hview'))
  · refine ⟨fun view' hview' node hnode => ?_, fun view' hview' => (hshows view' hview').2, fun view' hview' =>
      .inl (shown_eq_generation (hshows view' hview').1 (hshows view' hview').2)⟩
    cases (hshows view' hview').1.symm.trans hnode
    exact ⟨d.nextIndex, material, rfl, hne, hgood, fun other hother => (hshows other hother).2⟩

/-- A call leaves what is shown, or swaps it to its own material's generation; and one that returns a change has
swapped it in every state the disk may hold. -/
theorem Call.moved (hwent : c.Went) (hkeeps : c.before.Keeps good) (hgood : good c.material) :
    c.after.Keeps good ∧ c.before.Moved c.after (shownGeneration c.before.nextIndex c.material) ∧
      ((∀ e ∈ c.events, ¬Swaps e) → shown c.after.root = shown c.before.root) ∧
      ∀ act, c.outcome = .ok act →
        (act.changed = false ∧ c.after = c.before ∧ c.before.Matches c.host c.material act.generation) ∨
        (act = ⟨c.before.nextIndex, true⟩ ∧
          ∀ view ∈ c.after.views, shown view = some (shownGeneration c.before.nextIndex c.material)) := by
  obtain ⟨hstops, hreturns⟩ := Runs.of_wp hwent activateGeneration_call
  have hreturned : ∀ act, c.outcome = .ok act →
      (act.changed = false ∧ c.after = c.before ∧ c.before.Matches c.host c.material act.generation) ∨
      (act = ⟨c.before.nextIndex, true⟩ ∧
        ∀ view ∈ c.after.views, shown view = some (shownGeneration c.before.nextIndex c.material)) := by
    intro act hact
    rcases hreturns act hact with ⟨hchanged, hlooked, hmatches⟩ | ⟨rfl, -, -, hinstalled⟩
    · exact .inl ⟨hchanged, hlooked.state, hmatches⟩
    · refine .inr ⟨rfl, fun view hview => ?_⟩
      obtain ⟨hactive, hgen⟩ := hinstalled.shows view hview
      exact shown_eq_generation hactive hgen
  suffices c.after.Keeps good ∧ c.before.Moved c.after (shownGeneration c.before.nextIndex c.material) ∧
      ((∀ e ∈ c.events, ¬Swaps e) → shown c.after.root = shown c.before.root) from
    ⟨this.1, this.2.1, this.2.2, hreturned⟩
  by_cases hoccupied : c.before.Occupied
  · obtain ⟨hstuck, -⟩ := Runs.of_wp hwent (activateGeneration_occupied hoccupied)
    obtain ⟨hkept, hroot, hviews⟩ := hkeeps.frame hstuck.frame (fun h => tmpGenerationName_ne_active h.symm)
      fun _ _ _ _ h => tmpGenerationName_ne_generationName h.symm
    exact ⟨hkept, .kept hroot hviews, fun _ => hroot⟩
  rcases hstops with hlooked | ⟨hallocates, hunswapped | hswapped⟩
  · rw [show c.after = c.before from hlooked.state]
    exact ⟨hkeeps, .kept rfl fun view hview => ⟨view, hview, rfl⟩, fun _ => rfl⟩
  · obtain ⟨hkept, hroot, hviews⟩ := hkeeps.frame hunswapped.frame Disk.active_not_mem_scratch
      fun view hview generation hlink => (hkeeps.not_mem_scratch hoccupied hview hlink).1
    exact ⟨hkept, .kept hroot hviews, fun _ => hroot⟩
  · have hne := ne_nil_of_checkMaterial hallocates.checked
    have hmoved := hswapped.published.moved hkeeps hoccupied hgood hne
    refine ⟨hmoved.1, .swapped (shown_eq_generation hswapped.active ?_) hmoved.2.2, fun hno => ?_⟩
    · exact hmoved.2.1 _ Disk.mem_views_root
    · obtain ⟨e, he, hswaps⟩ := hswapped.swapped
      exact absurd hswaps (hno e he)

end Calls

end DeployCore
