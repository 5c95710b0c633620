import DeployCore.GenerationCall

/-! # Runs over a trust tree

A run is a sequence of calls, each of which may return, fail or crash at any of its steps, with power losses
anywhere between. As long as no call allocates an index while the last one is in use, the active link never
names anything but a complete generation that a validator accepted (`run_sound`). An index past the last one
wraps around to `0`, and `gen-0` may be there (`run_not_sound`). -/

namespace DeployCore
open Directory Crash

/-- A call that was made: what it was given, what it found, what it did and what it left. -/
structure Call (ε : Type) where
  tree : GenerationTree
  host : Host ε
  material : List GenerationFile
  before : Disk
  events : List (EngineEvent ε)
  outcome : Outcome ε Activation
  after : Disk

/-- The runs that begin at `start`. A call that crashes leaves the rest of its program undone; a power loss
while it runs is its crash and the power loss behind it. -/
inductive Run {ε : Type} [FromGenerationError ε] (start : Disk) : List (Call ε) → Disk → Prop
  | start : Run start [] start
  | call {calls} (c : Call ε) (h : Run start calls c.before)
      (hruns : Runs (device c.host) (activateGeneration c.tree c.material) ⟨c.before, []⟩ c.outcome
        ⟨c.after, c.events⟩) :
      Run start (calls ++ [c]) c.after
  | powerLoss {calls d d'} (h : Run start calls d) (hloss : d.PowerLoss d') : Run start calls d'

variable {ε : Type}

/-- There is no active link, whatever state of the root the disk holds. -/
def Disk.NoActiveLink (d : Disk) : Prop :=
  ∀ view ∈ d.views, ∀ target, find view ACTIVE_LINK ≠ some (.link target)

/-- The validator of the call accepted its material. -/
def Call.Accepted (c : Call ε) : Prop := ∃ e ∈ c.events, Accepts c.material e

/-- What an active link names is a generation directory that holds exactly the material of a call, which the
call's validator accepted. -/
def Serves (calls : List (Call ε)) (d : Disk) : Prop :=
  ∀ target, find d.root ACTIVE_LINK = some (.link target) →
    ∃ c ∈ calls, c.Accepted ∧ (∃ generation, target = generationName generation) ∧
      find d.root target = some (generationNode c.material)

/-- Unless the call swapped the link, the link and what it names are what they were. -/
def Call.KeepsActive (c : Call ε) : Prop :=
  (∀ e ∈ c.events, ¬Swaps e) → find c.after.root ACTIVE_LINK = find c.before.root ACTIVE_LINK ∧
    ∀ target, find c.before.root ACTIVE_LINK = some (.link target) →
      find c.after.root target = find c.before.root target

/-- A call that returns a change leaves one generation, the active one, no staging directory, and every name
that is not the engine's as it was. -/
def Call.LeavesOne (c : Call ε) : Prop :=
  ∀ generation, c.outcome = .ok ⟨generation, true⟩ →
    find c.after.root ACTIVE_LINK = some (.link (generationName generation)) ∧
    find c.after.root (generationName generation) = some (generationNode c.material) ∧
    (∀ other, other ≠ generation → find c.after.root (generationName other) = none) ∧
    (∀ other, find c.after.root (tmpGenerationName other) = none) ∧
    ∀ name, SLASH ∉ name → name ≠ ACTIVE_LINK → name ≠ ACTIVE_TMP → (∀ other, name ≠ generationName other) →
      (∀ other, name ≠ tmpGenerationName other) → find c.after.root name = find c.before.root name

/-- No generation is finalised under a name that is in use. -/
def Call.Fresh (c : Call ε) : Prop :=
  ∀ e ∈ c.events, ∀ source generation, e.op = .fs (.rename source (generationName generation)) →
    find e.before.root (generationName generation) = none

/-- If the call gets to allocate an index, the last one is not in use. -/
def Call.HasRoom (c : Call ε) : Prop := Allocates c.host c.before c.material → c.before.HasRoom

/-- The invariant of the runs: in every state the disk may hold, an active link names a generation that is
complete in all of them. -/
def Live (calls : List (Call ε)) (d : Disk) : Prop :=
  ∀ view ∈ d.views, ∀ target, find view ACTIVE_LINK = some (.link target) →
    ∃ c ∈ calls, c.Accepted ∧ (∃ generation, target = generationName generation) ∧
      ∀ view' ∈ d.views, find view' target = some (generationNode c.material)

variable {calls calls' : List (Call ε)} {d d' : Disk} {c : Call ε}

theorem Live.serves (h : Live calls d) : Serves calls d := fun target htarget => by
  obtain ⟨c, hc, haccepted, hname, hviews⟩ := h d.root Disk.mem_views_root target htarget
  exact ⟨c, hc, haccepted, hname, hviews d.root Disk.mem_views_root⟩

theorem Live.mono (h : Live calls d) (hsub : calls ⊆ calls') : Live calls' d := fun view hview target htarget => by
  obtain ⟨c, hc, hrest⟩ := h view hview target htarget
  exact ⟨c, hsub hc, hrest⟩

theorem settled_generationNode {material : List GenerationFile} : (generationNode material).Settled := by
  refine .dir fun entry hentry => ?_
  obtain ⟨file, -, rfl⟩ := List.mem_map.mp hentry
  exact .file

/-- What a power loss shows under a name that is settled in every state the disk may hold. -/
theorem Disk.PowerLoss.find_eq {name : Bytes} {node : Node} (h : d.PowerLoss d') (hnode : node.Settled)
    (hviews : ∀ view ∈ d.views, find view name = some node) : find d'.root name = some node := by
  obtain ⟨view, hview, hrel⟩ := h.entry name
  rw [hviews view hview] at hrel
  cases hfind : find d'.root name with
  | none => rw [hfind] at hrel; cases hrel
  | some node' =>
    rw [hfind] at hrel
    cases hrel with
    | some hsurvives => rw [hsurvives.eq hnode]

theorem Live.powerLoss (h : Live calls d) (hloss : d.PowerLoss d') : Live calls d' := by
  have hviews : d'.views = [d'.root] := by rw [Disk.views, hloss.flushed]
  intro view' hview' target htarget
  rw [hviews, List.mem_singleton] at hview'
  subst hview'
  obtain ⟨view, hview, hrel⟩ := hloss.entry ACTIVE_LINK
  rw [htarget] at hrel
  cases hfind : find view ACTIVE_LINK with
  | none => rw [hfind] at hrel; cases hrel
  | some node =>
    rw [hfind] at hrel
    cases hrel with
    | some hsurvives =>
      have hnode : node = .link target := by cases hsurvives; rfl
      obtain ⟨c, hc, haccepted, hname, hall⟩ := h view hview target (hfind.trans (by rw [hnode]))
      refine ⟨c, hc, haccepted, hname, fun view' hview' => ?_⟩
      rw [hviews, List.mem_singleton] at hview'
      subst hview'
      exact hloss.find_eq settled_generationNode hall

/-- The names a call works under are not those of an active generation. -/
theorem Live.not_mem_scratch {view : Entries} {target : Bytes} (h : Live calls d)
    (hfresh : find d.root (generationName d.nextIndex) = none) (hview : view ∈ d.views)
    (htarget : find view ACTIVE_LINK = some (.link target)) : target ∉ d.scratch ∧ target ≠ ACTIVE_LINK := by
  obtain ⟨c, -, -, ⟨generation, rfl⟩, hall⟩ := h view hview target htarget
  refine ⟨?_, generationName_ne_active⟩
  rintro (heq | heq | heq)
  · exact tmpGenerationName_ne_generationName heq.symm
  · have hroot := hall d.root Disk.mem_views_root
    rw [heq, hfresh] at hroot
    cases hroot
  · exact generationName_ne_activeTmp heq

theorem Live.frame (h : Live calls d) (hfresh : find d.root (generationName d.nextIndex) = none)
    (hframe : d.Frame d.scratch d') : Live calls d' := by
  intro view' hview' target htarget
  obtain ⟨view, hview, hsame⟩ := hframe.views view' hview'
  rw [hsame _ Disk.active_not_mem_scratch] at htarget
  have hscratch := (h.not_mem_scratch hfresh hview htarget).1
  obtain ⟨c, hc, haccepted, hname, hall⟩ := h view hview target htarget
  refine ⟨c, hc, haccepted, hname, fun other' hother' => ?_⟩
  obtain ⟨other, hother, hsame'⟩ := hframe.views other' hother'
  rw [hsame' _ hscratch]
  exact hall other hother

theorem Live.published (h : Live calls c.before)
    (hfresh : find c.before.root (generationName c.before.nextIndex) = none) (haccepted : c.Accepted)
    (hpublished : c.before.Published c.material c.after) : Live (calls ++ [c]) c.after := by
  have hmem : c ∈ calls ++ [c] := List.mem_append_right _ (List.mem_singleton.mpr rfl)
  rcases hpublished with hswapping | hshows
  · intro view hview target htarget
    obtain ⟨-, view₀, hview₀, -, hactive⟩ := hswapping view hview
    rcases hactive with hold | hnew
    · -- the swap is not in this state yet
      rw [hold] at htarget
      obtain ⟨hscratch, hne⟩ := h.not_mem_scratch hfresh hview₀ htarget
      obtain ⟨c', hc', haccepted', hname, hall⟩ := h view₀ hview₀ target htarget
      refine ⟨c', List.mem_append_left _ hc', haccepted', hname, fun other hother => ?_⟩
      obtain ⟨-, other₀, hother₀, hothers, -⟩ := hswapping other hother
      rw [hothers target hscratch hne]
      exact hall other₀ hother₀
    · rw [hnew] at htarget
      cases htarget
      exact ⟨c, hmem, haccepted, ⟨_, rfl⟩, fun other hother => (hswapping other hother).1⟩
  · intro view hview target htarget
    rw [(hshows view hview).1] at htarget
    cases htarget
    exact ⟨c, hmem, haccepted, ⟨_, rfl⟩, fun other hother => (hshows other hother).2⟩

section Calls
variable [FromGenerationError ε]

/-- The disk a call leaves and what it recorded. -/
abbrev Call.scene (c : Call ε) : Scene ε := ⟨c.after, c.events⟩

def Call.Went (c : Call ε) : Prop :=
  Runs (device c.host) (activateGeneration c.tree c.material) ⟨c.before, []⟩ c.outcome c.scene

theorem Call.Went.stops (h : c.Went) : Looked c.before c.scene ∨
    (Allocates c.host c.before c.material ∧ Unfinished c.before c.material c.scene) :=
  (Runs.of_wp h activateGeneration_call).1

theorem Call.Went.live (h : c.Went) (hlive : Live calls c.before) (hroom : c.HasRoom) :
    Live (calls ++ [c]) c.after := by
  have hsub : calls ⊆ calls ++ [c] := List.subset_append_left _ _
  rcases h.stops with hlooked | ⟨hallocates, hunswapped | hswapped⟩
  · rw [show c.after = c.before from hlooked.state]
    exact hlive.mono hsub
  · exact (hlive.frame (hroom hallocates).find_nextIndex hunswapped.frame).mono hsub
  · exact hlive.published (hroom hallocates).find_nextIndex hswapped.accepted hswapped.published

theorem Call.Went.keepsActive (h : c.Went) (hlive : Live calls c.before) (hroom : c.HasRoom) : c.KeepsActive := by
  intro hno
  rcases h.stops with hlooked | ⟨hallocates, hunswapped | hswapped⟩
  · rw [show c.after = c.before from hlooked.state]
    exact ⟨rfl, fun _ _ => rfl⟩
  · refine ⟨hunswapped.frame.root _ Disk.active_not_mem_scratch, fun target htarget => ?_⟩
    have hfresh := (hroom hallocates).find_nextIndex
    exact hunswapped.frame.root _ (hlive.not_mem_scratch hfresh Disk.mem_views_root htarget).1
  · obtain ⟨e, he, hswaps⟩ := hswapped.swapped
    exact absurd hswaps (hno e he)

theorem not_mem_owned {d₀ : Disk} {name : Bytes} (hslash : SLASH ∉ name) (hactive : name ≠ ACTIVE_LINK)
    (htmp : name ≠ ACTIVE_TMP) (hgen : ∀ other, name ≠ generationName other)
    (htmpgen : ∀ other, name ≠ tmpGenerationName other) : name ∉ d₀.owned := by
  rintro (((heq | heq | heq) | heq) | hprune | hprune)
  · exact htmpgen _ heq
  · exact hgen _ heq
  · exact htmp heq
  · exact hactive heq
  · obtain ⟨other, hother⟩ := Option.isSome_iff_exists.mp hprune
    exact htmpgen other ((parseTmpGeneration_iff hslash).mp hother)
  · cases hparse : parseGeneration name with
    | none => simp [hparse] at hprune
    | some other => exact hgen other ((parseGeneration_iff hslash).mp hparse)

theorem Call.Went.leavesOne (h : c.Went) : c.LeavesOne := by
  intro generation hok
  rcases (Runs.of_wp h activateGeneration_call).2 _ hok with ⟨hchanged, -⟩ | ⟨hact, -, -, hinstalled⟩
  · cases hchanged
  cases hact
  obtain ⟨hactive, hgen⟩ := hinstalled.shows c.after.root Disk.mem_views_root
  refine ⟨hactive, hgen, fun other hne => hinstalled.pruned _ (.inr ?_), fun other => hinstalled.pruned _ (.inl ?_),
    fun name hslash hactive htmp hgen htmpgen => hinstalled.others name (not_mem_owned hslash hactive htmp hgen htmpgen)⟩
  · rw [parseGeneration_generationName]
    simpa using hne
  · rw [parseTmpGeneration_tmpGenerationName]
    rfl

theorem Call.Went.fresh (h : c.Went) (hroom : c.HasRoom) : c.Fresh := by
  have hproper : ∀ e ∈ c.events, Proper c.before c.material e →
      Allocates c.host c.before c.material → ∀ source generation,
        e.op = .fs (.rename source (generationName generation)) →
        find e.before.root (generationName generation) = none := by
    intro e _ hproper hallocates source generation hop
    unfold Proper at hproper
    rw [hop] at hproper
    rcases hproper with ⟨-, heq⟩ | ⟨-, heq, hfind⟩
    · exact absurd heq generationName_ne_active
    · rw [hfind, heq]
      exact (hroom hallocates).find_nextIndex
  intro e he source generation hop
  rcases h.stops with hlooked | ⟨hallocates, hunswapped | hswapped⟩
  · have hlooks := hlooked.looks e he
    rw [hop] at hlooks
    exact hlooks.elim
  · exact hproper e he (hunswapped.proper e he) hallocates source generation hop
  · exact hproper e he (hswapped.proper e he) hallocates source generation hop

variable {start : Disk}

theorem Run.live (hrun : Run start calls d) (hstart : start.NoActiveLink) (hroom : ∀ c ∈ calls, c.HasRoom) :
    Live calls d := by
  induction hrun with
  | start => exact fun view hview target htarget => absurd htarget (hstart view hview target)
  | call c h hruns ih =>
    have hcalls := fun c' hc' => hroom c' (List.mem_append_left _ hc')
    exact Call.Went.live hruns (ih hcalls) (hroom c (List.mem_append_right _ (List.mem_singleton.mpr rfl)))
  | powerLoss h hloss ih => exact (ih hroom).powerLoss hloss

theorem Run.calls_sound (hrun : Run start calls d) (hstart : start.NoActiveLink) (hroom : ∀ c ∈ calls, c.HasRoom) :
    ∀ c ∈ calls, c.KeepsActive ∧ c.LeavesOne ∧ c.Fresh := by
  induction hrun with
  | start => exact fun c hc => absurd hc List.not_mem_nil
  | call c h hruns ih =>
    have hcalls := fun c' hc' => hroom c' (List.mem_append_left _ hc')
    have hroom := hroom c (List.mem_append_right _ (List.mem_singleton.mpr rfl))
    intro c' hc'
    rcases List.mem_append.mp hc' with hc' | hc'
    · exact ih hcalls c' hc'
    · cases List.mem_singleton.mp hc'
      exact ⟨Call.Went.keepsActive hruns (h.live hstart hcalls) hroom, Call.Went.leavesOne hruns,
        Call.Went.fresh hruns hroom⟩
  | powerLoss h hloss ih => exact ih hroom

/-- In every run whose calls never allocate an index while the last one is in use, the active link names at
every point a complete accepted generation, and every call keeps its promises. -/
theorem run_sound (hrun : Run start calls d) (hstart : start.NoActiveLink) (hroom : ∀ c ∈ calls, c.HasRoom) :
    Serves calls d ∧ ∀ c ∈ calls, c.KeepsActive ∧ c.LeavesOne ∧ c.Fresh :=
  ⟨(hrun.live hstart hroom).serves, hrun.calls_sound hstart hroom⟩

end Calls

/-! ## Runs on a small tree -/

instance : FromGenerationError GenerationError := ⟨id⟩

/-- A host whose validator accepts everything. -/
def sampleHost : Host GenerationError := ⟨fun _ _ => .ok (), fun _ => .error "", fun _ => .error .notFound⟩

def sampleTree : GenerationTree := ⟨asBytes "/t", none⟩

/-- A call in which every operation is carried out. -/
def wholeCall (material : List GenerationFile) (before : Disk) : Call GenerationError :=
  let run := (activateGeneration sampleTree material).eval (device sampleHost) ⟨before, []⟩
  ⟨sampleTree, sampleHost, material, before, run.2.events, run.1, run.2.state⟩

/-- A call that crashes behind its first operations. -/
def crashedCall (operations : Nat) (material : List GenerationFile) (before : Disk) : Call GenerationError :=
  let run := (activateGeneration sampleTree material).crashAfter (device sampleHost) operations ⟨before, []⟩
  ⟨sampleTree, sampleHost, material, before, run.events, .crashed, run.state⟩

theorem wholeCall_went {material : List GenerationFile} {before : Disk} : (wholeCall material before).Went :=
  Prog.runs_eval _ _

theorem crashedCall_went {operations : Nat} {material : List GenerationFile} {before : Disk} :
    (crashedCall operations material before).Went :=
  Prog.runs_crashAfter _ _ _

def firstMaterial : List GenerationFile := [⟨asBytes "one", [1]⟩]
def secondMaterial : List GenerationFile := [⟨asBytes "one", [2]⟩]

theorem run_sound_first_call :
    (wholeCall firstMaterial ⟨[], []⟩).outcome = .ok ⟨1, true⟩ ∧
      Serves [wholeCall firstMaterial ⟨[], []⟩] (wholeCall firstMaterial ⟨[], []⟩).after ∧
      ∀ c ∈ [wholeCall firstMaterial ⟨[], []⟩], c.KeepsActive ∧ c.LeavesOne ∧ c.Fresh := by
  have hrun : Run ⟨[], []⟩ [wholeCall firstMaterial ⟨[], []⟩] (wholeCall firstMaterial ⟨[], []⟩).after :=
    .call _ .start wholeCall_went
  refine ⟨rfl, run_sound hrun ?_ ?_⟩
  · intro view hview target htarget
    cases List.mem_singleton.mp hview
    cases htarget
  · intro c hc _ name hname
    cases List.mem_singleton.mp hc
    exact absurd hname List.not_mem_nil

/-- A root whose highest index is the last but one, beside an empty `gen-0`. -/
def lastButOne : Disk :=
  ⟨[(generationName 0, .dir [] true), (generationName 18446744073709551614, .dir [] true)], []⟩

/-- The first call crashes behind the swap to the last index. The second one wraps around to `0`, and its rename
replaces the empty `gen-0`. -/
theorem run_not_sound : ¬∀ (start : Disk) (calls : List (Call GenerationError)) (d : Disk), Run start calls d →
    start.NoActiveLink → start.HasRoom → Serves calls d ∧ ∀ c ∈ calls, c.KeepsActive ∧ c.LeavesOne ∧ c.Fresh := by
  intro h
  let first := crashedCall 18 firstMaterial lastButOne
  let second := wholeCall secondMaterial first.after
  have hrun : Run lastButOne [first, second] second.after :=
    .call second (.call first .start crashedCall_went) wholeCall_went
  have hactive : lastButOne.NoActiveLink := by
    intro view hview target htarget
    cases List.mem_singleton.mp hview
    have hmem : ACTIVE_LINK ∈ names lastButOne.root := mem_names.mpr (by simp [htarget])
    exact absurd hmem (by decide +kernel)
  have hroom : lastButOne.HasRoom := by
    unfold Disk.HasRoom
    decide +kernel
  obtain ⟨-, -, hfresh⟩ := (h _ _ _ hrun hactive hroom).2 second (by simp)
  have hrename : second.events[15]?.map (fun e => (e.op, (find e.before.root (generationName 0)).isSome)) =
      some (.fs (.rename (tmpGenerationName 0) (generationName 0)), true) := by decide +kernel
  obtain ⟨e, he, hpair⟩ := Option.map_eq_some_iff.mp hrename
  obtain ⟨hop, hused⟩ := Prod.mk.inj hpair
  have hnone := hfresh e (List.mem_of_getElem? he) _ _ hop
  rw [hnone] at hused
  cases hused

end DeployCore
