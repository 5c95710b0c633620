import DeployCore.ReleaseInstall
import DeployCore.ReleaseRun

/-! # What holds over every run of a release-trust tree

Whatever the doors are called with, and wherever they stop, what is active is a generation that the reader accepts
(`active_readable`). As long as none of them replaces a generation, none records an epoch below one that was
recorded, nor does a power loss take back an epoch that was reported (`no_rollback`). -/

namespace DeployCore
open Directory Crash

/-- The call is what a door does that admits one generation. -/
def TrustCall.Admits (platform : Platform) (c : TrustCall) : Prop :=
  ∃ out, c.outcome = Outcome.single out ∧
    DeployCore.Admits platform (c.door.Admissible (recordedEpoch c.before.root)) c.before ⟨c.after, c.events⟩ out

section Calls
variable {platform : Platform} {c : TrustCall} {calls steps : List TrustCall} {start d d' : Disk}

theorem TrustCall.admits (hkeeps : c.before.Keeps platform.Good) (hwent : c.Went platform) (hsingle : ¬c.door.IsChain) :
    c.Admits platform := by
  obtain ⟨door, root, surroundings, before, events, outcome, after⟩ := c
  cases door with
  | chain packages => exact absurd trivial hsingle
  | accept package =>
    obtain ⟨out, hruns, hout⟩ := runs_mapEnd.mp hwent
    exact ⟨out, hout, acceptGeneration_admits hkeeps hruns⟩
  | rebootstrap package assertedEpoch pin =>
    obtain ⟨out, hruns, hout⟩ := runs_mapEnd.mp hwent
    exact ⟨out, hout, rebootstrapGeneration_admits hkeeps hruns⟩
  | seed package =>
    obtain ⟨out, hruns, hout⟩ := runs_mapEnd.mp hwent
    exact ⟨out, hout, admitOntoEmptyTree_admits hkeeps (show Prog.GivesUp _ _ (pure package) from trivial) hruns⟩
  | bootstrap pin =>
    obtain ⟨out, hruns, hout⟩ := runs_mapEnd.mp hwent
    exact ⟨out, hout, admitOntoEmptyTree_admits hkeeps givesUp_readJoinGeneration hruns⟩
  | replace package =>
    obtain ⟨out, hruns, hout⟩ := runs_mapEnd.mp hwent
    exact ⟨out, hout, replaceGeneration_admits hkeeps hruns⟩

/-- A call consists of calls to doors that admit one generation each. -/
theorem TrustCall.ConsistsOf.forall (h : c.ConsistsOf platform steps) (hwent : c.Went platform) :
    Linked c.before steps c.after ∧ ∀ s ∈ steps, s.Went platform ∧ ¬s.door.IsChain ∧ (s.door.IsReplace → c.door.IsReplace) := by
  cases hdoor : c.door with
  | chain packages =>
    rw [TrustCall.ConsistsOf, hdoor] at h
    refine ⟨h.linked, fun s hs => ?_⟩
    obtain ⟨package, -, hpackage⟩ := List.mem_map.mp (h.doors.subset (List.mem_map_of_mem hs))
    rw [← hpackage]
    exact ⟨(h.went s hs).1, id, False.elim⟩
  | accept | rebootstrap | seed | bootstrap | replace =>
    rw [TrustCall.ConsistsOf, hdoor] at h
    dsimp only at h
    subst h
    refine ⟨.singleton, List.forall_mem_singleton.mpr ⟨hwent, ?_⟩⟩
    rw [hdoor]
    exact ⟨id, id⟩

/-! ### What is kept -/

theorem Linked.keeps (h : Linked d steps d') (hwent : ∀ s ∈ steps, s.Went platform ∧ ¬s.door.IsChain)
    (hkeeps : d.Keeps platform.Good) : d'.Keeps platform.Good := by
  induction h with
  | nil => exact hkeeps
  | cons _ ih =>
    obtain ⟨⟨hc, hsingle⟩, hrest⟩ := List.forall_mem_cons.mp hwent
    obtain ⟨_, -, hadmits⟩ := TrustCall.admits hkeeps hc hsingle
    exact ih hrest hadmits.keeps

theorem generationName_not_mem_operatorNames {generation : UInt64} : generationName generation ∉ operatorNames := by
  have hparse := @parseGeneration_generationName generation
  rintro (hname | hname)
  · rw [hname, show parseGeneration REQUIRE_TRUST_PIN_MARKER = none from rfl] at hparse
    cases hparse
  · rw [hname, show parseGeneration JOIN_GENERATION_FILE = none from rfl] at hparse
    cases hparse

theorem active_not_mem_operatorNames : ACTIVE_LINK ∉ operatorNames := by
  rintro (hname | hname)
  · exact absurd hname (by decide)
  · exact absurd hname (by decide)

theorem Disk.Keeps.operator (h : d.Keeps platform.Good) (hset : d.Frame operatorNames d') :
    d'.Keeps platform.Good ∧ recordedEpoch d'.root = recordedEpoch d.root ∧
      ∀ view' ∈ d'.views, ∃ view ∈ d.views, recordedEpoch view' = recordedEpoch view := by
  obtain ⟨hkeeps, hroot, hviews⟩ := h.frame hset active_not_mem_operatorNames fun _ _ _ _ =>
    generationName_not_mem_operatorNames
  refine ⟨hkeeps, recordedEpoch_congr hroot, fun view' hview' => ?_⟩
  obtain ⟨view, hview, hsame⟩ := hviews view' hview'
  exact ⟨view, hview, recordedEpoch_congr hsame⟩

/-- The invariant of the runs. -/
theorem TrustRun.keeps (hrun : TrustRun platform start calls d) (hstart : start.NothingActive) :
    d.Keeps platform.Good := by
  induction hrun with
  | start => exact fun view hview node hnode => nomatch (hstart view hview).symm.trans hnode
  | call c h hwent ih =>
    obtain ⟨steps, hsteps⟩ := TrustCall.consistsOf hwent
    obtain ⟨hlinked, hforall⟩ := hsteps.forall hwent
    exact hlinked.keeps (fun s hs => ⟨(hforall s hs).1, (hforall s hs).2.1⟩) ih
  | operator h hset ih => exact (ih.operator hset).1
  | powerLoss h hloss ih => exact (ih.powerLoss hloss).1

/-! ### What is recorded -/

/-- The call reports that it changed what is active, to this epoch. -/
def TrustCall.ReportsChange (c : TrustCall) (epoch : UInt64) : Prop :=
  ∃ admitted, c.outcome = .ok (.admitted admitted) ∧ admitted.activation.changed = true ∧ admitted.epoch = epoch

/-- What a run has recorded: no state that the disk may hold is above the root, and none is below an epoch that a
call reported. -/
structure Ledger (platform : Platform) (done : List TrustCall) (d : Disk) : Prop where
  keeps : d.Keeps platform.Good
  newest : ∀ view ∈ d.views, AtMost (recordedEpoch view) (recordedEpoch d.root)
  floors : ∀ s ∈ done, ∀ epoch, s.ReportsChange epoch → ∀ view ∈ d.views, AtMost (some epoch) (recordedEpoch view)

theorem AtMost.refl {recorded : Option UInt64} : AtMost recorded recorded := fun epoch h => ⟨epoch, h, UInt64.le_refl epoch⟩

theorem AtMost.trans {a b c : Option UInt64} (h : AtMost a b) (h' : AtMost b c) : AtMost a c := by
  intro epoch ha
  obtain ⟨_, hb, hle⟩ := h epoch ha
  obtain ⟨epoch'', hc, hle'⟩ := h' _ hb
  exact ⟨epoch'', hc, UInt64.le_trans hle hle'⟩

/-- Every epoch that is recorded is below this one. -/
theorem atMost_some {recorded : Option UInt64} {epoch : UInt64} (h : ∀ recorded', recorded = some recorded' → recorded' < epoch) :
    AtMost recorded (some epoch) := fun recorded' hrecorded => ⟨epoch, rfl, UInt64.le_of_lt (h recorded' hrecorded)⟩

/-- Where no generation is replaced, what is admitted is above what is recorded. -/
theorem TrustDoor.Admissible.lt {door : TrustDoor} {recorded : Option UInt64} {epoch : UInt64}
    (h : door.Admissible recorded epoch) (hreplace : ¬door.IsReplace) : ∀ recorded', recorded = some recorded' → recorded' < epoch := by
  rintro recorded' rfl
  cases door with
  | seed | bootstrap => cases h
  | replace => exact absurd trivial hreplace
  | accept | chain | rebootstrap =>
    obtain ⟨_, hrecorded, hlt⟩ := h
    cases hrecorded
    exact hlt

theorem Ledger.step {done : List TrustCall} (h : Ledger platform done c.before) (hadmits : c.Admits platform)
    (hreplace : ¬c.door.IsReplace) : Ledger platform (done ++ [c]) c.after := by
  obtain ⟨out, hout, hadmits⟩ := hadmits
  have hreported : ∀ epoch, c.ReportsChange epoch → ∀ view ∈ c.after.views, recordedEpoch view = some epoch := by
    rintro epoch ⟨admitted, hok, hchanged, rfl⟩
    rw [hout] at hok
    cases out with
    | error | crashed => cases hok
    | ok admitted' =>
      cases hok
      rcases hadmits.report _ rfl with ⟨hunchanged, -⟩ | ⟨-, -, hviews⟩
      · cases hchanged.symm.trans hunchanged
      · exact hviews
  have hstep : (∀ view ∈ c.after.views, AtMost (recordedEpoch view) (recordedEpoch c.after.root)) ∧
      ∀ s ∈ done, ∀ epoch, s.ReportsChange epoch → ∀ view ∈ c.after.views, AtMost (some epoch) (recordedEpoch view) := by
    rcases hadmits.step with ⟨hroot, hviews⟩ | ⟨new, hnew, hroot, hviews⟩
    · refine ⟨fun view hview => ?_, fun s hs epoch hepoch view hview => ?_⟩
      · obtain ⟨old, hold, hsame⟩ := hviews view hview
        rw [hsame, hroot]
        exact h.newest old hold
      · obtain ⟨old, hold, hsame⟩ := hviews view hview
        rw [hsame]
        exact h.floors s hs epoch hepoch old hold
    · have hrises : AtMost (recordedEpoch c.before.root) (some new) := atMost_some (hnew.lt hreplace)
      refine ⟨fun view hview => ?_, fun s hs epoch hepoch view hview => ?_⟩
      · rw [hroot]
        rcases hviews view hview with hsame | ⟨old, hold, hsame⟩
        · rw [hsame]
          exact .refl
        · rw [hsame]
          exact (h.newest old hold).trans hrises
      · rcases hviews view hview with hsame | ⟨old, hold, hsame⟩
        · rw [hsame]
          exact (h.floors s hs epoch hepoch _ Disk.mem_views_root).trans hrises
        · rw [hsame]
          exact h.floors s hs epoch hepoch old hold
  refine ⟨hadmits.keeps, hstep.1, fun s hs epoch hepoch view hview => ?_⟩
  rcases List.mem_append.mp hs with hs | hs
  · exact hstep.2 s hs epoch hepoch view hview
  · cases List.mem_singleton.mp hs
    rw [hreported epoch hepoch view hview]
    exact .refl

theorem Ledger.views {done : List TrustCall} (h : Ledger platform done d) (hkeeps : d'.Keeps platform.Good)
    (hroot : ∀ view ∈ d'.views, AtMost (recordedEpoch view) (recordedEpoch d'.root))
    (hviews : ∀ view' ∈ d'.views, ∃ view ∈ d.views, recordedEpoch view' = recordedEpoch view) :
    Ledger platform done d' := by
  refine ⟨hkeeps, hroot, fun s hs epoch hepoch view hview => ?_⟩
  obtain ⟨old, hold, hsame⟩ := hviews view hview
  rw [hsame]
  exact h.floors s hs epoch hepoch old hold

theorem Ledger.operator {done : List TrustCall} (h : Ledger platform done d) (hset : d.Frame operatorNames d') :
    Ledger platform done d' := by
  obtain ⟨hkeeps, hroot, hviews⟩ := h.keeps.operator hset
  refine h.views hkeeps (fun view hview => ?_) hviews
  obtain ⟨old, hold, hsame⟩ := hviews view hview
  rw [hsame, hroot]
  exact h.newest old hold

theorem Ledger.powerLoss {done : List TrustCall} (h : Ledger platform done d) (hloss : d.PowerLoss d') :
    Ledger platform done d' := by
  obtain ⟨hkeeps, hviews, view, hview, hsame⟩ := h.keeps.powerLoss hloss
  refine h.views hkeeps (fun view' hview' => ?_) fun view' hview' => ?_
  · rw [hviews, List.mem_singleton] at hview'
    rw [hview']
    exact .refl
  · rw [hviews, List.mem_singleton] at hview'
    exact ⟨view, hview, by rw [hview', recordedEpoch_congr hsame]⟩

theorem Linked.ledger {done : List TrustCall} (h : Linked d steps d') (hledger : Ledger platform done d)
    (hsteps : ∀ s ∈ steps, s.Went platform ∧ ¬s.door.IsChain ∧ ¬s.door.IsReplace) :
    Ledger platform (done ++ steps) d' ∧ ∀ s ∈ steps, s.before.Keeps platform.Good := by
  induction h generalizing done with
  | nil => exact ⟨(List.append_nil done).symm ▸ hledger, fun _ hs => absurd hs List.not_mem_nil⟩
  | @cons c rest d _ ih =>
    obtain ⟨⟨hwent, hsingle, hreplace⟩, hrest⟩ := List.forall_mem_cons.mp hsteps
    have hstep := hledger.step (TrustCall.admits hledger.keeps hwent hsingle) hreplace
    obtain ⟨hend, hkeeps⟩ := ih hstep hrest
    rw [List.append_assoc, List.singleton_append] at hend
    exact ⟨hend, List.forall_mem_cons.mpr ⟨hledger.keeps, hkeeps⟩⟩

/-- What a call keeps of what is recorded. -/
structure TrustCall.KeepsRecord (platform : Platform) (c : TrustCall) : Prop where
  /-- The recorded epoch does not fall. -/
  rises : AtMost (recordedEpoch c.before.root) (recordedEpoch c.after.root)
  /-- It changes at a swap of the active link only, and to a higher one. -/
  swapped : recordedEpoch c.after.root ≠ recordedEpoch c.before.root → (∃ e ∈ c.events, SwapsActive e) ∧
    ∃ epoch, recordedEpoch c.after.root = some epoch ∧ ∀ recorded, recordedEpoch c.before.root = some recorded → recorded < epoch
  /-- A call that returns reports a change when it recorded a higher epoch, and otherwise changed nothing. -/
  report : ∀ admitted, c.outcome = .ok (.admitted admitted) → recordedEpoch c.after.root = some admitted.epoch ∧
    if admitted.activation.changed then ∀ recorded, recordedEpoch c.before.root = some recorded → recorded < admitted.epoch
    else c.after = c.before
  /-- A call that does not get to install leaves the tree exactly as it was. -/
  refused : (∀ e ∈ c.events, e.op.IsLook) → c.after = c.before
  /-- A rebootstrap is of the recorded epoch to a higher one, under the pin that the marker requires. -/
  rebootstrap : ∀ package assertedEpoch pin, c.door = .rebootstrap package assertedEpoch pin →
    ∀ admitted, c.outcome = .ok (.admitted admitted) →
      recordedEpoch c.before.root = some assertedEpoch ∧ assertedEpoch < admitted.epoch ∧
      ∃ member, platform.extractMember package = .ok member ∧
        readTrustSetDocument platform.lib member = .ok admitted.document ∧ admitted.document.epoch = admitted.epoch ∧
        ((find c.before.root REQUIRE_TRUST_PIN_MARKER).isSome → pin = some (memberDigest platform.lib member))

theorem rebootstrapGeneration_ok {surroundings : Surroundings} {root package : Bytes} {assertedEpoch : UInt64}
    {pin : Option String} {admitted : AdmittedGeneration} {w : World TrustOp TrustOp.Result Disk}
    (hkeeps : d.Keeps platform.Good)
    (h : Runs (trustDevice platform surroundings) (rebootstrapGeneration platform.lib root package assertedEpoch pin)
      ⟨d, []⟩ (.ok admitted) w) :
    recordedEpoch d.root = some assertedEpoch ∧ assertedEpoch < admitted.epoch ∧
      ∃ member, platform.extractMember package = .ok member ∧
        readTrustSetDocument platform.lib member = .ok admitted.document ∧ admitted.document.epoch = admitted.epoch ∧
        ((find d.root REQUIRE_TRUST_PIN_MARKER).isSome → pin = some (memberDigest platform.lib member)) := by
  rcases runs_judged givesUp_judgeRebootstrap h with ⟨-, hnone, -⟩ | ⟨verified, w₁, -, hvalue, hrest⟩
  · exact absurd rfl (hnone admitted)
  obtain ⟨hrecorded, ⟨hcarries, hepoch⟩, hlt, hpin, hmarker⟩ := judgeRebootstrap_ok hvalue
  rw [hkeeps.readActiveEpoch] at hrecorded
  obtain ⟨c, -, hout, -⟩ := runs_installVerified hrest
  obtain ⟨-, hadmitted, hdocument⟩ := hout admitted rfl
  rw [hadmitted, hdocument]
  refine ⟨Except.ok.inj hrecorded, hlt, verified.member, hcarries.extracted, hcarries.read, hepoch.symm, fun hset => ?_⟩
  obtain ⟨pin', hpin'⟩ := Option.isSome_iff_exists.mp (hmarker hset)
  rw [hpin', hpin pin' hpin']

/-- Every call of a door that replaces no generation keeps what is recorded. -/
theorem TrustCall.keepsRecord (hkeeps : c.before.Keeps platform.Good) (hwent : c.Went platform)
    (hsingle : ¬c.door.IsChain) (hreplace : ¬c.door.IsReplace) : c.KeepsRecord platform := by
  obtain ⟨out, hout, hadmits⟩ := TrustCall.admits hkeeps hwent hsingle
  have hlt : ∀ epoch, c.door.Admissible (recordedEpoch c.before.root) epoch →
      ∀ recorded, recordedEpoch c.before.root = some recorded → recorded < epoch := fun epoch h => h.lt hreplace
  refine ⟨?_, fun hne => ⟨?_, ?_⟩, fun admitted hok => ?_, hadmits.refused, fun package assertedEpoch pin hdoor admitted hok => ?_⟩
  · rcases hadmits.step with ⟨hroot, -⟩ | ⟨new, hnew, hroot, -⟩
    · rw [show recordedEpoch c.after.root = _ from hroot]
      exact .refl
    · rw [show recordedEpoch c.after.root = _ from hroot]
      exact atMost_some (hlt new hnew)
  · by_contra hno
    exact hne (hadmits.unswapped fun e he hswaps => hno ⟨e, he, hswaps⟩)
  · rcases hadmits.step with ⟨hroot, -⟩ | ⟨new, hnew, hroot, -⟩
    · exact absurd hroot hne
    · exact ⟨new, hroot, hlt new hnew⟩
  · rw [hout] at hok
    cases out with
    | error | crashed => cases hok
    | ok admitted' =>
      cases hok
      rcases hadmits.report _ rfl with ⟨hchanged, hsame, hrecorded⟩ | ⟨hchanged, hnew, hviews⟩
      · have hsame : c.after = c.before := hsame
        rw [hchanged, hsame]
        exact ⟨hrecorded, rfl⟩
      · rw [hchanged]
        exact ⟨hviews _ Disk.mem_views_root, hlt _ hnew⟩
  · rw [TrustCall.Went, hdoor] at hwent
    obtain ⟨out', hruns, hout'⟩ := runs_mapEnd.mp hwent
    rw [hok] at hout'
    cases out' with
    | error | crashed => cases hout'
    | ok admitted' =>
      cases hout'
      exact rebootstrapGeneration_ok hkeeps hruns

variable {groups : List (List TrustCall)}

/-- The invariant of the runs that replace no generation. -/
theorem TrustRun.ledger (hrun : TrustRun platform start calls d) (hstart : start.NothingActive)
    (hreplace : ∀ c ∈ calls, ¬c.door.IsReplace) :
    ∃ groups, List.Forall₂ (TrustCall.ConsistsOf platform) calls groups ∧ Ledger platform groups.flatten d ∧
      ∀ s ∈ groups.flatten, s.Went platform ∧ s.KeepsRecord platform := by
  induction hrun with
  | start =>
    have hnone : ∀ view ∈ start.views, recordedEpoch view = none := fun view hview =>
      recordedEpoch_eq_none (shown_eq_none (hstart view hview))
    refine ⟨[], .nil, ⟨fun view hview node hnode => ?_, fun view hview => ?_, fun s hs => absurd hs List.not_mem_nil⟩,
      fun s hs => absurd hs List.not_mem_nil⟩
    · cases (hstart view hview).symm.trans hnode
    · rw [hnone view hview]
      exact nofun
  | @call calls c h hwent ih =>
    obtain ⟨groups, hgroups, hledger, hkept⟩ := ih fun c' hc' => hreplace c' (List.mem_append_left _ hc')
    obtain ⟨steps, hsteps⟩ := TrustCall.consistsOf hwent
    obtain ⟨hlinked, hforall⟩ := hsteps.forall hwent
    have hnot := hreplace c (List.mem_append_right _ (List.mem_singleton.mpr rfl))
    obtain ⟨hend, hkeeps⟩ := hlinked.ledger hledger fun s hs =>
      ⟨(hforall s hs).1, (hforall s hs).2.1, fun hs' => hnot ((hforall s hs).2.2 hs')⟩
    refine ⟨groups ++ [steps], List.rel_append hgroups (.cons hsteps .nil), by simpa using hend, fun s hs => ?_⟩
    rw [List.flatten_append, List.flatten_singleton] at hs
    rcases List.mem_append.mp hs with hs | hs
    · exact hkept s hs
    · obtain ⟨hwent', hsingle, hreplaces⟩ := hforall s hs
      exact ⟨hwent', TrustCall.keepsRecord (hkeeps s hs) hwent' hsingle fun hs' => hnot (hreplaces hs')⟩
  | operator h hset ih =>
    obtain ⟨groups, hgroups, hledger, hkept⟩ := ih hreplace
    exact ⟨groups, hgroups, hledger.operator hset, hkept⟩
  | powerLoss h hloss ih =>
    obtain ⟨groups, hgroups, hledger, hkept⟩ := ih hreplace
    exact ⟨groups, hgroups, hledger.powerLoss hloss, hkept⟩

/-- Over every run of the doors but `replace`, with refusals, failures, crashes and power losses anywhere: told step by
step, no call lowers the recorded epoch, one that reports a change has raised it, one that raises it has swapped the
active link, and one that does not get to install changes nothing; and the epoch recorded in the end is at least
every one that was reported. -/
theorem no_rollback (hrun : TrustRun platform start calls d) (hstart : start.NothingActive)
    (hreplace : ∀ c ∈ calls, ¬c.door.IsReplace) :
    ∃ groups, List.Forall₂ (TrustCall.ConsistsOf platform) calls groups ∧
      (∀ s ∈ groups.flatten, s.Went platform ∧ s.KeepsRecord platform) ∧
      ∀ s ∈ groups.flatten, ∀ epoch, s.ReportsChange epoch →
        ∃ recorded, recordedEpoch d.root = some recorded ∧ epoch ≤ recorded := by
  obtain ⟨groups, hgroups, hledger, hkept⟩ := hrun.ledger hstart hreplace
  exact ⟨groups, hgroups, hkept, fun s hs epoch hepoch => hledger.floors s hs epoch hepoch _ Disk.mem_views_root epoch rfl⟩

/-- The seed of an empty tree reports its epoch. -/
theorem exists_seed : ∃ seed : TrustCall, TrustRun samplePlatform ⟨[], []⟩ [seed] seeded ∧ ¬seed.door.IsReplace ∧
    seed.after = seeded ∧ seed.ReportsChange 1 := by
  obtain ⟨events, hruns⟩ : Goes (trustDevice samplePlatform (sampleSurroundings SampleGeneration.first.package))
      (TrustDoor.program samplePlatform.lib sampleRoot (.seed SampleGeneration.first.package)) ⟨[], []⟩
      (.ok (.admitted ⟨⟨1, true⟩, 1, SampleGeneration.first.document⟩)) seeded := goes_mapEnd.mpr ⟨_, goes_seed, rfl⟩
  let seed : TrustCall := ⟨.seed SampleGeneration.first.package, sampleRoot, sampleSurroundings SampleGeneration.first.package,
    ⟨[], []⟩, events, .ok (.admitted ⟨⟨1, true⟩, 1, SampleGeneration.first.document⟩), seeded⟩
  exact ⟨seed, .call seed .start hruns, not_false, rfl, _, rfl, rfl, rfl⟩

theorem nothingActive_empty : Disk.NothingActive ⟨[], []⟩ := by
  intro view hview
  cases List.mem_singleton.mp hview
  rfl

theorem no_rollback_seed : ∃ calls groups, TrustRun samplePlatform ⟨[], []⟩ calls seeded ∧
    List.Forall₂ (TrustCall.ConsistsOf samplePlatform) calls groups ∧ calls ≠ [] ∧
    ∀ s ∈ groups.flatten, s.Went samplePlatform ∧ s.KeepsRecord samplePlatform := by
  obtain ⟨seed, hrun, hreplace, -, -⟩ := exists_seed
  obtain ⟨groups, hgroups, hkept, -⟩ := no_rollback hrun nothingActive_empty fun c hc => by
    rw [List.mem_singleton.mp hc]
    exact hreplace
  exact ⟨_, groups, hrun, hgroups, List.cons_ne_nil _ _, hkept⟩

/-- The installation of the second generation, up to a crash right behind the swap of the active link. -/
def crashedInstall : World Op (Op.Result ReleaseTrustError) Disk :=
  (activateGeneration ⟨sampleRoot, none⟩ (material SampleGeneration.second.package SampleGeneration.second.member 2)).crashAfter
    (device (willingHost fun _ => .error .notFound)) 26 ⟨seeded, []⟩

/-- An accept that crashes behind the swap of the active link has raised the recorded epoch, and reports nothing. -/
theorem rises_unreported : ∃ seed accept : TrustCall, TrustRun samplePlatform ⟨[], []⟩ [seed, accept] accept.after ∧
    (∃ package, accept.door = .accept package) ∧ seed.ReportsChange 1 ∧ (∀ epoch, ¬accept.ReportsChange epoch) ∧
    recordedEpoch accept.before.root = some 1 ∧ recordedEpoch accept.after.root = some 2 := by
  obtain ⟨seed, hseed, -, -, hreports⟩ := exists_seed
  have hinstall : Runs (device (willingHost fun _ => .error .notFound)) (activateGeneration ⟨sampleRoot, none⟩
      (material SampleGeneration.second.package SampleGeneration.second.member 2)) ⟨seeded, []⟩ .crashed crashedInstall :=
    Prog.runs_crashAfter 26 _ _
  have hlt : 1 < SampleGeneration.second.epoch := by decide
  have hinstalled := @goes_installVerified samplePlatform (sampleSurroundings SampleGeneration.second.package) sampleRoot
    SampleGeneration.second.package ⟨SampleGeneration.second.document, 2, SampleGeneration.second.member⟩ _ _ _
    (validateStaged_sample rfl) hinstall.goes
  have haccept : Goes (trustDevice samplePlatform (sampleSurroundings SampleGeneration.second.package))
      (acceptGeneration samplePlatform.lib sampleRoot SampleGeneration.second.package) seeded .crashed crashedInstall.state :=
    goes_judged (value_judgeDelivered_seeded rfl hlt) hinstalled
  obtain ⟨events, hruns⟩ : Goes (trustDevice samplePlatform (sampleSurroundings SampleGeneration.second.package))
      (TrustDoor.program samplePlatform.lib sampleRoot (.accept SampleGeneration.second.package)) seeded .crashed
      crashedInstall.state := goes_mapEnd.mpr ⟨_, haccept, rfl⟩
  let accept : TrustCall := ⟨.accept SampleGeneration.second.package, sampleRoot,
    sampleSurroundings SampleGeneration.second.package, seeded, events, .crashed, crashedInstall.state⟩
  refine ⟨seed, accept, .call accept hseed hruns, ⟨_, rfl⟩, hreports, ?_, ?_, ?_⟩
  · rintro epoch ⟨admitted, hok, -⟩
    cases hok
  · show recordedEpoch seeded.root = some 1
    decide +kernel
  · show recordedEpoch crashedInstall.state.root = some 2
    decide +kernel

/-- Over every run of the doors, `replace` among them: where the active link resolves, what is active reads as a
document whose epoch is recorded, whose anchors make a trust set, and which the active package carries; and reading
it fails with an I/O error, or because nothing is active. -/
theorem active_readable (hrun : TrustRun platform start calls d) (hstart : start.NothingActive)
    (surroundings : Surroundings) (root : Bytes) :
    (d.metadata surroundings.stat ACTIVE_LINK = .ok () →
      ∃ package member record document trust,
        d.read surroundings.elsewhere ACTIVE_LINK GENERATION_PACKAGE_FILE = .ok package ∧
        d.read surroundings.elsewhere ACTIVE_LINK (asBytes TRUST_SET_MEMBER) = .ok member ∧
        d.read surroundings.elsewhere ACTIVE_LINK EPOCH_RECORD_FILE = .ok record ∧
        platform.extractMember package = .ok member ∧ readTrustSetDocument platform.lib member = .ok document ∧
        parseEpochRecord record = .ok document.epoch ∧ documentAnchors platform.lib document = some trust.anchors ∧
        trust.epoch = document.epoch ∧
        (readActiveGeneration platform.lib root).value (lookDevice platform surroundings) d =
          .ok ⟨document, document.epoch, trust⟩) ∧
    ∀ out w, Runs (lookDevice platform surroundings) (readActiveGeneration platform.lib root) ⟨d, []⟩ out w →
      ∀ e, out = .error e → e.IsIo ∨ e = .noActiveGeneration := by
  rcases (hrun.keeps hstart).shown Disk.mem_views_root with hnone | ⟨generation, _, hshown, package, member, document, rfl, hcarries⟩
  · refine ⟨fun hresolves => ?_, fun out w hruns e he => ?_⟩
    · rw [Disk.metadata, find_eq_none_of_shown hnone] at hresolves
      cases hresolves
    · refine (hruns.ends lookDevice_looks givesUp_readActiveGeneration).2 e he |>.imp_right fun hvalue => ?_
      rw [readActiveGeneration, Prog.value_bind, value_readActiveEpoch_none hnone, Checks.ok_bind] at hvalue
      cases hvalue
      rfl
  · obtain ⟨trust, hvalue, hmakes⟩ :=
      @value_readActiveGeneration _ surroundings root _ _ _ _ _ hshown hcarries
    have hread : ∀ name bytes, ⟨name, bytes⟩ ∈ material package member document.epoch →
        d.read surroundings.elsewhere ACTIVE_LINK name = .ok bytes :=
      fun name bytes => (installedFrom_of_shown hshown).read_iff.mpr
    refine ⟨fun _ => ⟨package, member, renderEpochRecord document.epoch, document, trust, hread _ _ (by simp [material]),
      hread _ _ (by simp [material]), hread _ _ (by simp [material]), hcarries.extracted, hcarries.read,
      parseEpochRecord_render hcarries.epoch_ne_zero, hmakes.anchors, hmakes.epoch, hvalue⟩, fun out w hruns e he => ?_⟩
    rcases (hruns.ends lookDevice_looks givesUp_readActiveGeneration).2 e he with hio | herror
    · exact .inl hio
    · cases hvalue.symm.trans herror

/-- What a seed has made active is read. -/
theorem active_readable_seeded : ∃ package member document trust,
    seeded.read (fun _ => .error .notFound) ACTIVE_LINK GENERATION_PACKAGE_FILE = .ok package ∧
    samplePlatform.extractMember package = .ok member ∧ readTrustSetDocument samplePlatform.lib member = .ok document ∧
    (readActiveGeneration samplePlatform.lib sampleRoot).value
      (lookDevice samplePlatform (sampleSurroundings SampleGeneration.first.package)) seeded =
        .ok ⟨document, document.epoch, trust⟩ := by
  obtain ⟨seed, hrun, -, -, -⟩ := exists_seed
  obtain ⟨hreads, -⟩ := active_readable hrun nothingActive_empty (sampleSurroundings SampleGeneration.first.package) sampleRoot
  obtain ⟨package, member, _, document, trust, hpackage, -, -, hextracted, hread, -, -, -, hvalue⟩ :=
    hreads (metadata_of_shown shown_seeded)
  exact ⟨package, member, document, trust, hpackage, hextracted, hread, hvalue⟩

end Calls

end DeployCore
