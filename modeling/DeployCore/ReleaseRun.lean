import DeployCore.ReleaseChain

/-! # Runs over a release-trust tree

A run is a sequence of calls of the doors, each of which may be refused, fail or crash at any of its steps, with power
losses anywhere between, and an operator who sets the pin marker and the join material. -/

namespace DeployCore
open Directory Crash

/-- A call of a door, with its arguments. -/
inductive TrustDoor
  | accept (package : Bytes)
  | chain (packages : List Bytes)
  | rebootstrap (package : Bytes) (assertedEpoch : UInt64) (pin : Option String)
  | seed (package : Bytes)
  | bootstrap (pin : Option String)
  | replace (package : Bytes)

inductive TrustReport
  | admitted (admitted : AdmittedGeneration)
  | replayed (replay : ChainReplay)

inductive TrustFailure
  | refused (error : ReleaseTrustError)
  | stopped (error : ChainReplayError)

/-- A door to one generation. -/
def singly (p : Admission ReleaseTrustError AdmittedGeneration) : Admission TrustFailure TrustReport :=
  p.mapEnd .refused .admitted

def TrustDoor.program (lib : Externals) (root : Bytes) : TrustDoor → Admission TrustFailure TrustReport
  | .accept package => singly (acceptGeneration lib root package)
  | .chain packages => (acceptGenerationChain lib root packages).mapEnd .stopped .replayed
  | .rebootstrap package assertedEpoch pin => singly (rebootstrapGeneration lib root package assertedEpoch pin)
  | .seed package => singly (admitSeedGeneration lib root package)
  | .bootstrap pin => singly (bootstrapFromJoinMaterial lib root pin)
  | .replace package => singly (replaceGeneration lib root package)

/-- A call that was made: what it found, what it did, how it ended and what it left. -/
structure TrustCall where
  door : TrustDoor
  root : Bytes
  surroundings : Surroundings
  before : Disk
  events : List (Event TrustOp TrustOp.Result Disk)
  outcome : Outcome TrustFailure TrustReport
  after : Disk

def TrustCall.Went (platform : Platform) (c : TrustCall) : Prop :=
  Runs (trustDevice platform c.surroundings) (c.door.program platform.lib c.root) ⟨c.before, []⟩ c.outcome ⟨c.after, c.events⟩

/-- What the operator sets. -/
def operatorNames : Set Bytes := {REQUIRE_TRUST_PIN_MARKER, JOIN_GENERATION_FILE}

/-- The runs that begin at `start`. -/
inductive TrustRun (platform : Platform) (start : Disk) : List TrustCall → Disk → Prop
  | start : TrustRun platform start [] start
  | call {calls} (c : TrustCall) (h : TrustRun platform start calls c.before) (hwent : c.Went platform) :
      TrustRun platform start (calls ++ [c]) c.after
  | operator {calls d d'} (h : TrustRun platform start calls d) (hset : d.Frame operatorNames d') :
      TrustRun platform start calls d'
  | powerLoss {calls d d'} (h : TrustRun platform start calls d) (hloss : d.PowerLoss d') :
      TrustRun platform start calls d'

/-- Nothing is active, whatever state of the root the disk holds. -/
def Disk.NothingActive (d : Disk) : Prop := ∀ view ∈ d.views, find view ACTIVE_LINK = none

/-! ### One step -/

/-- At most as high; nothing recorded is below every epoch. -/
def AtMost (recorded recorded' : Option UInt64) : Prop :=
  ∀ epoch, recorded = some epoch → ∃ epoch', recorded' = some epoch' ∧ epoch ≤ epoch'

/-- A step that may record an `admissible` epoch: what is recorded in each state that the disk may hold is what was
recorded in one, or that epoch. -/
inductive Disk.Steps (admissible : UInt64 → Prop) (d d' : Disk) : Prop
  | kept (root : recordedEpoch d'.root = recordedEpoch d.root)
      (views : ∀ view' ∈ d'.views, ∃ view ∈ d.views, recordedEpoch view' = recordedEpoch view)
  | swapped (epoch : UInt64) (hadmissible : admissible epoch) (root : recordedEpoch d'.root = some epoch)
      (views : ∀ view' ∈ d'.views, recordedEpoch view' = some epoch ∨
        ∃ view ∈ d.views, recordedEpoch view' = recordedEpoch view)

/-- The operation swaps the active link. -/
def SwapsActive (e : Event TrustOp TrustOp.Result Disk) : Prop :=
  ∃ before, e = ⟨.engine (.fs (.rename ACTIVE_TMP ACTIVE_LINK)), before, some (.ok ())⟩

def TrustOp.IsLook : TrustOp → Prop
  | .look _ => True
  | .engine _ => False

/-- What a door does that admits one generation, of an `admissible` epoch. -/
structure Admits (platform : Platform) (admissible : UInt64 → Prop) (before : Disk)
    (w : World TrustOp TrustOp.Result Disk) (out : Outcome ReleaseTrustError AdmittedGeneration) : Prop where
  keeps : w.state.Keeps platform.Good
  step : before.Steps admissible w.state
  refused : (∀ e ∈ w.events, e.op.IsLook) → w.state = before
  unswapped : (∀ e ∈ w.events, ¬SwapsActive e) → recordedEpoch w.state.root = recordedEpoch before.root
  report : ∀ admitted, out = .ok admitted →
    (admitted.activation.changed = false ∧ w.state = before ∧ recordedEpoch before.root = some admitted.epoch) ∨
    (admitted.activation.changed = true ∧ admissible admitted.epoch ∧
      ∀ view ∈ w.state.views, recordedEpoch view = some admitted.epoch)

section Steps
variable {platform : Platform} {surroundings : Surroundings} {root package : Bytes} {admissible : UInt64 → Prop}
  {before : Disk} {w w₁ : World TrustOp TrustOp.Result Disk} {out : Outcome ReleaseTrustError AdmittedGeneration}
  {α : Type} {faulty : ReleaseTrustError → Prop}

theorem Admits.of_looked (hkeeps : before.Keeps platform.Good) (hlooked : LookedSince ⟨before, []⟩ w)
    (hreport : ∀ admitted, out = .ok admitted → admitted.activation.changed = false ∧
      recordedEpoch before.root = some admitted.epoch) : Admits platform admissible before w out := by
  obtain ⟨hstate, -⟩ := hlooked
  have hstate : w.state = before := hstate
  refine ⟨hstate ▸ hkeeps, ?_, fun _ => hstate, fun _ => by rw [hstate], fun admitted hok => ?_⟩
  · rw [hstate]
    exact .kept rfl fun view hview => ⟨view, hview, rfl⟩
  · obtain ⟨hchanged, hrecorded⟩ := hreport admitted hok
    exact .inl ⟨hchanged, hstate, hrecorded⟩

/-- What matches the active generation has its epoch. -/
theorem Disk.Matches.recordedEpoch {d : Disk} {host : Host ReleaseTrustError} {member : Bytes} {epoch generation : UInt64}
    (h : d.Matches host (material package member epoch) generation) (hkeeps : d.Keeps platform.Good) (hzero : epoch ≠ 0) :
    recordedEpoch d.root = some epoch := by
  rcases hkeeps.shown Disk.mem_views_root with hnone | ⟨generation', _, hshown, package', member', document, rfl, hcarries⟩
  · have hcurrent := h.current
    rw [Disk.current, find_eq_none_of_shown hnone] at hcurrent
    cases hcurrent
  · have hserved := h.served ⟨EPOCH_RECORD_FILE, renderEpochRecord epoch⟩ (by simp [material])
    have hrecord : renderEpochRecord epoch = renderEpochRecord document.epoch := by
      have hmem := (installedFrom_of_shown hshown).read_iff.mp hserved
      simp only [material, List.mem_cons, List.not_mem_nil, or_false, GenerationFile.mk.injEq, true_and] at hmem
      rcases hmem with ⟨hname, -⟩ | ⟨hname, -⟩ | hrecord
      · exact absurd hname (by decide)
      · exact absurd hname (by decide)
      · exact hrecord
    have hparsed : parseEpochRecord (renderEpochRecord epoch) = .ok document.epoch := by
      rw [hrecord, parseEpochRecord_render hcarries.epoch_ne_zero]
    rw [parseEpochRecord_render hzero] at hparsed
    rw [recordedEpoch_generation hshown hcarries, Except.ok.inj hparsed]

/-- The call of the engine, of a package that carries its document. -/
theorem Admits.of_install {verified : VerifiedGeneration} {c : Call ReleaseTrustError}
    (hkeeps : before.Keeps platform.Good) (hlooked : LookedSince ⟨before, []⟩ w₁) (hfrom : verified.From platform package)
    (hadmissible : admissible verified.epoch)
    (hcall : InstallCall platform surroundings root package verified w₁ w c)
    (hout : ∀ admitted, out = .ok admitted → c.outcome = .ok admitted.activation ∧ admitted.epoch = verified.epoch ∧
      admitted.document = verified.document) : Admits platform admissible before w out := by
  obtain ⟨hcarries, hepoch⟩ := hfrom
  obtain ⟨hstate, events, hevents⟩ := hlooked
  have hbefore : c.before = before := hcall.before.trans hstate
  have hmaterial : c.material = material package verified.member verified.document.epoch := by
    rw [hcall.material, hepoch]
  have hgood : platform.Good c.material := ⟨package, verified.member, verified.document, hmaterial, hcarries⟩
  obtain ⟨hkept, hmoved, hunswapped, hreturned⟩ := Call.moved hcall.went (hbefore ▸ hkeeps) hgood
  rw [hcall.after, hbefore] at hmoved hunswapped
  rw [hcall.after] at hkept
  have hall : w.events = events.map (Event.via TrustOp.look) ++ c.events.map (Event.via TrustOp.engine) := by
    rw [hcall.events, hevents]
    rfl
  have hnew : ∀ view, shown view = some (shownGeneration before.nextIndex c.material) →
      recordedEpoch view = some verified.epoch := by
    intro view hview
    rw [hmaterial] at hview
    rw [hepoch]
    exact recordedEpoch_generation hview hcarries
  refine ⟨hkept, ?_, fun hlooks => ?_, fun hno => ?_, fun admitted hok => ?_⟩
  · rcases hmoved with ⟨hroot, hviews⟩ | ⟨hroot, hviews⟩
    · refine .kept (recordedEpoch_congr hroot) fun view' hview' => ?_
      obtain ⟨view, hview, hsame⟩ := hviews view' hview'
      exact ⟨view, hview, recordedEpoch_congr hsame⟩
    · refine .swapped verified.epoch hadmissible (hnew _ hroot) fun view' hview' => ?_
      rcases hviews view' hview' with hview | ⟨view, hview, hsame⟩
      · exact .inl (hnew _ hview)
      · exact .inr ⟨view, hview, recordedEpoch_congr hsame⟩
  · -- the engine did nothing
    obtain ⟨since, hsince, hnothing⟩ := Runs.recorded hcall.went
    have hnil : c.events = [] := by
      refine List.eq_nil_iff_forall_not_mem.mpr fun e he => ?_
      exact hlooks _ (hall ▸ List.mem_append_right _ (List.mem_map_of_mem he))
    rw [← hcall.after, ← hbefore]
    exact hnothing (hsince.symm.trans hnil)
  · refine recordedEpoch_congr (hunswapped fun e he hswaps => ?_)
    obtain ⟨before, rfl⟩ := hswaps
    exact hno _ (hall ▸ List.mem_append_right _ (List.mem_map_of_mem he)) ⟨before, rfl⟩
  · obtain ⟨hact, hadmitted, -⟩ := hout admitted hok
    rcases hreturned _ hact with ⟨hchanged, hafter, hmatches⟩ | ⟨hactivation, hviews⟩
    · refine .inl ⟨hchanged, by rw [← hcall.after, hafter, hbefore], ?_⟩
      rw [hbefore, hmaterial] at hmatches
      rw [hadmitted, hepoch]
      exact hmatches.recordedEpoch hkeeps hcarries.epoch_ne_zero
    · rw [hbefore, hcall.after] at hviews
      refine .inr ⟨by rw [hactivation], hadmitted ▸ hadmissible, fun view hview => ?_⟩
      rw [hadmitted]
      exact hnew _ (hviews view hview)

/-- A door that judges, and then installs what it verified or reports what is active. -/
theorem admits_judged (root : Bytes) {judge : Look α} {f : α → Admission ReleaseTrustError AdmittedGeneration}
    (hgives : judge.GivesUp (lookDevice platform surroundings) faulty) (hkeeps : before.Keeps platform.Good)
    (hjudged : ∀ a, judge.value (lookDevice platform surroundings) before = .ok a →
      (∃ package verified, f a = installVerified root package verified ∧ verified.From platform package ∧
        admissible verified.epoch) ∨
      ∃ admitted, f a = pure admitted ∧ admitted.activation.changed = false ∧
        recordedEpoch before.root = some admitted.epoch)
    (h : Runs (trustDevice platform surroundings) (look judge >>= f) ⟨before, []⟩ out w) :
    Admits platform admissible before w out := by
  rcases runs_judged hgives h with ⟨hlooked, hnone, -⟩ | ⟨a, w₁, hlooked, hvalue, hrest⟩
  · exact .of_looked hkeeps hlooked fun admitted hok => absurd hok (hnone admitted)
  rcases hjudged a hvalue with ⟨package, verified, hf, hfrom, hadmissible⟩ | ⟨admitted, hf, hunchanged⟩
  · rw [hf] at hrest
    obtain ⟨c, hcall, hout, -⟩ := runs_installVerified hrest
    exact .of_install hkeeps hlooked hfrom hadmissible hcall hout
  · rw [hf] at hrest
    cases hrest with
    | ret => exact .of_looked hkeeps hlooked fun _ hok => by cases hok; exact hunchanged
    | crash => exact .of_looked hkeeps hlooked nofun

theorem acceptGeneration_admits (hkeeps : before.Keeps platform.Good)
    (h : Runs (trustDevice platform surroundings) (acceptGeneration platform.lib root package) ⟨before, []⟩ out w) :
    Admits platform (fun epoch => ∃ recorded, recordedEpoch before.root = some recorded ∧ recorded < epoch) before w out := by
  refine admits_judged root givesUp_judgeDelivered hkeeps (fun judgement hvalue => ?_) h
  obtain ⟨recorded, hrecorded, hjudged⟩ := hkeeps.judgeDelivered hvalue
  cases judgement with
  | unchanged admitted => exact .inr ⟨admitted, rfl, hjudged.1, hjudged.2 ▸ hrecorded⟩
  | install verified => exact .inl ⟨package, verified, rfl, hjudged.1, recorded, hrecorded, hjudged.2⟩

theorem rebootstrapGeneration_admits {assertedEpoch : UInt64} {pin : Option String} (hkeeps : before.Keeps platform.Good)
    (h : Runs (trustDevice platform surroundings) (rebootstrapGeneration platform.lib root package assertedEpoch pin)
      ⟨before, []⟩ out w) :
    Admits platform (fun epoch => ∃ recorded, recordedEpoch before.root = some recorded ∧ recorded < epoch) before w out := by
  refine admits_judged root givesUp_judgeRebootstrap hkeeps (fun verified hvalue => ?_) h
  obtain ⟨hrecorded, hfrom, hlt, -⟩ := judgeRebootstrap_ok hvalue
  rw [hkeeps.readActiveEpoch] at hrecorded
  exact .inl ⟨package, verified, rfl, hfrom, assertedEpoch, Except.ok.inj hrecorded, hlt⟩

theorem admitOntoEmptyTree_admits {pin : Option String} {source : Look Bytes} (hkeeps : before.Keeps platform.Good)
    (hsource : source.GivesUp (lookDevice platform surroundings) ReleaseTrustError.IsIo)
    (h : Runs (trustDevice platform surroundings) (admitOntoEmptyTree platform.lib root pin source) ⟨before, []⟩ out w) :
    Admits platform (fun _ => recordedEpoch before.root = none) before w out := by
  refine admits_judged root (givesUp_judgeEmptyTree hsource) hkeeps (fun a hvalue => ?_) h
  obtain ⟨package, verified⟩ := a
  obtain ⟨hnone, hfrom⟩ := hkeeps.judgeEmptyTree hvalue
  exact .inl ⟨package, verified, rfl, hfrom, hnone⟩

theorem replaceGeneration_admits (hkeeps : before.Keeps platform.Good)
    (h : Runs (trustDevice platform surroundings) (replaceGeneration platform.lib root package) ⟨before, []⟩ out w) :
    Admits platform (fun _ => True) before w out := by
  refine admits_judged root givesUp_verifySelfAdmitted hkeeps (fun verified hvalue => ?_) h
  exact .inl ⟨package, verified, rfl, verifySelfAdmitted_ok hvalue, trivial⟩

end Steps

/-! ### Calls -/

/-- The epochs that a door may record over what is recorded. -/
def TrustDoor.Admissible (recorded : Option UInt64) : TrustDoor → UInt64 → Prop
  | .seed _ | .bootstrap _ => fun _ => recorded = none
  | .replace _ => fun _ => True
  | .accept _ | .chain _ | .rebootstrap _ _ _ => fun epoch => ∃ recorded', recorded = some recorded' ∧ recorded' < epoch

def TrustDoor.IsChain : TrustDoor → Prop
  | .chain _ => True
  | _ => False

def TrustDoor.IsReplace : TrustDoor → Prop
  | .replace _ => True
  | _ => False

/-- How an admission of one generation ends. -/
abbrev Outcome.single (out : Outcome ReleaseTrustError AdmittedGeneration) : Outcome TrustFailure TrustReport :=
  out.mapEnd .refused .admitted

/-- The calls go on where the ones before left the tree. -/
inductive Linked : Disk → List TrustCall → Disk → Prop
  | nil {d} : Linked d [] d
  | cons {c : TrustCall} {rest d} (h : Linked c.after rest d) : Linked c.before (c :: rest) d

/-- How a chain of so many packages ends behind the accepted ones, and at the step that stopped it. -/
inductive ChainEnds (total : Nat) (admitted : List AdmittedGeneration) :
    Option (Outcome TrustFailure TrustReport) → Outcome TrustFailure TrustReport → Prop
  | replayed (h : admitted.length = total) :
      ChainEnds total admitted none (.ok (.replayed ⟨admitted.length, admitted.getLast?⟩))
  | stopped {source} : ChainEnds total admitted (some (.error (.refused source)))
      (.error (.stopped ⟨admitted.length, admitted.getLast?, source⟩))
  | crashed {stop} (h : ∀ report, stop ≠ some (.ok report)) : ChainEnds total admitted stop .crashed

/-- A chain as the accepts it consists of. -/
structure TrustCall.Replays (platform : Platform) (c : TrustCall) (packages : List Bytes) (steps : List TrustCall) : Prop where
  doors : steps.map (·.door) <+: packages.map .accept
  went : ∀ s ∈ steps, s.Went platform ∧ s.root = c.root ∧ s.surroundings = c.surroundings
  linked : Linked c.before steps c.after
  events : c.events = steps.flatMap (·.events)
  ends : ∃ admitted stop, steps.map (·.outcome) = admitted.map (fun a => .ok (.admitted a)) ++ stop.toList ∧
    ChainEnds packages.length admitted stop c.outcome

/-- A call as the admissions it consists of: itself, or the accepts of a chain. -/
def TrustCall.ConsistsOf (platform : Platform) (c : TrustCall) (steps : List TrustCall) : Prop :=
  match c.door with
  | .chain packages => c.Replays platform packages steps
  | _ => steps = [c]

section Calls
variable {platform : Platform} {surroundings : Surroundings} {root package : Bytes} {c : TrustCall} {d d' : Disk}
  {w w' : World TrustOp TrustOp.Result Disk} {packages : List Bytes} {admitted : List AdmittedGeneration}

/-- A run of an accept, as a call of its own. -/
theorem TrustCall.of_accept {out : Outcome ReleaseTrustError AdmittedGeneration}
    (h : Runs (trustDevice platform surroundings) (acceptGeneration platform.lib root package) w out w') :
    ∃ s : TrustCall, s.Went platform ∧ s.door = .accept package ∧ s.root = root ∧ s.surroundings = surroundings ∧
      s.before = w.state ∧ s.after = w'.state ∧ s.outcome = Outcome.single out ∧ w'.events = w.events ++ s.events := by
  have hw : w = ⟨w.state, w.events ++ []⟩ := by rw [List.append_nil]
  rw [hw] at h
  obtain ⟨w₁, hruns, rfl⟩ := runs_behind.mp h
  exact ⟨⟨.accept package, root, surroundings, w.state, w₁.events, Outcome.single out, w₁.state⟩,
    runs_mapEnd.mpr ⟨out, hruns, rfl⟩, rfl, rfl, rfl, rfl, rfl, rfl, rfl⟩

theorem Linked.append {d'' : Disk} {steps steps' : List TrustCall} (h : Linked d steps d') (h' : Linked d' steps' d'') :
    Linked d (steps ++ steps') d'' := by
  induction h with
  | nil => exact h'
  | cons _ ih => exact .cons (ih h')

theorem Linked.singleton : Linked c.before [c] c.after := .cons .nil

/-- Accepted steps, as calls. -/
theorem AcceptedSteps.calls (h : AcceptedSteps platform surroundings root packages w admitted w') :
    ∃ steps : List TrustCall, steps.map (·.door) = packages.map .accept ∧
      (∀ s ∈ steps, s.Went platform ∧ s.root = root ∧ s.surroundings = surroundings) ∧ Linked w.state steps w'.state ∧
      w'.events = w.events ++ steps.flatMap (·.events) ∧ steps.map (·.outcome) = admitted.map fun a => .ok (.admitted a) := by
  induction h with
  | nil => exact ⟨[], rfl, fun _ hs => absurd hs List.not_mem_nil, .nil, (List.append_nil _).symm, rfl⟩
  | cons hruns _ ih =>
    obtain ⟨steps, hdoors, hwent, hlinked, hevents, houtcomes⟩ := ih
    obtain ⟨s, hs, hdoor, hroot, hsurroundings, hbefore, hafter, houtcome, hsevents⟩ := TrustCall.of_accept hruns
    refine ⟨s :: steps, ?_, ?_, ?_, ?_, ?_⟩
    · rw [List.map_cons, List.map_cons, hdoor, hdoors]
    · exact List.forall_mem_cons.mpr ⟨⟨hs, hroot, hsurroundings⟩, hwent⟩
    · rw [← hbefore]
      exact .cons (hafter ▸ hlinked)
    · rw [hevents, hsevents, List.flatMap_cons, List.append_assoc]
    · rw [List.map_cons, List.map_cons, houtcome, houtcomes]
      rfl

theorem TrustCall.replays (hwent : c.Went platform) (hdoor : c.door = .chain packages) :
    ∃ steps, c.Replays platform packages steps := by
  rw [TrustCall.Went, hdoor] at hwent
  obtain ⟨out, hruns, hout⟩ := runs_mapEnd.mp hwent
  obtain ⟨done, rest, admitted, w₁, hpackages, hdone, hcases⟩ := runs_replay.mp hruns
  obtain ⟨steps, hdoors, hsteps, hlinked, hevents, houtcomes⟩ := hdone.calls
  have hlength : admitted.length = done.length := by
    have := congrArg List.length houtcomes
    have := congrArg List.length hdoors
    simp only [List.length_map] at *
    omega
  have hprogress : (⟨0, none⟩ : ChainReplay).after admitted = ⟨admitted.length, admitted.getLast?⟩ := by
    simp [ChainReplay.after]
  rw [hprogress] at hcases
  rcases hcases with ⟨rfl, rfl, hends⟩ | ⟨package, rest', out', rfl, hnot, hstop, hends⟩
  · rw [List.append_nil] at hpackages
    refine ⟨steps, by rw [hdoors, hpackages], hsteps, hlinked, hevents, admitted, none, by simpa using houtcomes, ?_⟩
    rw [hout]
    rcases hends with rfl | rfl
    · exact .replayed (by rw [hlength, hpackages])
    · exact .crashed fun _ h => by cases h
  · obtain ⟨s, hs, hsdoor, hroot, hsurroundings, hbefore, hafter, houtcome, hsevents⟩ := TrustCall.of_accept hstop
    have hall : (steps ++ [s]).map (·.outcome) =
        admitted.map (fun a => .ok (.admitted a)) ++ (some (Outcome.single out')).toList := by
      rw [List.map_append, houtcomes, List.map_singleton, houtcome]
      rfl
    refine ⟨steps ++ [s], ?_, ?_, ?_, ?_, admitted, some (Outcome.single out'), hall, ?_⟩
    · refine ⟨rest'.map .accept, ?_⟩
      rw [List.map_append, hdoors, hpackages, List.map_append, List.map_singleton, hsdoor, List.append_assoc]
      rfl
    · exact List.forall_mem_append.mpr ⟨hsteps, List.forall_mem_singleton.mpr ⟨hs, hroot, hsurroundings⟩⟩
    · have hlast : Linked w₁.state [s] c.after := by
        rw [← hbefore, show c.after = s.after from hafter.symm]
        exact .singleton
      exact hlinked.append hlast
    · rw [List.flatMap_append, List.flatMap_singleton]
      exact hsevents.trans (congrArg (· ++ s.events) hevents)
    · rw [hout]
      rcases hends with rfl | rfl
      · cases out' with
        | ok a => exact absurd rfl (hnot a)
        | error source => exact .stopped
        | crashed => exact .crashed fun _ h => by cases h
      · refine .crashed fun report hreport => ?_
        cases out' with
        | ok a => exact hnot a rfl
        | error source => cases hreport
        | crashed => cases hreport

theorem TrustCall.consistsOf (hwent : c.Went platform) : ∃ steps, c.ConsistsOf platform steps := by
  cases hdoor : c.door with
  | chain packages =>
    obtain ⟨steps, hsteps⟩ := TrustCall.replays hwent hdoor
    exact ⟨steps, by simpa only [TrustCall.ConsistsOf, hdoor] using hsteps⟩
  | accept | rebootstrap | seed | bootstrap | replace =>
    exact ⟨[c], by simp only [TrustCall.ConsistsOf, hdoor]⟩

end Calls

end DeployCore
