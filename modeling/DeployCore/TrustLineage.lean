import DeployCore.ReleaseRollback

/-! # Where an active generation comes from

A generation is admitted on its caller's word, at the head of a line, or because the trust set of the one that was
active vouches for it. Over every run of the doors what is active stands at the end of such a line: its head was
named by a call, under the pin that the call was given, and every further package verified under the document of the
package before it, so that the epochs rise along the line (`active_descends`). -/

namespace DeployCore
open Directory Crash

/-- A package, the member it carries, and that member's document. -/
structure Carried (platform : Platform) where
  package : Bytes
  member : Bytes
  document : TrustSetDocument
  carries : platform.Carries package member document

/-- The member is the pinned one, where there is a pin. -/
def Pinned (lib : Externals) (pin : Option String) (member : Bytes) : Prop :=
  ∀ pin', pin = some pin' → pin' = memberDigest lib member

section
variable {platform : Platform} {calls calls' : List TrustCall} {c : TrustCall} {g g' : Carried platform}

def Carried.files (g : Carried platform) : List GenerationFile := material g.package g.member g.document.epoch

/-- The call admits the package on its caller's word. -/
def TrustCall.Heads (c : TrustCall) (g : Carried platform) : Prop :=
  match c.door with
  | .accept _ | .chain _ => False
  | .seed package => g.package = package ∧ recordedEpoch c.before.root = none
  | .bootstrap pin => (LookOp.readRootFile JOIN_GENERATION_FILE).run platform c.surroundings c.before = .ok g.package ∧
      recordedEpoch c.before.root = none ∧ Pinned platform.lib pin g.member
  | .rebootstrap package assertedEpoch pin => g.package = package ∧ recordedEpoch c.before.root = some assertedEpoch ∧
      assertedEpoch < g.document.epoch ∧ Pinned platform.lib pin g.member
  | .replace package => g.package = package

/-- The door is given the package to judge it against what is active. -/
def TrustDoor.Delivers (door : TrustDoor) (package : Bytes) : Prop :=
  match door with
  | .accept package' => package' = package
  | .chain packages => package ∈ packages
  | _ => False

/-- The package verifies under the trust set that the one before it makes. -/
def Carried.Succeeds (g g' : Carried platform) : Prop :=
  ∃ trust verified, g.document.Makes platform.lib trust ∧ Delivered platform g'.package trust verified ∧
    verified.member = g'.member ∧ verified.document = g'.document

/-- The generation stands at the end of a line that these calls have made. -/
inductive Lineage (calls : List TrustCall) : Carried platform → Prop
  | head {c : TrustCall} {g : Carried platform} (hc : c ∈ calls) (h : c.Heads g) : Lineage calls g
  | next {c : TrustCall} {g g' : Carried platform} (hc : c ∈ calls) (hdelivers : c.door.Delivers g'.package)
      (hsucceeds : g.Succeeds g') (h : Lineage calls g) : Lineage calls g'

/-- The files of a generation at the end of a line. -/
def LineOf (platform : Platform) (calls : List TrustCall) (files : List GenerationFile) : Prop :=
  ∃ g : Carried platform, files = g.files ∧ Lineage calls g

theorem Carried.Succeeds.lt (h : g.Succeeds g') : g.document.epoch < g'.document.epoch := by
  obtain ⟨trust, verified, hmakes, hdelivered, -, hdocument⟩ := h
  have hlt := hdelivered.lt
  rwa [hmakes.epoch, hdelivered.carried.2, hdocument] at hlt

theorem Lineage.subset (h : Lineage calls g) (hsub : calls ⊆ calls') : Lineage calls' g := by
  induction h with
  | head hc h => exact .head (hsub hc) h
  | next hc hdelivers hsucceeds _ ih => exact .next (hsub hc) hdelivers hsucceeds ih

theorem LineOf.subset {files : List GenerationFile} (h : LineOf platform calls files) (hsub : calls ⊆ calls') :
    LineOf platform calls' files := by
  obtain ⟨g, hfiles, hline⟩ := h
  exact ⟨g, hfiles, hline.subset hsub⟩

theorem LineOf.good {files : List GenerationFile} (h : LineOf platform calls files) : platform.Good files := by
  obtain ⟨g, rfl, -⟩ := h
  exact ⟨g.package, g.member, g.document, rfl, g.carries⟩

/-- A line of generations: a call named the first, and each other one was delivered, and verified under the one before. -/
structure IsLine (calls : List TrustCall) (line : List (Carried platform)) : Prop where
  head : ∃ first, line.head? = some first ∧ ∃ c ∈ calls, c.Heads first
  delivered : ∀ g ∈ line.tail, ∃ c ∈ calls, c.door.Delivers g.package
  succeeds : line.IsChain Carried.Succeeds

theorem IsLine.snoc {line : List (Carried platform)} (h : IsLine calls line) (hlast : line.getLast? = some g) (hc : c ∈ calls)
    (hdelivers : c.door.Delivers g'.package) (hsucceeds : g.Succeeds g') : IsLine calls (line ++ [g']) := by
  obtain ⟨⟨first, hfirst, hheads⟩, hdelivered, hchain⟩ := h
  have hne : line ≠ [] := fun hnil => by cases hnil ▸ hfirst
  refine ⟨⟨first, ?_, hheads⟩, fun later hlater => ?_, ?_⟩
  · rw [List.head?_append_of_ne_nil _ hne, hfirst]
  · rw [List.tail_append_of_ne_nil hne] at hlater
    rcases List.mem_append.mp hlater with hlater | hlater
    · exact hdelivered later hlater
    · exact ⟨c, hc, List.mem_singleton.mp hlater ▸ hdelivers⟩
  · refine List.isChain_append.mpr ⟨hchain, List.isChain_singleton _, fun last hlast' next hnext => ?_⟩
    cases hlast.symm.trans hlast'
    cases hnext
    exact hsucceeds

theorem IsLine.rising {line : List (Carried platform)} (h : IsLine calls line) :
    (line.map (·.document.epoch)).Pairwise (· < ·) := by
  refine List.isChain_iff_pairwise.mp ((List.isChain_map _).mpr ?_)
  exact h.succeeds.imp fun _ _ => Carried.Succeeds.lt

theorem Lineage.line (h : Lineage calls g) : ∃ line : List (Carried platform), line.getLast? = some g ∧ IsLine calls line := by
  induction h with
  | @head c g hc h =>
    exact ⟨[g], rfl, ⟨g, rfl, c, hc, h⟩, fun _ hmem => absurd hmem List.not_mem_nil, List.isChain_singleton _⟩
  | @next c g g' hc hdelivers hsucceeds _ ih =>
    obtain ⟨line, hlast, hline⟩ := ih
    exact ⟨line ++ [g'], List.getLast?_concat, hline.snoc hlast hc hdelivers hsucceeds⟩

end

/-! ### One call -/

section Calls
variable {platform : Platform} {surroundings : Surroundings} {root : Bytes} {before d d' start : Disk} {calls steps : List TrustCall}
  {c : TrustCall} {good : List GenerationFile → Prop} {faulty : ReleaseTrustError → Prop} {α : Type}

/-- A door that judges, and then installs a good generation or none. -/
theorem keeps_judged (root : Bytes) {judge : Look α} {f : α → Admission ReleaseTrustError AdmittedGeneration}
    {w : World TrustOp TrustOp.Result Disk} {out : Outcome ReleaseTrustError AdmittedGeneration}
    (hgives : judge.GivesUp (lookDevice platform surroundings) faulty) (hkeeps : before.Keeps good)
    (hjudged : ∀ a, judge.value (lookDevice platform surroundings) before = .ok a →
      (∃ package verified, f a = installVerified root package verified ∧
        good (material package verified.member verified.epoch)) ∨ ∃ admitted, f a = pure admitted)
    (h : Runs (trustDevice platform surroundings) (look judge >>= f) ⟨before, []⟩ out w) : w.state.Keeps good := by
  have hstill : ∀ w', LookedSince ⟨before, []⟩ w' → w'.state.Keeps good := by
    rintro w' ⟨hstate, -⟩
    rwa [show w'.state = before from hstate]
  rcases runs_judged hgives h with ⟨hlooked, -, -⟩ | ⟨a, w₁, hlooked, hvalue, hrest⟩
  · exact hstill _ hlooked
  rcases hjudged a hvalue with ⟨package, verified, hf, hgood⟩ | ⟨admitted, hf⟩
  · rw [hf] at hrest
    obtain ⟨call, hcall, -, -⟩ := runs_installVerified hrest
    rw [← hcall.after]
    refine (Call.moved hcall.went ?_ (hcall.material ▸ hgood)).1
    rw [hcall.before]
    exact hstill _ hlooked
  · rw [hf] at hrest
    cases hrest with
    | ret => exact hstill _ hlooked
    | crash => exact hstill _ hlooked

theorem checkFingerprintPin_ok {lib : Externals} {pin : Option String} {member : Bytes}
    (h : checkFingerprintPin lib pin member = .ok ()) : Pinned lib pin member := by
  rintro pin' rfl
  unfold checkFingerprintPin at h
  dsimp only at h
  split at h
  · assumption
  · cases h

/-- Onto an empty tree comes the pinned package of the source. -/
theorem judgeEmptyTree_pinned {pin : Option String} {source : Look Bytes} {package : Bytes} {verified : VerifiedGeneration}
    (h : (judgeEmptyTree platform.lib root pin source).value (lookDevice platform surroundings) d = .ok (package, verified)) :
    source.value (lookDevice platform surroundings) d = .ok package ∧ Pinned platform.lib pin verified.member := by
  rw [judgeEmptyTree, Prog.value_bind] at h
  obtain ⟨stat, -, h⟩ := Checks.bind_ok h
  split at h
  · rw [Prog.value_bind] at h
    obtain ⟨package', hsource, h⟩ := Checks.bind_ok h
    rw [Prog.value_bind] at h
    obtain ⟨verified', -, h⟩ := Checks.bind_ok h
    rw [Prog.value_bind, Prog.value_lift] at h
    obtain ⟨_, hpin, h⟩ := Checks.bind_ok h
    cases h
    exact ⟨hsource, checkFingerprintPin_ok hpin⟩
  · cases h
  · rw [Prog.value_bind] at h
    obtain ⟨link, -, h⟩ := Checks.bind_ok h
    cases link <;> cases h

theorem readJoinGeneration_ok {package : Bytes}
    (h : (readJoinGeneration root).value (lookDevice platform surroundings) d = .ok package) :
    (LookOp.readRootFile JOIN_GENERATION_FILE).run platform surroundings d = .ok package := by
  rw [readJoinGeneration, Prog.value_bind] at h
  obtain ⟨read, hread, h⟩ := Checks.bind_ok h
  cases read with
  | error kind => cases h
  | ok bytes =>
    cases h
    exact Except.ok.inj hread

/-- What a door verified, as it is carried. -/
def VerifiedGeneration.From.carried {package : Bytes} {verified : VerifiedGeneration} (h : verified.From platform package) :
    Carried platform := ⟨package, verified.member, verified.document, h.1⟩

theorem VerifiedGeneration.From.material_eq {package : Bytes} {verified : VerifiedGeneration}
    (h : verified.From platform package) : material package verified.member verified.epoch = h.carried.files := by
  show _ = material package verified.member verified.document.epoch
  rw [h.2]

/-- A package that the call admits on its caller's word heads a line. -/
theorem lineOf_head {package : Bytes} {verified : VerifiedGeneration} (hfrom : verified.From platform package)
    (hmem : c ∈ calls) (hheads : c.Heads hfrom.carried) :
    LineOf platform calls (material package verified.member verified.epoch) :=
  ⟨hfrom.carried, hfrom.material_eq, .head hmem hheads⟩

/-- On a tree whose generations stand in line, what is judged fit to be installed comes next. -/
theorem Disk.Keeps.lineOf_delivered {package : Bytes} {verified : VerifiedGeneration} (hkeeps : d.Keeps (LineOf platform calls))
    (hmem : c ∈ calls) (hdelivers : c.door.Delivers package)
    (h : (DeployCore.judgeDelivered platform.lib root package).value (lookDevice platform surroundings) d =
      .ok (.install verified)) : LineOf platform calls (material package verified.member verified.epoch) := by
  obtain ⟨active, hactive, hdelivered, -⟩ := judgeDelivered_install h
  rcases hkeeps.shown Disk.mem_views_root with hnone | ⟨generation, _, hshown, g, rfl, hline⟩
  · rw [readActiveGeneration, Prog.value_bind, value_readActiveEpoch_none hnone, Checks.ok_bind] at hactive
    cases hactive
  · obtain ⟨trust, hvalue, hmakes⟩ := @value_readActiveGeneration _ surroundings root _ _ _ _ _ hshown g.carries
    cases hvalue.symm.trans hactive
    exact ⟨hdelivered.carried.carried, hdelivered.carried.material_eq,
      .next hmem hdelivers ⟨trust, verified, hmakes, hdelivered, rfl, rfl⟩ hline⟩

/-- A call that admits one generation makes a line longer, or heads one. -/
theorem TrustCall.keepsLines (hkeeps : c.before.Keeps (LineOf platform calls)) (hwent : c.Went platform)
    (hmem : c ∈ calls ∨ ∃ package, c.door = .accept package ∧ ∃ c' ∈ calls, c'.door.Delivers package)
    (hsingle : ¬c.door.IsChain) : c.after.Keeps (LineOf platform calls) := by
  obtain ⟨door, root, surroundings, before, events, outcome, after⟩ := c
  cases door with
  | chain packages => exact absurd trivial hsingle
  | accept package =>
    obtain ⟨out, hruns, -⟩ := runs_mapEnd.mp hwent
    obtain ⟨c', hc', hdelivers⟩ : ∃ c' ∈ calls, c'.door.Delivers package := by
      rcases hmem with hmem | ⟨_, hdoor, hdelivers⟩
      · exact ⟨_, hmem, rfl⟩
      · cases hdoor
        exact hdelivers
    refine keeps_judged root givesUp_judgeDelivered hkeeps (fun judgement hvalue => ?_) hruns
    cases judgement with
    | unchanged admitted => exact .inr ⟨admitted, rfl⟩
    | install verified => exact .inl ⟨package, verified, rfl, hkeeps.lineOf_delivered hc' hdelivers hvalue⟩
  | rebootstrap package assertedEpoch pin =>
    obtain ⟨out, hruns, -⟩ := runs_mapEnd.mp hwent
    refine keeps_judged root givesUp_judgeRebootstrap hkeeps (fun verified hvalue => ?_) hruns
    obtain ⟨hrecorded, hfrom, hlt, hpin, -⟩ := judgeRebootstrap_ok hvalue
    rw [(hkeeps.mono fun _ => LineOf.good).readActiveEpoch] at hrecorded
    have hmem := hmem.resolve_right (by rintro ⟨_, ⟨⟩, -⟩)
    exact .inl ⟨package, verified, rfl, lineOf_head hfrom hmem ⟨rfl, Except.ok.inj hrecorded, hfrom.2 ▸ hlt, hpin⟩⟩
  | seed package =>
    obtain ⟨out, hruns, -⟩ := runs_mapEnd.mp hwent
    refine keeps_judged root (givesUp_judgeEmptyTree (show Prog.GivesUp _ _ (pure package) from trivial)) hkeeps
      (fun a hvalue => ?_) hruns
    obtain ⟨package', verified⟩ := a
    obtain ⟨hnone, hfrom⟩ := (hkeeps.mono fun _ => LineOf.good).judgeEmptyTree hvalue
    obtain ⟨hsource, -⟩ := judgeEmptyTree_pinned hvalue
    have hmem := hmem.resolve_right (by rintro ⟨_, ⟨⟩, -⟩)
    exact .inl ⟨package', verified, rfl, lineOf_head hfrom hmem ⟨(Except.ok.inj hsource).symm, hnone⟩⟩
  | bootstrap pin =>
    obtain ⟨out, hruns, -⟩ := runs_mapEnd.mp hwent
    refine keeps_judged root (givesUp_judgeEmptyTree givesUp_readJoinGeneration) hkeeps (fun a hvalue => ?_) hruns
    obtain ⟨package, verified⟩ := a
    obtain ⟨hnone, hfrom⟩ := (hkeeps.mono fun _ => LineOf.good).judgeEmptyTree hvalue
    obtain ⟨hsource, hpin⟩ := judgeEmptyTree_pinned hvalue
    have hmem := hmem.resolve_right (by rintro ⟨_, ⟨⟩, -⟩)
    exact .inl ⟨package, verified, rfl, lineOf_head hfrom hmem ⟨readJoinGeneration_ok hsource, hnone, hpin⟩⟩
  | replace package =>
    obtain ⟨out, hruns, -⟩ := runs_mapEnd.mp hwent
    refine keeps_judged root givesUp_verifySelfAdmitted hkeeps (fun verified hvalue => ?_) hruns
    have hmem := hmem.resolve_right (by rintro ⟨_, ⟨⟩, -⟩)
    exact .inl ⟨package, verified, rfl, lineOf_head (verifySelfAdmitted_ok hvalue) hmem rfl⟩

/-! ### Runs -/

theorem Linked.keepsLines (h : Linked d steps d') (hkeeps : d.Keeps (LineOf platform calls))
    (hsteps : ∀ s ∈ steps, s.Went platform ∧ ¬s.door.IsChain ∧
      (s ∈ calls ∨ ∃ package, s.door = .accept package ∧ ∃ c' ∈ calls, c'.door.Delivers package)) :
    d'.Keeps (LineOf platform calls) := by
  induction h with
  | nil => exact hkeeps
  | cons _ ih =>
    obtain ⟨⟨hwent, hsingle, hmem⟩, hrest⟩ := List.forall_mem_cons.mp hsteps
    exact ih (TrustCall.keepsLines hkeeps hwent hmem hsingle) hrest

/-- Each admission that a call consists of is the call's own, or accepts a package that the call delivers. -/
theorem TrustCall.ConsistsOf.delivered (h : c.ConsistsOf platform steps) (hmem : c ∈ calls) :
    ∀ s ∈ steps, s ∈ calls ∨ ∃ package, s.door = .accept package ∧ ∃ c' ∈ calls, c'.door.Delivers package := by
  cases hdoor : c.door with
  | chain packages =>
    rw [TrustCall.ConsistsOf, hdoor] at h
    intro s hs
    obtain ⟨package, hpackage, haccept⟩ := List.mem_map.mp (h.doors.subset (List.mem_map_of_mem hs))
    refine .inr ⟨package, haccept.symm, c, hmem, ?_⟩
    rw [hdoor]
    exact hpackage
  | accept | rebootstrap | seed | bootstrap | replace =>
    rw [TrustCall.ConsistsOf, hdoor] at h
    dsimp only at h
    subst h
    exact List.forall_mem_singleton.mpr (.inl hmem)

/-- The invariant of the runs. -/
theorem TrustRun.keepsLines (hrun : TrustRun platform start calls d) (hstart : start.NothingActive) :
    d.Keeps (LineOf platform calls) := by
  induction hrun with
  | start =>
    intro view hview node hnode
    cases (hstart view hview).symm.trans hnode
  | @call calls c h hwent ih =>
    obtain ⟨steps, hsteps⟩ := TrustCall.consistsOf hwent
    obtain ⟨hlinked, hforall⟩ := hsteps.forall hwent
    have hdelivered := hsteps.delivered (List.mem_append_right calls (List.mem_singleton.mpr rfl))
    refine hlinked.keepsLines (ih.mono fun _ hline => hline.subset (List.subset_append_left _ _)) fun s hs => ?_
    exact ⟨(hforall s hs).1, (hforall s hs).2.1, hdelivered s hs⟩
  | operator h hset ih =>
    exact (ih.frame hset active_not_mem_operatorNames fun _ _ _ _ => generationName_not_mem_operatorNames).1
  | powerLoss h hloss ih => exact (ih.powerLoss hloss).1

/-- Over every run of the doors, whatever state of the root the disk holds: what is active is a complete generation, and
it stands at the end of a line of generations whose first one a call named on its caller's word, each of the others
was delivered and verified under the trust set of the one before it, and the epochs rise along the line. -/
theorem active_descends (hrun : TrustRun platform start calls d) (hstart : start.NothingActive) :
    ∀ view ∈ d.views, ∀ node, find view ACTIVE_LINK = some node →
      ∃ generation, node = .link (generationName generation) ∧
        ∃ line : List (Carried platform), IsLine calls line ∧ (line.map (·.document.epoch)).Pairwise (· < ·) ∧
          ∃ g, line.getLast? = some g ∧
            ∀ view' ∈ d.views, find view' (generationName generation) = some (generationNode g.files) := by
  intro view hview node hnode
  obtain ⟨generation, files, hlink, -, ⟨g, rfl, hdescends⟩, hall⟩ := hrun.keepsLines hstart view hview node hnode
  obtain ⟨line, hlast, hline⟩ := hdescends.line
  exact ⟨generation, hlink, line, hline, hline.rising, g, hlast, hall⟩

/-- What a seed has made active heads its line. -/
theorem active_descends_seeded : ∃ (seed : TrustCall) (line : List (Carried samplePlatform)) (g : Carried samplePlatform),
    IsLine [seed] line ∧ line.getLast? = some g ∧
      find seeded.root (generationName 1) = some (generationNode g.files) := by
  obtain ⟨seed, hrun, -⟩ := exists_seed
  obtain ⟨hlink, -⟩ := of_shown_eq_generation shown_seeded
  obtain ⟨generation, hgeneration, line, hline, -, g, hlast, hall⟩ :=
    active_descends hrun nothingActive_empty _ Disk.mem_views_root _ hlink
  have hgeneration := generationName_injective (Node.link.inj hgeneration)
  exact ⟨seed, line, g, hline, hlast, hgeneration ▸ hall _ Disk.mem_views_root⟩

end Calls

end DeployCore
