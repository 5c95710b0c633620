import DeployCore.LinkAside
import DeployCore.Lib.Checks

/-! # Swapping an artifact (`src/apply.rs`, `src/executor.rs`)

A landing over an artifact that has been backed up. The landing renames a new inode over the entry, so the one that the
backup has linked stays behind `.previous`, whatever becomes of the landing. -/

namespace DeployCore
open Staging Crash

section Landing
variable {c : Creator} {host : LandingHost} {t : FileTree} {dest path : Staging.Path} {plan : LandingPlan}
  {contents : Bytes} {m : FileMeta} {w : LandingWorld} {out : Outcome PutFileError Unit}

/-- A call that creates, if anything, the one file. -/
def LandingOp.CreatesOnly (temp : Staging.Path) (o : LandingOp) : Prop := ∀ path mode, o = .createNew path mode → path = temp

theorem uses_call {temp : Staging.Path} {o : LandingOp} (h : o.CreatesOnly temp) : (call o).Uses (LandingOp.CreatesOnly temp) := by
  refine (Prog.Uses.perform h).bind fun r => ?_
  cases r with
  | ok => trivial
  | error => trivial

theorem uses_landing {temp : Staging.Path} {uid gid mode : Nat} :
    (landing temp dest contents uid gid mode).Uses (LandingOp.CreatesOnly temp) := by
  refine (uses_call ?_).bind fun file => ?_
  · rintro path mode ⟨⟩
    rfl
  refine (uses_call (by rintro _ _ ⟨⟩)).bind fun _ => (uses_call (by rintro _ _ ⟨⟩)).bind fun _ => ?_
  exact (uses_call (by rintro _ _ ⟨⟩)).bind fun _ => (uses_call (by rintro _ _ ⟨⟩)).bind fun _ => uses_call (by rintro _ _ ⟨⟩)

/-- Every creation of a call is the temporary's. -/
theorem uses_putFileNatively (h : host.plan dest m = .ok plan) :
    (putFileNatively host dest contents m).Uses (LandingOp.CreatesOnly plan.temp) := by
  rw [putFileNatively_of_plan h]
  refine uses_landing.attempt.bind fun landed => ?_
  cases landed with
  | ok =>
    refine (Prog.Uses.perform (by rintro _ _ ⟨⟩)).bind fun synced => ?_
    cases synced with
    | ok => trivial
    | error => trivial
  | error e => exact (Prog.Uses.perform (by rintro _ _ ⟨⟩)).bind fun _ => trivial

theorem created_temp (hrun : Runs (landingDevice c) (putFileNatively host dest contents m) ⟨t, []⟩ out w) (hpath : Created w path) :
    ∃ plan, host.plan dest m = .ok plan ∧ path = plan.temp := by
  cases h : host.plan dest m with
  | error e =>
    rw [putFileNatively, h] at hrun
    obtain ⟨e, he, -⟩ := hpath
    cases hrun with
    | fail => exact absurd he List.not_mem_nil
    | crash => exact absurd he List.not_mem_nil
  | ok plan =>
    have hsince := (hrun.of_wp (@wp_since LandingOp LandingRes FileTree PutFileError Unit (landingDevice c) _ ⟨t, []⟩
      (fun _ _ => True) _ (fun _ => trivial) (fun _ _ => trivial) (uses_putFileNatively h) (fun _ _ => trivial)
      fun _ _ => trivial)).1
    obtain ⟨e, he, hcreated⟩ := hpath
    refine ⟨plan, rfl, ?_⟩
    refine hsince.forall (P := fun e => created e = some path → path = plan.temp) (fun e he => absurd he List.not_mem_nil) ?_ e he hcreated
    rintro ⟨o, before, r⟩ hkind hcreated
    cases o with
    | createNew path' mode =>
      have hpath' : path' = plan.temp := hkind path' mode rfl
      rcases r with _ | _ | _
      · cases hcreated
      · cases hcreated
      · cases hcreated
        exact hpath'
    | writeAll | fchown | setPermissions | syncAll | rename | removeFile | syncDir => cases hcreated

/-- A call returns only after a flush that follows a landing. -/
theorem runs_finish_ok {landed : Except IoError Unit} {w' : LandingWorld}
    (hrun : Runs (landingDevice c) (plan.finish dest landed) w (.ok ()) w') : landed.isOk = true ∧ w'.state = w.state := by
  cases landed with
  | error e =>
    cases hrun with
    | op _ hrest => cases hrest
  | ok =>
    cases hrun with
    | op hends hrest =>
      rename_i t' synced
      have hstate : t' = w.state := by
        rcases ends_cases hends with ⟨a, -, hdone⟩ | ⟨e, -, htorn⟩
        · exact (Prod.mk.inj hdone).2.symm
        · exact torn_unchanged htorn (by simp)
      cases synced with
      | ok =>
        cases hrest
        exact ⟨rfl, hstate⟩
      | error e => cases hrest

/-- What a landing that returns has landed. -/
theorem look_of_landed (h : host.plan dest m = .ok plan) (hfree : Unclaimed c t dest plan contents m)
    (hrun : Runs (landingDevice c) (putFileNatively host dest contents m) ⟨t, []⟩ (.ok ()) w) :
    w.state.look dest = some (.file (plan.asked contents m)) := by
  rw [putFileNatively_of_plan h] at hrun
  rcases runs_bind.mp hrun with ⟨landed, w₁, hlanding, hfinish⟩ | ⟨e, he, -⟩ | ⟨he, -⟩
  · obtain ⟨hok, hstate⟩ := runs_finish_ok hfinish
    rw [hstate]
    cases hlook : t.look plan.temp with
    | none =>
      have hsame := (unclaimed_free hlook).mp hfree
      have hafter := (hlanding.of_wp (wp_landing_free hlook fun he => hsame.resolve_left (not_not.mpr he))).2 _ rfl
      exact (hafter.resolve_right fun hno => absurd hno.1 (by simp [hok])).2.target
    | some node =>
      have htaken : t.look plan.temp ≠ none := by simp [hlook]
      have hafter := (hlanding.of_wp (@wp_landing_taken c t dest plan.temp contents (plan.asked contents m) _ _ _ htaken)).2 _ rfl
      exact absurd hafter.1 (by simp [hok])
  · cases he
  · cases he

/-- What a landing does, where no other file stands at its temporary's name. -/
theorem lands_of_unclaimed (hfree : ∀ plan, host.plan dest m = .ok plan → Unclaimed c t dest plan contents m) :
    LandsSafely c host t dest contents m := by
  cases h : host.plan dest m with
  | error e => exact lands_of_no_plan h
  | ok plan => exact lands_of_plan h (hfree plan h)

theorem plan_temp (h : host.plan dest m = .ok plan) : plan.temp.head? = some host.tempName := by
  obtain ⟨stage, -, h⟩ := Checks.bind_ok h
  obtain ⟨uid, -, h⟩ := Checks.bind_ok h
  obtain ⟨gid, -, h⟩ := Checks.bind_ok h
  cases h
  rfl

/-- No temporary of a landing has the suffix. -/
theorem previousOf_ne_temp {artifact : Staging.Path} (h : host.plan dest m = .ok plan) : previousOf artifact ≠ plan.temp := by
  intro he
  obtain ⟨name, hname⟩ : ∃ name, (previousOf artifact).head? = some (name ++ PREVIOUS_ARTIFACT_SUFFIX) := by
    cases artifact with
    | nil => exact ⟨[], rfl⟩
    | cons name dir => exact ⟨name, rfl⟩
  rw [he, plan_temp h] at hname
  have hsuffix : (name ++ PREVIOUS_ARTIFACT_SUFFIX).getLast? = some 115 := by
    rw [List.getLast?_append]
    rfl
  have htemp : host.tempName.getLast? = some 112 := by
    rw [LandingHost.tempName, List.getLast?_append]
    rfl
  rw [Option.some.inj hname, hsuffix] at htemp
  cases htemp

end Landing

section Swap
variable {host : SwapHost} {answers : LandingHost} {pid : Nat} {dest : Staging.Path} {subject name : String}
  {contents : Bytes} {m : FileMeta} {t t' t'' t₃ : FileTree} {out : Outcome PutFileError Unit}

/-- The landing on the host whose entries the backup has linked. -/
def landOver (answers : LandingHost) (dest : Staging.Path) (contents : Bytes) (m : FileMeta) : SwapProg PutFileError Unit :=
  (putFileNatively answers dest contents m).via SwapOp.landing

theorem runs_of_landOver (hgoes : Goes (swapDevice host) (landOver answers dest contents m) t out t') :
    ∃ w, Runs (landingDevice host.creator) (putFileNatively answers dest contents m) ⟨t, []⟩ out w ∧ w.state = t' := by
  obtain ⟨events, hruns⟩ := hgoes
  have hvia : Runs (swapDevice host) ((putFileNatively answers dest contents m).via SwapOp.landing)
      (World.via SwapOp.landing [] ⟨t, []⟩) out ⟨t', events⟩ := hruns
  obtain ⟨w, hrun, hw⟩ := runs_via.mp hvia
  exact ⟨w, hrun, (congrArg World.state hw).symm⟩

/-- A landing, ended or interrupted anywhere, leaves what the backup has linked. -/
theorem landOver_keeps_previous (hfree : ∀ plan, answers.plan dest m = .ok plan → Unclaimed host.creator t dest plan contents m)
    (hgoes : Goes (swapDevice host) (landOver answers dest contents m) t out t') :
    t'.look (previousOf dest) = t.look (previousOf dest) := by
  obtain ⟨w, hrun, rfl⟩ := runs_of_landOver hgoes
  refine (lands_of_unclaimed hfree).others hrun _ ne_previousOf.symm fun hcreated => ?_
  obtain ⟨plan, h, htemp⟩ := created_temp hrun hcreated
  exact previousOf_ne_temp h htemp

end Swap

/-- What a backup of `/o/f` leaves. -/
def backedUpTree : FileTree := (backupArtifact.eval (swapDevice swapHost) ⟨artifactTree, []⟩).2.state

/-- A new artifact for it. -/
def landArtifact : SwapProg PutFileError Unit := landOver rootHost [[102], [111]] [121] ⟨.root, .root, 0o755⟩

end DeployCore
