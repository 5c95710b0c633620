import DeployCore.GenerationRun
import DeployCore.Lib.CrashCompose

/-! # How a call fails

A call over well-formed material, in a tree that reloads nothing, fails with an I/O error, or as its validator
decided of the material. -/

namespace DeployCore
open Directory Crash

variable {ε α : Type} [FromGenerationError ε]

/-- The errors of a call: the engine's own I/O errors, and the validator's refusals of the material. -/
def CallError (host : Host ε) (material : List GenerationFile) (e : ε) : Prop :=
  (∃ path kind, e = fromGenerationError (.io path kind)) ∨ ∃ dir, host.validate dir material = .error e

/-- The validator answers for the material. -/
def Judged (host : Host ε) (material : List GenerationFile) : (o : Op) → o.Result ε → Prop
  | .validate dir files, r => files = material ∧ r = host.validate dir files
  | _, _ => True

section Fails
variable {allowed : (o : Op) → o.Result ε → Prop} {host : Host ε} {root dir name path : Bytes} {material : List GenerationFile}

/-- A failure that the engine tells as an I/O error. -/
theorem failsOnly_fs {o : FsOp} : (fs path o : Engine ε o.Out).FailsOnly allowed (CallError host material) :=
  Prog.FailsOnly.perform.bind fun r => by
    cases r with
    | ok out => trivial
    | error kind => exact .inl ⟨path, kind, rfl⟩

theorem failsOnly_unless_missing {o : FsOp} (path : Bytes) (next : Except ErrorKind o.Out → Engine ε α)
    (hok : ∀ out, (next (.ok out)).FailsOnly allowed (CallError host material))
    (hmissing : (next (.error .notFound)).FailsOnly allowed (CallError host material))
    (herror : ∀ kind, kind ≠ .notFound → next (.error kind) = refuse (.error (.io path kind))) :
    (tryFs o >>= next).FailsOnly allowed (CallError host material) := by
  refine Prog.FailsOnly.perform.bind fun r => ?_
  cases r with
  | ok out => exact hok out
  | error kind =>
    by_cases hkind : kind = .notFound
    · rw [hkind]
      exact hmissing
    · rw [herror kind hkind]
      exact .inl ⟨path, kind, rfl⟩

theorem unchangedGeneration_failsOnly {files : List GenerationFile} :
    (unchangedGeneration root files : Engine ε _).FailsOnly allowed (CallError host material) := by
  have hmatches : ∀ files, (activeMatches root files : Engine ε _).FailsOnly allowed (CallError host material) := by
    intro files
    induction files with
    | nil => trivial
    | cons file rest ih =>
      refine failsOnly_unless_missing (joinPath (joinPath root ACTIVE_LINK) file.name) _ (fun bytes => ih.ite trivial)
        trivial fun kind hkind => ?_
      cases kind <;> first | exact absurd rfl hkind | rfl
  have hcurrent : (currentGeneration root : Engine ε _).FailsOnly allowed (CallError host material) := by
    refine failsOnly_unless_missing (joinPath root ACTIVE_LINK) _ (fun target => trivial) trivial fun kind hkind => ?_
    cases kind <;> first | exact absurd rfl hkind | rfl
  refine hcurrent.bind fun current => ?_
  cases current with
  | none => trivial
  | some generation => exact (hmatches files).bind fun same => by cases same <;> trivial

theorem nextGeneration_failsOnly : (nextGeneration root : Engine ε _).FailsOnly allowed (CallError host material) := by
  have hscan : ∀ (names : List Bytes) max, (maxGeneration root max names : Engine ε _).FailsOnly allowed (CallError host material) := by
    intro names
    induction names with
    | nil => exact fun _ => trivial
    | cons name rest ih => exact fun max => failsOnly_fs.bind fun _ => ih _
  exact failsOnly_fs.bind fun names => (hscan names 0).bind fun max => trivial

theorem removeDirAllIfPresent_failsOnly :
    (removeDirAllIfPresent root name : Engine ε _).FailsOnly allowed (CallError host material) := by
  refine failsOnly_unless_missing (joinPath root name) _ (fun _ => trivial) trivial fun kind hkind => ?_
  cases kind <;> first | exact absurd rfl hkind | rfl

theorem stage_failsOnly {files : List GenerationFile} :
    (stage root dir files : Engine ε _).FailsOnly allowed (CallError host material) :=
  removeDirAllIfPresent_failsOnly.bind fun _ => Prog.FailsOnly.bind failsOnly_fs fun _ =>
    Prog.FailsOnly.each fun _ => failsOnly_fs.bind fun _ => failsOnly_fs.bind fun _ => failsOnly_fs

theorem swapActiveSymlink_failsOnly {generation : UInt64} :
    (swapActiveSymlink root generation : Engine ε _).FailsOnly allowed (CallError host material) := by
  have hremove : (removeFileIfPresent root ACTIVE_TMP : Engine ε _).FailsOnly allowed (CallError host material) := by
    refine failsOnly_unless_missing (joinPath root ACTIVE_TMP) _ (fun _ => trivial) trivial fun kind hkind => ?_
    cases kind <;> first | exact absurd rfl hkind | rfl
  exact hremove.bind fun _ => failsOnly_fs.bind fun _ => failsOnly_fs

theorem publish_failsOnly {tree : GenerationTree} {generation : UInt64} (htree : tree.reloadUnit = none) :
    (publish tree generation : Engine ε _).FailsOnly allowed (CallError host material) := by
  have hprune : (pruneGenerations tree.root generation : Engine ε _).FailsOnly allowed (CallError host material) :=
    failsOnly_fs.bind fun names => Prog.FailsOnly.each fun name => Prog.FailsOnly.bind failsOnly_fs fun _ =>
      removeDirAllIfPresent_failsOnly.ite trivial
  have hreload : (reload tree : Engine ε _).FailsOnly allowed (CallError host material) := by
    rw [reload, htree]
    trivial
  exact failsOnly_fs.bind fun _ => Prog.FailsOnly.bind failsOnly_fs fun _ => Prog.FailsOnly.bind failsOnly_fs fun _ =>
    Prog.FailsOnly.bind swapActiveSymlink_failsOnly fun _ => Prog.FailsOnly.bind failsOnly_fs fun _ =>
      Prog.FailsOnly.bind hreload fun _ => hprune

theorem activateGeneration_failsOnly {tree : GenerationTree} (htree : tree.reloadUnit = none)
    (hcheck : checkMaterial material = .ok ()) :
    (activateGeneration tree material : Engine ε _).FailsOnly (Judged host material) (CallError host material) := by
  rw [activateGeneration, hcheck]
  refine Prog.FailsOnly.bind (p := refuse (.ok ())) trivial fun _ => unchangedGeneration_failsOnly.bind fun current => ?_
  cases current with
  | some generation => trivial
  | none =>
    refine nextGeneration_failsOnly.bind fun generation => Prog.FailsOnly.bind stage_failsOnly fun _ => ?_
    refine Prog.FailsOnly.bind (Prog.FailsOnly.collect fun _ => failsOnly_fs.bind fun _ => trivial) fun copied => ?_
    rintro verdict ⟨rfl, hverdict⟩
    cases verdict with
    | ok => exact (publish_failsOnly htree).bind fun _ => trivial
    | error err => exact fun _ _ => .inr ⟨_, hverdict.symm⟩

end Fails

variable {c : Call ε}

/-- What a call was judged by. -/
theorem Call.Went.judged (hwent : c.Went) : ∀ e ∈ c.events, ∀ r, e.result = some r → Judged c.host c.material e.op r := by
  have hproper : ∀ e ∈ c.events, Proper c.before c.material e := by
    rcases hwent.stops with hlooked | ⟨-, hunswapped | hswapped⟩
    · exact fun e he => (hlooked.looks e he).proper
    · exact hunswapped.proper
    · exact hswapped.proper
  intro e he r hr
  obtain ⟨o, before, result⟩ := e
  rcases Runs.event_ends hwent _ he with hnil | hends
  · exact absurd hnil List.not_mem_nil
  obtain ⟨s, hends⟩ := hends r hr
  have hproper := hproper _ he
  cases o with
  | fs => trivial
  | systemctl => trivial
  | validate dir files =>
    rcases hends with hrun | ⟨hfault, -⟩
    · exact ⟨hproper, (Prod.mk.inj hrun).1⟩
    · exact hfault.elim

/-- A call over well-formed material, in a tree without a unit, fails with an I/O error or as the validator decided. -/
theorem Call.Went.error (hwent : c.Went) (htree : c.tree.reloadUnit = none) (hcheck : checkMaterial c.material = .ok ()) :
    ∀ e, c.outcome = .error e → CallError c.host c.material e :=
  Runs.failsOnly hwent (activateGeneration_failsOnly htree hcheck) hwent.judged

/-- What a call installs, its validator accepted. -/
theorem Call.Went.accepted (hwent : c.Went) {act : Activation} (hok : c.outcome = .ok act) (hchanged : act.changed = true) :
    ∃ dir, c.host.validate dir c.material = .ok () := by
  rcases (Runs.of_wp hwent activateGeneration_call).2 act hok with ⟨hunchanged, -⟩ | ⟨-, -, hswapped, -⟩
  · cases hchanged.symm.trans hunchanged
  · obtain ⟨e, he, dir, before, rfl⟩ := hswapped.accepted
    exact ⟨dir, ((hwent.judged _ he _ rfl).2).symm⟩

end DeployCore
