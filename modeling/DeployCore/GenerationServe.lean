import DeployCore.GenerationRun

/-! # What an activation serves

After a call that returns, the active link serves the material, whether the call installed it or found it
installed (`activation_serves`). -/

namespace DeployCore
open Directory Crash

/-- The active generation was installed from this material. -/
structure Disk.InstalledFrom (d : Disk) (generation : UInt64) (material : List GenerationFile) : Prop where
  checked : checkMaterial material = .ok ()
  active : find d.root ACTIVE_LINK = some (.link (generationName generation))
  directory : find d.root (generationName generation) = some (generationNode material)

/-- The entries of the directory the active link names. -/
def Disk.activeEntries (d : Disk) : Option Entries :=
  match find d.root ACTIVE_LINK with
  | some (.link target) =>
    match find d.root target with
    | some (.dir entries _) => some entries
    | _ => none
  | _ => none

/-- Every file of the material reads through the active link. -/
def Disk.ServesFiles (d : Disk) (material : List GenerationFile) : Prop :=
  ∀ elsewhere, ∀ file ∈ material, d.read elsewhere ACTIVE_LINK file.name = .ok file.bytes

/-- The active generation holds no other file than the material's. -/
def Disk.HoldsOnly (d : Disk) (material : List GenerationFile) : Prop :=
  ∃ entries, d.activeEntries = some entries ∧ ∀ name ∈ names entries, name ∈ material.map (·.name)

/-- A call over the material changes nothing: it only looks, and what it returns is this generation, unchanged,
as it does when no operation fails. -/
def Disk.Settles (ε : Type) [FromGenerationError ε] (d : Disk) (material : List GenerationFile) (generation : UInt64) :
    Prop :=
  ∀ (tree : GenerationTree) (host : Host ε),
    (∀ out w, Runs (device host) (activateGeneration tree material) ⟨d, []⟩ out w →
      w.state = d ∧ (∀ e ∈ w.events, e.op.Looks) ∧ ∀ act, out = .ok act → act = ⟨generation, false⟩) ∧
    ((activateGeneration tree material).eval (device host) ⟨d, []⟩).1 = .ok ⟨generation, false⟩

variable {ε : Type} {d : Disk} {generation : UInt64} {material : List GenerationFile}
  {elsewhere : Bytes → Except ErrorKind Bytes} {name bytes : Bytes}

theorem readEntry_fileEntries {path : Bytes} (hnodup : (material.map (·.name)).Nodup) :
    readEntry elsewhere path (fileEntries material) name = .ok bytes ↔ ⟨name, bytes⟩ ∈ material := by
  constructor
  · intro h
    by_cases hmem : name ∈ material.map (·.name)
    · obtain ⟨file, hfile, rfl⟩ := List.mem_map.mp hmem
      rw [readEntry, find_fileEntries hnodup hfile] at h
      cases h
      exact hfile
    · rw [readEntry, find_fileEntries_none hmem] at h
      cases h
  · intro h
    rw [readEntry, find_fileEntries hnodup h]

namespace Disk.InstalledFrom

theorem current (h : d.InstalledFrom generation material) : d.current = some generation := by
  rw [Disk.current, h.active]
  exact parseGeneration_generationName

/-- What reads through the active link is what was installed. -/
theorem read_iff (h : d.InstalledFrom generation material) :
    d.read elsewhere ACTIVE_LINK name = .ok bytes ↔ ⟨name, bytes⟩ ∈ material := by
  rw [Disk.read, h.active]
  simp only [h.directory, generationNode]
  exact readEntry_fileEntries (nodup_of_checkMaterial h.checked)

theorem activeEntries (h : d.InstalledFrom generation material) : d.activeEntries = some (fileEntries material) := by
  simp only [Disk.activeEntries, h.active, h.directory, generationNode]

theorem holdsOnly {material' : List GenerationFile} (h : d.InstalledFrom generation material)
    (hnames : ∀ name, name ∈ material.map (·.name) ↔ name ∈ material'.map (·.name)) : d.HoldsOnly material' := by
  refine ⟨_, h.activeEntries, fun name hname => (hnames name).mp ?_⟩
  by_contra hnot
  exact mem_names.mp hname (find_fileEntries_none hnot)

end Disk.InstalledFrom

section Calls
variable [FromGenerationError ε] {host : Host ε} {tree : GenerationTree} {root : Bytes} {w w' : Scene ε}

theorem checked_of_ok {act : Activation}
    (h : Runs (device host) (activateGeneration tree material) w (.ok act) w') : checkMaterial material = .ok () := by
  cases hcheck : checkMaterial material with
  | ok => rfl
  | error e =>
    rw [activateGeneration, hcheck] at h
    cases h

theorem eval_currentGeneration (host : Host ε) (root : Bytes) {target : Bytes} (h : find w.state.root ACTIVE_LINK = some (.link target)) :
    ∃ w', (currentGeneration root).eval (device host) w = (.ok (parseGeneration target), w') ∧ w'.state = w.state := by
  have hrun : (device host).run (.fs (.readLink ACTIVE_LINK)) w.state = (.ok target, w.state) := by
    simp only [device, FsOp.run, h]
  refine ⟨w.record (.fs (.readLink ACTIVE_LINK)) (some (.ok target)) w.state, ?_, rfl⟩
  refine (Prog.eval_bind (f := fun r => _) (a := .ok target) ?_).trans rfl
  simp only [tryFs, Prog.perform, Prog.eval, hrun]

theorem eval_activeMatches (root : Bytes)
    (h : ∀ file ∈ material, w.state.read host.elsewhere ACTIVE_LINK file.name = .ok file.bytes) :
    ∃ w', (activeMatches root material).eval (device host) w = (.ok true, w') ∧ w'.state = w.state := by
  induction material generalizing w with
  | nil => exact ⟨w, rfl, rfl⟩
  | cons file rest ih =>
    obtain ⟨hfile, hrest⟩ := List.forall_mem_cons.mp h
    have hrun : (device host).run (.fs (.readFile ACTIVE_LINK file.name)) w.state = (.ok file.bytes, w.state) := by
      simp only [device, FsOp.run, hfile, Except.map]
    have hread : (tryFs (.readFile ACTIVE_LINK file.name) : Engine ε _).eval (device host) w =
        (.ok (.ok file.bytes), w.record (.fs (.readFile ACTIVE_LINK file.name)) (some (.ok file.bytes)) w.state) := by
      simp only [tryFs, Prog.perform, Prog.eval, hrun]
    obtain ⟨w', hw', hstate⟩ := ih (w := w.record (.fs (.readFile ACTIVE_LINK file.name))
      (some (.ok file.bytes)) w.state) hrest
    refine ⟨w', ?_, hstate⟩
    rw [activeMatches, Prog.eval_bind hread]
    simp only [if_pos]
    exact hw'

/-- A tree whose active generation was installed from the material settles. -/
theorem Disk.InstalledFrom.settles {material' : List GenerationFile} (h : d.InstalledFrom generation material)
    (hcheck : checkMaterial material' = .ok ()) (hserved : d.ServesFiles material') :
    d.Settles ε material' generation := by
  intro tree host
  have hmatches : d.Matches host material' generation := ⟨h.current, hserved host.elsewhere⟩
  refine ⟨fun out w hruns => ?_, ?_⟩
  · obtain ⟨hstops, hreturns⟩ := Runs.of_wp hruns activateGeneration_call
    have hlooked : Looked d w := hstops.resolve_right fun hallocates => hallocates.1.changed generation hmatches
    refine ⟨hlooked.state, hlooked.looks, fun act hact => ?_⟩
    rcases hreturns act hact with ⟨hchanged, -, hcurrent⟩ | ⟨-, hallocates, -⟩
    · obtain ⟨generation', changed⟩ := act
      cases hchanged
      cases Option.some.inj (h.current.symm.trans hcurrent.current)
      rfl
    · exact absurd hmatches (hallocates.changed generation)
  · obtain ⟨w₁, hcurrent, hstate₁⟩ := eval_currentGeneration host tree.root (w := ⟨d, []⟩) h.active
    rw [parseGeneration_generationName] at hcurrent
    have hserved₁ : ∀ file ∈ material', w₁.state.read host.elsewhere ACTIVE_LINK file.name = .ok file.bytes := by
      rw [hstate₁]
      exact hserved host.elsewhere
    obtain ⟨w₂, hall, -⟩ := eval_activeMatches tree.root hserved₁
    have hunchanged : (unchangedGeneration tree.root material').eval (device host) ⟨d, []⟩ =
        (.ok (some generation), w₂) := by
      rw [unchangedGeneration, Prog.eval_bind hcurrent]
      exact (Prog.eval_bind hall).trans rfl
    have hrefuse : (refuse (.ok ()) : Engine ε Unit).eval (device host) ⟨d, []⟩ = (.ok (), ⟨d, []⟩) := rfl
    rw [activateGeneration, hcheck, Prog.eval_bind hrefuse, Prog.eval_bind hunchanged]
    rfl

/-- A call that returns, on a tree whose active generation was installed by a call. Its material is served; the
active generation holds nothing else when the call installed it, or when the one that did had the same names; the
validator judged the material, and accepted it if the call installed it; and another call changes nothing. -/
theorem activation_serves {c : Call ε} {act : Activation} (hwent : c.Went) (hok : c.outcome = .ok act)
    (hinstalled : ∀ generation, c.before.current = some generation →
      ∃ material, c.before.InstalledFrom generation material) :
    c.after.ServesFiles c.material ∧
    (act.changed = true → c.after.HoldsOnly c.material) ∧
    (act.changed = false → ∀ material, c.before.InstalledFrom act.generation material →
      (∀ name, name ∈ material.map (·.name) ↔ name ∈ c.material.map (·.name)) → c.after.HoldsOnly c.material) ∧
    (∀ e ∈ c.events, ∀ dir files, e.op = .validate dir files → files = c.material ∧ c.after.ServesFiles files) ∧
    (act.changed = true → c.Accepted) ∧
    c.after.Settles ε c.material act.generation := by
  have hcheck : checkMaterial c.material = .ok () := by
    rw [Call.Went, hok] at hwent
    exact checked_of_ok hwent
  rcases (Runs.of_wp hwent activateGeneration_call).2 act hok with ⟨hchanged, hlooked, hmatches⟩ | ⟨hact, -, hswapped, hinst⟩
  · -- the material was active already
    have hstate : c.after = c.before := hlooked.state
    obtain ⟨old, hold⟩ := hinstalled _ hmatches.current
    have hserved : c.after.ServesFiles c.material := by
      intro elsewhere file hfile
      rw [hstate]
      exact hold.read_iff.mpr (hold.read_iff.mp (hmatches.served file hfile))
    have hlooks : ∀ e ∈ c.events, ∀ dir files, e.op = .validate dir files →
        files = c.material ∧ c.after.ServesFiles files := by
      intro e he dir files hop
      have h := hlooked.looks e he
      rw [hop] at h
      exact h.elim
    refine ⟨hserved, fun h => ?_, fun _ material hm hnames => hstate ▸ hm.holdsOnly hnames, hlooks, fun h => ?_,
      (hstate ▸ hold : c.after.InstalledFrom _ _).settles hcheck hserved⟩
    · rw [hchanged] at h
      cases h
    · rw [hchanged] at h
      cases h
  · subst hact
    obtain ⟨hactive, hdirectory⟩ := hinst.shows c.after.root Disk.mem_views_root
    have hnew : c.after.InstalledFrom c.before.nextIndex c.material := ⟨hcheck, hactive, hdirectory⟩
    have hserved : c.after.ServesFiles c.material := fun elsewhere file hfile => hnew.read_iff.mpr hfile
    refine ⟨hserved, fun _ => hnew.holdsOnly fun _ => Iff.rfl, fun h => (nomatch h), fun e he dir files hop => ?_,
      fun _ => hswapped.accepted, hnew.settles hcheck hserved⟩
    have hproper := hswapped.proper e he
    unfold Proper at hproper
    rw [hop] at hproper
    exact ⟨hproper, hproper ▸ hserved⟩

theorem activation_serves_second_call :
    (wholeCall secondMaterial (wholeCall firstMaterial ⟨[], []⟩).after).outcome = .ok ⟨2, true⟩ ∧
      (wholeCall secondMaterial (wholeCall firstMaterial ⟨[], []⟩).after).after.ServesFiles secondMaterial ∧
      (wholeCall secondMaterial (wholeCall firstMaterial ⟨[], []⟩).after).Accepted := by
  have hok : (wholeCall secondMaterial (wholeCall firstMaterial ⟨[], []⟩).after).outcome = .ok ⟨2, true⟩ := rfl
  have hfirst : (wholeCall firstMaterial ⟨[], []⟩).after.InstalledFrom 1 firstMaterial := ⟨by decide, rfl, rfl⟩
  obtain ⟨hserves, -, -, -, haccepted, -⟩ := activation_serves wholeCall_went hok fun generation hcurrent => by
    have hone : some 1 = some generation := hfirst.current.symm.trans hcurrent
    exact ⟨firstMaterial, Option.some.inj hone ▸ hfirst⟩
  exact ⟨hok, hserves, haccepted rfl⟩

end Calls

end DeployCore
