import DeployCore.GenerationFails
import DeployCore.RoxydTrust

/-! # Activating roxyd's trust material

An activation reads the staged triple and the anchor, and hands the triple to the generation engine, with
`validateMaterial` as the judge of the copy. Whatever the agent stages, over every run of activations what is active is
a triple that was read in one of them and found sound (`active_vouched`), and a triple that is refused changes nothing
that is active (`refused_keeps`). -/

namespace DeployCore
namespace RoxydTrust
open Crash Directory

def ROXYD_CLIENT_ANCHOR_FILE : Bytes := asBytes "client-anchor.pem"

structure RoxydTrustPaths where
  stagingCert : Bytes
  stagingKey : Bytes
  stagingCa : Bytes
  anchor : Bytes
  tlsDir : Bytes
  reloadUnit : String

/-- What the four files read as. -/
structure Reads where
  cert : Except ErrorKind Bytes
  key : Except ErrorKind Bytes
  ca : Except ErrorKind Bytes
  anchor : Except ErrorKind Bytes

section Activate
variable (pki : Pki) (paths : RoxydTrustPaths)

def readFile (path : Bytes) (read : Except ErrorKind Bytes) : Engine TrustError Bytes :=
  Prog.lift (read.mapError fun kind => .io path (.os kind))

/-- The staged triple, under the names that it was staged as. -/
def triple (cert key ca : Bytes) : List GenerationFile :=
  [⟨(fileName paths.stagingCert).getD [], cert⟩, ⟨(fileName paths.stagingKey).getD [], key⟩,
    ⟨(fileName paths.stagingCa).getD [], ca⟩]

/-- The verdict on the copied files. -/
def validateCopied (anchor : Bytes) (nowUnix : UInt64) : List GenerationFile → Except TrustError Unit
  | [cert, key, caBundle] => validateMaterial pki cert.bytes key.bytes caBundle.bytes anchor nowUnix
  | _ => .error (.io paths.tlsDir (.invalidInput "the staged copy is not a cert/key/CA triple"))

def activateWithPaths (reads : Reads) : Engine TrustError Activation := do
  let cert ← readFile paths.stagingCert reads.cert
  let key ← readFile paths.stagingKey reads.key
  let ca ← readFile paths.stagingCa reads.ca
  let _ ← readFile paths.anchor reads.anchor
  activateGeneration ⟨paths.tlsDir, some paths.reloadUnit⟩ (triple paths cert key ca)

end Activate

/-- An activation that was made: what it read, found and did, how it ended and what it left. -/
structure RoxydCall where
  paths : RoxydTrustPaths
  reads : Reads
  nowUnix : UInt64
  systemctl : List String → Except String ExitStatus
  elsewhere : Bytes → Except ErrorKind Bytes
  before : Disk
  events : List (EngineEvent TrustError)
  outcome : Outcome TrustError Activation
  after : Disk

/-- The engine's host; nothing is judged where the anchor did not read. -/
def RoxydCall.host (c : RoxydCall) (pki : Pki) : Host TrustError where
  validate _ := validateCopied pki c.paths (c.reads.anchor.toOption.getD []) c.nowUnix
  systemctl := c.systemctl
  elsewhere := c.elsewhere

def RoxydCall.Went (c : RoxydCall) (pki : Pki) : Prop :=
  Runs (device (c.host pki)) (activateWithPaths c.paths c.reads) ⟨c.before, []⟩ c.outcome ⟨c.after, c.events⟩

/-- The runs that begin at `start`. The installer may write the anchor, which stands in the tree. -/
inductive RoxydRun (pki : Pki) (start : Disk) : List RoxydCall → Disk → Prop
  | start : RoxydRun pki start [] start
  | call {calls} (c : RoxydCall) (h : RoxydRun pki start calls c.before) (hwent : c.Went pki) :
      RoxydRun pki start (calls ++ [c]) c.after
  | anchor {calls d d'} (h : RoxydRun pki start calls d) (hset : d.Frame {ROXYD_CLIENT_ANCHOR_FILE} d') :
      RoxydRun pki start calls d'
  | powerLoss {calls d d'} (h : RoxydRun pki start calls d) (hloss : d.PowerLoss d') : RoxydRun pki start calls d'

/-- The call read these files, and what it read is sound. -/
def RoxydCall.Vouches (c : RoxydCall) (pki : Pki) (files : List GenerationFile) : Prop :=
  ∃ cert key ca anchor, c.reads = ⟨.ok cert, .ok key, .ok ca, .ok anchor⟩ ∧ files = triple c.paths cert key ca ∧
    ∃ p, Sound pki cert key ca anchor c.nowUnix p

/-! ### A call of the engine that its validator judges -/

section Engine
variable {ε : Type} [FromGenerationError ε] {c : Call ε} {good : List GenerationFile → Prop}

/-- What was shown is shown still. -/
def StillShows (d d' : Disk) : Prop :=
  shown d'.root = shown d.root ∧ ∀ view' ∈ d'.views, ∃ view ∈ d.views, shown view' = shown view

theorem StillShows.refl {d : Disk} : StillShows d d := ⟨rfl, fun view hview => ⟨view, hview, rfl⟩⟩

/-- A call whose validator does not accept the material leaves what is active. -/
theorem keeps_of_refused (hwent : c.Went) (hkeeps : c.before.Keeps good) (hno : ∀ dir, c.host.validate dir c.material ≠ .ok ()) :
    c.after.Keeps good ∧ StillShows c.before c.after := by
  by_cases hoccupied : c.before.Occupied
  · obtain ⟨hstuck, -⟩ := Runs.of_wp hwent (activateGeneration_occupied hoccupied)
    exact hkeeps.frame hstuck.frame (fun h => tmpGenerationName_ne_active h.symm)
      fun _ _ _ _ h => tmpGenerationName_ne_generationName h.symm
  rcases hwent.stops with hlooked | ⟨-, hunswapped | hswapped⟩
  · rw [show c.after = c.before from hlooked.state]
    exact ⟨hkeeps, .refl⟩
  · exact hkeeps.frame hunswapped.frame Disk.active_not_mem_scratch
      fun view hview generation hlink => (hkeeps.not_mem_scratch hoccupied hview hlink).1
  · obtain ⟨e, he, dir, before, rfl⟩ := hswapped.accepted
    exact absurd (hwent.judged _ he _ rfl).2.symm (hno dir)

/-- What a call makes active, its validator accepted. -/
theorem keeps_of_accepted (hwent : c.Went) (hkeeps : c.before.Keeps good)
    (hgood : ∀ dir, c.host.validate dir c.material = .ok () → good c.material) : c.after.Keeps good := by
  by_cases hno : ∀ dir, c.host.validate dir c.material ≠ .ok ()
  · exact (keeps_of_refused hwent hkeeps hno).1
  · obtain ⟨dir, haccepted⟩ := not_forall_not.mp hno
    exact (Call.moved hwent hkeeps (hgood dir haccepted)).1

/-- The engine's own errors. -/
def OfEngine (e : ε) : Prop := ∃ error : GenerationError, e = fromGenerationError error

variable {allowed : (o : Op) → o.Result ε → Prop} {host : Host ε} {tree : GenerationTree} {generation : UInt64}
  {material : List GenerationFile}

/-- A host that accepts everything, under which the parts of a call fail with the engine's own errors. -/
def idleHost (ε : Type) : Host ε := ⟨fun _ _ => .ok (), fun _ => .error "", fun _ => .error .notFound⟩

theorem failsOnly_ofEngine {α : Type} {p : Engine ε α} (h : p.FailsOnly allowed (CallError (idleHost ε) [])) :
    p.FailsOnly allowed OfEngine := by
  refine h.mono fun e he => ?_
  rcases he with ⟨path, kind, rfl⟩ | ⟨_, herror⟩
  · exact ⟨_, rfl⟩
  · cases herror

theorem fs_failsOnly {path : Bytes} {o : FsOp} : (fs path o : Engine ε _).FailsOnly allowed OfEngine :=
  failsOnly_ofEngine failsOnly_fs

theorem reload_failsOnly : (reload tree : Engine ε _).FailsOnly allowed OfEngine := by
  unfold reload
  split
  · refine Prog.FailsOnly.perform.bind fun active => ?_
    split
    · refine Prog.FailsOnly.ite (Prog.FailsOnly.perform.bind fun reloaded => ?_) trivial
      split
      · exact .ite trivial ⟨_, rfl⟩
      · exact ⟨_, rfl⟩
    · trivial
  · trivial

theorem publish_failsOnly_ofEngine : (publish tree generation : Engine ε _).FailsOnly allowed OfEngine := by
  have hprune : (pruneGenerations tree.root generation : Engine ε _).FailsOnly allowed OfEngine :=
    fs_failsOnly.bind fun names => Prog.FailsOnly.each fun name => Prog.FailsOnly.bind fs_failsOnly fun _ =>
      (failsOnly_ofEngine removeDirAllIfPresent_failsOnly).ite trivial
  exact fs_failsOnly.bind fun _ => Prog.FailsOnly.bind fs_failsOnly fun _ => Prog.FailsOnly.bind fs_failsOnly fun _ =>
    (failsOnly_ofEngine swapActiveSymlink_failsOnly).bind fun _ => Prog.FailsOnly.bind fs_failsOnly fun _ =>
      reload_failsOnly.bind fun _ => hprune

/-- A call fails with an error of the engine's, or as its validator refused the material. -/
def FailsSo (host : Host ε) (material : List GenerationFile) (e : ε) : Prop :=
  OfEngine e ∨ ∃ dir, host.validate dir material = .error e

theorem activateGeneration_failsSo :
    (activateGeneration tree material : Engine ε _).FailsOnly (Judged host material) (FailsSo host material) := by
  have hengine : ∀ {α : Type} {p : Engine ε α}, p.FailsOnly (Judged host material) OfEngine →
      p.FailsOnly (Judged host material) (FailsSo host material) := fun h => h.mono fun _ => .inl
  have hrefuse : (refuse (checkMaterial material) : Engine ε _).FailsOnly (Judged host material) OfEngine := by
    cases checkMaterial material with
    | ok => trivial
    | error error => exact ⟨error, rfl⟩
  refine (hengine hrefuse).bind fun _ => (hengine (failsOnly_ofEngine unchangedGeneration_failsOnly)).bind fun current => ?_
  cases current with
  | some generation => trivial
  | none =>
    refine (hengine (failsOnly_ofEngine nextGeneration_failsOnly)).bind fun generation =>
      (hengine (failsOnly_ofEngine stage_failsOnly)).bind fun _ => ?_
    refine Prog.FailsOnly.bind (hengine (Prog.FailsOnly.collect fun _ => fs_failsOnly.bind fun _ => trivial)) fun copied => ?_
    rintro verdict ⟨rfl, hverdict⟩
    cases verdict with
    | ok => exact hengine (publish_failsOnly_ofEngine.bind fun _ => trivial)
    | error err => exact fun _ _ => .inr ⟨_, hverdict.symm⟩

theorem failsSo (hwent : c.Went) {e : ε} (hfailed : c.outcome = .error e) : FailsSo c.host c.material e :=
  Runs.failsOnly hwent activateGeneration_failsSo hwent.judged e hfailed

end Engine

/-! ### A call of roxyd's -/

section Calls
variable {pki : Pki} {c : RoxydCall} {calls : List RoxydCall} {start d : Disk} {good : List GenerationFile → Prop}

/-- The call of the engine that an activation makes of what it read. -/
structure EngineCall (c : RoxydCall) (pki : Pki) (cert key ca anchor : Bytes) (e : Call TrustError) : Prop where
  reads : c.reads = ⟨.ok cert, .ok key, .ok ca, .ok anchor⟩
  went : e.Went
  before : e.before = c.before
  after : e.after = c.after
  outcome : e.outcome = c.outcome
  material : e.material = triple c.paths cert key ca
  validate : ∀ dir, e.host.validate dir e.material = validateMaterial pki cert key ca anchor c.nowUnix

/-- An activation that could not read changes nothing, and fails with an I/O error. -/
theorem RoxydCall.Went.engine (hwent : c.Went pki) :
    (c.after = c.before ∧ c.outcome.toOption = none ∧ ∀ e, c.outcome = .error e → ∃ path kind, e = .io path (.os kind)) ∨
      ∃ cert key ca anchor e, EngineCall c pki cert key ca anchor e := by
  obtain ⟨paths, ⟨cert, key, ca, anchor⟩, nowUnix, systemctl, elsewhere, before, events, outcome, after⟩ := c
  have hfails : ∀ {path kind}, Runs (device (RoxydCall.host ⟨paths, ⟨cert, key, ca, anchor⟩, nowUnix, systemctl, elsewhere,
      before, events, outcome, after⟩ pki)) (.fail (.io path (.os kind)) : Engine TrustError Activation) ⟨before, []⟩ outcome
      ⟨after, events⟩ → after = before ∧ outcome.toOption = none ∧ ∀ e, outcome = .error e → ∃ path kind, e = TrustError.io path (.os kind) := by
    intro path kind h
    cases h with
    | fail => exact ⟨rfl, rfl, fun e he => ⟨path, kind, (Outcome.error.inj he).symm⟩⟩
    | crash => exact ⟨rfl, rfl, fun e he => by cases he⟩
  cases cert with
  | error kind => exact .inl (hfails hwent)
  | ok cert =>
  cases key with
  | error kind => exact .inl (hfails hwent)
  | ok key =>
  cases ca with
  | error kind => exact .inl (hfails hwent)
  | ok ca =>
  cases anchor with
  | error kind => exact .inl (hfails hwent)
  | ok anchor =>
    exact .inr ⟨cert, key, ca, anchor, ⟨⟨paths.tlsDir, some paths.reloadUnit⟩, _, triple paths cert key ca, before, events,
      outcome, after⟩, rfl, hwent, rfl, rfl, rfl, rfl, fun _ => rfl⟩

/-- What an activation makes active, it vouches for. -/
theorem RoxydCall.Went.keeps (hwent : c.Went pki) (hdecode : Pem.Canonical pki.decode) (hkeeps : c.before.Keeps good)
    (hgood : ∀ files, c.Vouches pki files → good files) : c.after.Keeps good := by
  rcases hwent.engine with ⟨hsame, -⟩ | ⟨cert, key, ca, anchor, e, hcall⟩
  · rwa [hsame]
  · rw [← hcall.after]
    refine keeps_of_accepted hcall.went (hcall.before ▸ hkeeps) fun dir haccepted => ?_
    rw [hcall.validate, validateMaterial_iff hdecode] at haccepted
    rw [hcall.material]
    exact hgood _ ⟨cert, key, ca, anchor, hcall.reads, rfl, haccepted⟩

theorem parseGeneration_anchor : parseGeneration ROXYD_CLIENT_ANCHOR_FILE = none := rfl

/-- The invariant of the runs. -/
theorem RoxydRun.keeps (hrun : RoxydRun pki start calls d) (hdecode : Pem.Canonical pki.decode)
    (hstart : ∀ view ∈ start.views, find view ACTIVE_LINK = none) :
    d.Keeps fun files => ∃ c ∈ calls, c.Vouches pki files := by
  induction hrun with
  | start =>
    intro view hview node hnode
    cases (hstart view hview).symm.trans hnode
  | @call calls c h hwent ih =>
    refine hwent.keeps hdecode (ih.mono fun files => ?_) fun files hvouches => ?_
    · rintro ⟨c', hc', hvouches⟩
      exact ⟨c', List.mem_append_left _ hc', hvouches⟩
    · exact ⟨c, List.mem_append_right _ (List.mem_singleton.mpr rfl), hvouches⟩
  | anchor h hset ih =>
    refine (ih.frame hset ?_ fun _ _ generation _ hname => ?_).1
    · exact fun hname => absurd (Set.mem_singleton_iff.mp hname) (by decide)
    · have hparse := @parseGeneration_generationName generation
      rw [Set.mem_singleton_iff.mp hname, parseGeneration_anchor] at hparse
      cases hparse
  | powerLoss h hloss ih => exact (ih.powerLoss hloss).1

/-! ### A run that activates -/

def samplePaths : RoxydTrustPaths where
  stagingCert := asBytes "agent/roxyd/roxyd-cert.pem"
  stagingKey := asBytes "agent/roxyd/roxyd-key.pem"
  stagingCa := asBytes "agent/roxyd/ca-bundle.pem"
  anchor := asBytes "roxyd-tls/client-anchor.pem"
  tlsDir := asBytes "roxyd-tls"
  reloadUnit := "roxyd.service"

/-- The installation of the sample triple, under a host that accepts everything. -/
def sampleInstall : Outcome TrustError Activation × World Op (Op.Result TrustError) Disk :=
  (activateGeneration ⟨samplePaths.tlsDir, some samplePaths.reloadUnit⟩ (triple samplePaths samplePem sampleKeyPem samplePem)).eval
    (device (idleHost TrustError)) ⟨⟨[], []⟩, []⟩

def sampleCall : RoxydCall where
  paths := samplePaths
  reads := ⟨.ok samplePem, .ok sampleKeyPem, .ok samplePem, .ok samplePem⟩
  nowUnix := 5
  systemctl _ := .error ""
  elsewhere _ := .error .notFound
  before := ⟨[], []⟩
  events := sampleInstall.2.events
  outcome := .ok ⟨1, true⟩
  after := sampleInstall.2.state

theorem went_sampleCall : sampleCall.Went samplePki := by
  have hok : sampleInstall.1 = .ok ⟨1, true⟩ := Outcome.toOption_eq_some.mp (by decide +kernel)
  have hruns : Runs (device (idleHost TrustError)) (activateGeneration ⟨samplePaths.tlsDir, some samplePaths.reloadUnit⟩
      (triple samplePaths samplePem sampleKeyPem samplePem)) ⟨⟨[], []⟩, []⟩ sampleInstall.1 sampleInstall.2 := Prog.runs_eval _ _
  rw [hok] at hruns
  let c : Call TrustError := ⟨⟨samplePaths.tlsDir, some samplePaths.reloadUnit⟩, idleHost TrustError,
    triple samplePaths samplePem sampleKeyPem samplePem, ⟨[], []⟩, sampleInstall.2.events, .ok ⟨1, true⟩, sampleInstall.2.state⟩
  have hwent : c.Went := hruns
  have haccepted : validateMaterial samplePki samplePem sampleKeyPem samplePem samplePem 5 = .ok () :=
    (validateMaterial_iff Pem.strictDecode_canonical).mpr ⟨_, sound_sample⟩
  refine Runs.congr hruns (fun o s s' htorn => ?_) fun e he r s hr hends => ?_
  · cases o <;> exact htorn
  · have hjudged := hwent.judged e he r hr
    obtain ⟨o, before, result⟩ := e
    cases o with
    | fs | systemctl => exact hends
    | validate dir files =>
      obtain ⟨rfl, rfl⟩ := hjudged
      rcases hends with hrun | ⟨hfault, -⟩
      · refine .inl (hrun.trans ?_)
        exact congrArg (fun verdict => (verdict, before)) haccepted.symm
      · exact hfault.elim

theorem run_sampleCall : RoxydRun samplePki ⟨[], []⟩ [sampleCall] sampleCall.after := .call sampleCall .start went_sampleCall

theorem nothing_active : ∀ view ∈ (⟨[], []⟩ : Disk).views, find view ACTIVE_LINK = none := by
  intro view hview
  cases List.mem_singleton.mp hview
  rfl

/-! ### What holds over the runs -/

/-- Over every run of activations, whatever was staged, and whatever state of the tree the disk holds: what is active is a
complete generation, its files are those that one of the activations read, and they are sound under the anchor and at
the time of that activation. -/
theorem active_vouched (hrun : RoxydRun pki start calls d) (hdecode : Pem.Canonical pki.decode)
    (hstart : ∀ view ∈ start.views, find view ACTIVE_LINK = none) :
    ∀ view ∈ d.views, ∀ node, find view ACTIVE_LINK = some node →
      ∃ generation, node = .link (generationName generation) ∧ ∃ c ∈ calls, ∃ cert key ca anchor,
        c.reads = ⟨.ok cert, .ok key, .ok ca, .ok anchor⟩ ∧ (∃ p, Sound pki cert key ca anchor c.nowUnix p) ∧
          ∀ view' ∈ d.views, find view' (generationName generation) = some (generationNode (triple c.paths cert key ca)) := by
  intro view hview node hnode
  obtain ⟨generation, _, hlink, -, ⟨c, hc, cert, key, ca, anchor, hreads, rfl, hsound⟩, hall⟩ :=
    hrun.keeps hdecode hstart view hview node hnode
  exact ⟨generation, hlink, c, hc, cert, key, ca, anchor, hreads, hsound, hall⟩

/-- Over a run that activates, what is active is the triple that was read. -/
theorem active_vouched_sample : ∃ generation, find sampleCall.after.root ACTIVE_LINK = some (.link (generationName generation)) ∧
    ∃ c ∈ [sampleCall], ∃ cert key ca anchor,
      c.reads = ⟨.ok cert, .ok key, .ok ca, .ok anchor⟩ ∧ (∃ p, Sound samplePki cert key ca anchor c.nowUnix p) ∧
        find sampleCall.after.root (generationName generation) = some (generationNode (triple c.paths cert key ca)) := by
  have hactive : (find sampleCall.after.root ACTIVE_LINK).isSome = true := by decide +kernel
  obtain ⟨node, hnode⟩ := Option.isSome_iff_exists.mp hactive
  obtain ⟨generation, rfl, c, hc, cert, key, ca, anchor, hreads, hsound, hall⟩ :=
    active_vouched run_sampleCall Pem.strictDecode_canonical nothing_active _ Disk.mem_views_root _ hnode
  exact ⟨generation, hnode, c, hc, cert, key, ca, anchor, hreads, hsound, hall _ Disk.mem_views_root⟩

/-- An error that is neither an I/O error nor one of the reload. -/
def TrustError.IsVerdict : TrustError → Prop
  | .io _ _ | .reload _ => False
  | _ => True

theorem not_ofEngine_of_isVerdict {e : TrustError} (h : e.IsVerdict) : ¬OfEngine e := by
  rintro ⟨error, rfl⟩
  cases error <;> exact h

/-- What an activation does to what is active. -/
structure RoxydCall.FailsClosed (pki : Pki) (c : RoxydCall) : Prop where
  /-- It leaves it as it is, or makes active what it read and found sound. -/
  moved : StillShows c.before c.after ∨ ∃ files, c.Vouches pki files ∧
    c.before.Moved c.after (shownGeneration c.before.nextIndex files)
  /-- With a verdict it fails where the triple is refused with that verdict, and then it leaves it as it is. -/
  refused : ∀ e, c.outcome = .error e → e.IsVerdict → StillShows c.before c.after ∧ ∃ cert key ca anchor,
    c.reads = ⟨.ok cert, .ok key, .ok ca, .ok anchor⟩ ∧ validateMaterial pki cert key ca anchor c.nowUnix = .error e
  /-- When it returns a change, what it read and found sound is active, whatever state of the tree the disk holds. -/
  installed : ∀ generation, c.outcome = .ok ⟨generation, true⟩ → ∃ files, c.Vouches pki files ∧
    ∀ view ∈ c.after.views, shown view = some (shownGeneration generation files)

theorem failsClosed_of_engine {cert key ca anchor : Bytes} {e : Call TrustError} (hcall : EngineCall c pki cert key ca anchor e)
    (hdecode : Pem.Canonical pki.decode) (hkeeps : c.before.Keeps good) : c.FailsClosed pki := by
  have hkeeps : e.before.Keeps fun _ => True := hcall.before ▸ hkeeps.mono fun _ _ => trivial
  have hvouches : (∃ dir, e.host.validate dir e.material = .ok ()) → c.Vouches pki e.material := by
    rintro ⟨dir, haccepted⟩
    rw [hcall.validate, validateMaterial_iff hdecode] at haccepted
    exact ⟨cert, key, ca, anchor, hcall.reads, hcall.material, haccepted⟩
  obtain ⟨-, hmoved, -, hreturned⟩ := Call.moved hcall.went hkeeps trivial
  have hrefused : (∀ dir, e.host.validate dir e.material ≠ .ok ()) → StillShows c.before c.after := fun hno => by
    rw [← hcall.before, ← hcall.after]
    exact (keeps_of_refused hcall.went hkeeps hno).2
  rw [hcall.before, hcall.after] at hmoved
  refine ⟨?_, fun err herr hverdict => ?_, fun generation hok => ?_⟩
  · by_cases haccepted : ∃ dir, e.host.validate dir e.material = .ok ()
    · exact .inr ⟨e.material, hvouches haccepted, hmoved⟩
    · exact .inl (hrefused (not_exists.mp haccepted))
  · rcases failsSo hcall.went (hcall.outcome.trans herr) with hengine | ⟨dir, hjudged⟩
    · exact absurd hengine (not_ofEngine_of_isVerdict hverdict)
    · rw [hcall.validate] at hjudged
      refine ⟨hrefused fun dir' haccepted => ?_, cert, key, ca, anchor, hcall.reads, hjudged⟩
      rw [hcall.validate, hjudged] at haccepted
      cases haccepted
  · have hact := hcall.outcome.trans hok
    refine ⟨e.material, hvouches (hcall.went.accepted hact rfl), ?_⟩
    rcases hreturned _ hact with ⟨hunchanged, -⟩ | ⟨hnew, hviews⟩
    · cases hunchanged
    · cases hnew
      rw [← hcall.after]
      exact hviews

/-- Over every run of activations: each leaves what is active or makes sound material active; one that fails with a
verdict has left it, and the verdict is that on what it read; and one that returns a change has made it active. -/
theorem activation_failsClosed (hrun : RoxydRun pki start calls c.before) (hdecode : Pem.Canonical pki.decode)
    (hstart : ∀ view ∈ start.views, find view ACTIVE_LINK = none) (hwent : c.Went pki) : c.FailsClosed pki := by
  rcases hwent.engine with ⟨hsame, hnone, hio⟩ | ⟨_, _, _, _, _, hcall⟩
  · have hstill : StillShows c.before c.after := by
      rw [hsame]
      exact .refl
    refine ⟨.inl hstill, fun e he hverdict => ?_, fun generation hok => ?_⟩
    · obtain ⟨path, kind, rfl⟩ := hio e he
      exact hverdict.elim
    · rw [hok] at hnone
      cases hnone
  · exact failsClosed_of_engine hcall hdecode (hrun.keeps hdecode hstart)

/-- The sample call returns a change, and has made what it read active. -/
theorem activation_failsClosed_sample : ∃ files, sampleCall.Vouches samplePki files ∧
    ∀ view ∈ sampleCall.after.views, shown view = some (shownGeneration 1 files) := by
  have hrun : RoxydRun samplePki sampleCall.before [] sampleCall.before := .start
  exact (activation_failsClosed hrun Pem.strictDecode_canonical nothing_active went_sampleCall).installed 1 rfl

end Calls

end RoxydTrust
end DeployCore
