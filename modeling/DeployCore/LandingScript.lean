import DeployCore.MakeDir
import DeployCore.PutNatively

/-! # The landing script (`src/executor.rs`)

`PUT_FILE_SCRIPT` as a program, each of its commands a step that may fail or be the last. A path is looked up from the
root, in a tree without links. What the host tells ahead of the first change is a parameter, as is what `mktemp`
draws. -/

namespace DeployCore
open Staging Crash

def LandedFile.write (contents : Bytes) (file : LandedFile) : LandedFile := { file with contents }

/-- The tree with the file at a path changed. -/
def FileTree.onFile (t : FileTree) (path : Staging.Path) (f : LandedFile → LandedFile) : Option FileTree :=
  (t.dir.find path).map fun ino => t.modify ino (.onFile f)

/-- `mv -f -T`, which refuses to move a file onto itself. -/
def FileTree.moveOver (t : FileTree) (source dest : Staging.Path) : Option FileTree :=
  if t.dir.find source = t.dir.find dest then none else (t.rename source dest).toOption

namespace LandingScript

/-- What `stat` tells on a host, who runs the script there, whose its accounts and groups are, and what `mktemp` puts in
place of the letters of its template. -/
structure ScriptHost where
  probe : Probe
  creator : Creator
  account : Bytes → Option Nat
  group : Bytes → Option Nat
  drawn : Bytes

/-- The commands of the script that change the tree or look at what they changed. -/
inductive ScriptOp
  | mktemp (path : Staging.Path)
  | cat (path : Staging.Path) (stdin : Bytes)
  | chown (path : Staging.Path) (owner group : Bytes)
  | chmod (path : Staging.Path) (mode : Bytes)
  | sync (path : Staging.Path)
  | inode (path : Staging.Path)
  | mv (source : Staging.Path) (dest : Bytes)
  | findWritten (dest : Staging.Path) (ino : Option Nat) (owner group mode : Bytes)
  | rm (path : Staging.Path)

/-- What a command prints. -/
abbrev ScriptOp.Out : ScriptOp → Type
  | .inode _ => Nat
  | .findWritten _ _ _ _ _ => Bool
  | _ => Unit

/-- What comes of a command: none where it fails. -/
abbrev ScriptRes (o : ScriptOp) : Type := Option o.Out

/-- A command that succeeds where it changes the tree. -/
def changes (t : FileTree) (changed : Option FileTree) : Option Unit × FileTree :=
  match changed with
  | some t' => (some (), t')
  | none => (none, t)

/-- Whether a path ends in a name, and not in a slash or a dot. -/
def endsInName (path : Bytes) : Bool :=
  (path.splitOn SLASH).getLast?.any fun name => name ≠ [] && name ≠ [DOT] && name ≠ [DOT, DOT]

/-- The numbers that an owner, a group and a mode stand for, where all of them do. -/
def ScriptHost.metaOf (host : ScriptHost) (owner group mode : Bytes) : Option (Nat × Nat × Nat) := do
  let uid ← host.account owner
  let gid ← host.group group
  let mode ← parseMode mode
  some (uid, gid, mode)

/-- Whether `find -inum -user -group -perm` prints an entry. -/
def ScriptHost.matches (host : ScriptHost) (t : FileTree) (dest : Staging.Path) (ino : Option Nat)
    (owner group mode : Bytes) : Bool :=
  match t.look dest, host.metaOf owner group mode with
  | some (.file file), some (uid, gid, mode) =>
    ino.isSome && t.dir.find dest = ino && (file.uid, file.gid, file.mode) = (uid, gid, mode)
  | _, _ => false

/-- What a command that runs to its end prints and leaves. -/
def ScriptOp.run (host : ScriptHost) : (o : ScriptOp) → FileTree → ScriptRes o × FileTree
  | .mktemp path, t =>
    changes t (if t.dir.find path = none then some (t.create path (.file (host.creator.file STAGING_TEMP_MODE)))
      else none)
  | .cat path stdin, t => changes t (t.onFile path (.write stdin))
  | .chown path owner group, t =>
    changes t do t.onFile path (.chown (← host.account owner) (← host.group group))
  | .chmod path mode, t => changes t do t.onFile path (.chmod (← parseMode mode))
  | .sync _, t => (some (), t)
  | .inode path, t => (t.dir.find path, t)
  | .mv source dest, t => changes t (if endsInName dest then t.moveOver source (resolve dest) else none)
  | .findWritten dest ino owner group mode, t => (some (host.matches t dest ino owner group mode), t)
  | .rm path, t => changes t (t.removeFile path).toOption

/-- What a command leaves that fails or is the last: all as it was, but for the bytes that `cat` has put down. -/
inductive ScriptOp.Torn : ScriptOp → FileTree → FileTree → Prop
  | unchanged {o t} : Torn o t t
  | written {path stdin n t t'} (h : t.onFile path (.write (stdin.take n)) = some t') : Torn (.cat path stdin) t t'

def scriptDevice (host : ScriptHost) : Device ScriptOp ScriptRes FileTree where
  run o t := o.run host t
  fault _ r := r = none
  torn := ScriptOp.Torn

/-! ## The script -/

/-- Why a script has exited with a status other than zero: its own complaint, or a command of it that failed. -/
inductive ScriptExit
  | complaint (message : Bytes)
  | command
  deriving DecidableEq

abbrev ScriptProg := Prog ScriptOp ScriptRes ScriptExit

/-- A command under `set -e`. -/
def command (o : ScriptOp) : ScriptProg o.Out := do
  let printed ← Prog.perform o
  match printed with
  | some out => pure out
  | none => .fail .command

/-- `flush`, which only ever warns. -/
def flush (path : Staging.Path) : ScriptProg Unit := do
  let _ ← Prog.perform (ScriptOp.sync path)
  pure ()

/-- From the last flush to the end. -/
def confirm (dest : Bytes) (ino : Option Nat) (owner group mode : Bytes) : ScriptProg Unit := do
  flush (resolve (dirnameOf dest))
  let found ← command (.findWritten (resolve dest) ino owner group mode)
  if found then pure ()
  else .fail (.complaint (asBytes "destination " ++ dest ++ asBytes " is not the file just written"))

/-- What the script does under its trap. -/
def landThrough (temp : Staging.Path) (dest owner group mode stdin : Bytes) : ScriptProg Unit := do
  command (.cat temp stdin)
  command (.chown temp owner group)
  command (.chmod temp mode)
  flush temp
  let ino ← Prog.perform (ScriptOp.inode temp)
  command (.mv temp dest)
  confirm dest ino owner group mode

/-- `trap 'rm -f "$tmp"' EXIT`. -/
def trapped (temp : Staging.Path) (body : ScriptProg Unit) : ScriptProg Unit := do
  let ended ← body.attempt
  match ended with
  | .ok () => pure ()
  | .error reason => do
    let _ ← Prog.perform (ScriptOp.rm temp)
    .fail reason

/-- The file `mktemp` makes in a stage. -/
def ScriptHost.tempIn (host : ScriptHost) (stage : Bytes) : Staging.Path :=
  resolve (stage ++ asBytes "/.bootler." ++ host.drawn)

/-- `PUT_FILE_SCRIPT` with its parameters and its standard input. -/
def putFileScript (host : ScriptHost) (dest owner group mode stdin : Bytes) : ScriptProg Unit :=
  if isDir host.probe dest then .fail (.complaint (asBytes "destination " ++ dest ++ asBytes " is a directory"))
  else if fsid host.probe (dirnameOf dest) = none then
    .fail (.complaint (asBytes "cannot determine the filesystem holding " ++ dest))
  else
    match (stageScript host.probe host.creator.uid dest).join with
    | none => .fail (.complaint
        (asBytes "no staging directory only the writer can write on the filesystem holding " ++ dest))
    | some stage => do
      command (.mktemp (host.tempIn stage))
      trapped (host.tempIn stage) (landThrough (host.tempIn stage) dest owner group mode stdin)

/-! ## What it lands -/

abbrev ScriptWorld := World ScriptOp ScriptRes FileTree

/-- The file with the owner, group and mode that are asked for, where there are such. -/
def ScriptHost.asked (host : ScriptHost) (owner group mode contents : Bytes) : Option LandedFile :=
  (host.metaOf owner group mode).map fun (uid, gid, mode) => ⟨contents, uid, gid, mode⟩

/-- Where the temporary is made, where the script comes to make it. -/
def ScriptHost.temp (host : ScriptHost) (dest : Bytes) : Option Staging.Path :=
  (stageScript host.probe host.creator.uid dest).join.map host.tempIn

/-- No entry but the temporary's has changed, other than the destination's, which is the file asked for; and no other
file was moved. -/
structure Lands (t : FileTree) (temp : Option Staging.Path) (dest : Staging.Path) (asked : Option LandedFile)
    (w : ScriptWorld) : Prop where
  entries : ∀ path, some path ≠ temp → w.state.look path = t.look path ∨
    path = dest ∧ ∃ file, asked = some file ∧ w.state.look path = some (.file file)
  moves : ∀ e ∈ w.events, ∀ source dest', e.op = .mv source dest' →
    ∃ file, asked = some file ∧ e.before.look source = some (.file file)

/-- The commands that only look. -/
inductive ScriptOp.Looks : ScriptOp → Prop
  | sync {path} : Looks (.sync path)
  | inode {path} : Looks (.inode path)
  | findWritten {path ino owner group mode} : Looks (.findWritten path ino owner group mode)

section Moments
variable {host : ScriptHost} {t t' t'' : FileTree} {temp target path : Staging.Path}
  {dest owner group mode stdin : Bytes} {asked : Option LandedFile} {f : LandedFile → LandedFile}
  {file file' : LandedFile} {w : ScriptWorld} {o : ScriptOp} {r : Option (ScriptRes o)}
  {temp? : Option Staging.Path} {stop : ScriptWorld → Prop} {α β : Type}

theorem changes_none {changed : Option FileTree} (h : changes t changed = (none, t')) : t' = t := by
  cases changed with
  | none => exact (Prod.mk.inj h).2.symm
  | some t'' => cases h

theorem changes_some {changed : Option FileTree} {out : Unit} (h : changes t changed = (some out, t')) :
    changed = some t' := by
  cases changed with
  | none => cases h
  | some t'' => rw [← (Prod.mk.inj h).2]

theorem run_none (h : o.run host t = (none, t')) : t' = t := by
  cases o with
  | mktemp | cat | chown | chmod | mv | rm => exact changes_none h
  | inode => exact (Prod.mk.inj h).2.symm
  | sync | findWritten => cases h

/-- A command runs to its end and succeeds, or leaves what one that does not may leave. -/
theorem ends_cases {printed : ScriptRes o} (h : (scriptDevice host).Ends o t printed t') :
    (∃ out, printed = some out ∧ o.run host t = (some out, t')) ∨ printed = none ∧ o.Torn t t' := by
  rcases h with h | ⟨rfl, htorn⟩
  · have hrun : o.run host t = (printed, t') := h.symm
    cases printed with
    | some out => exact .inl ⟨out, rfl, hrun⟩
    | none =>
      cases run_none hrun
      exact .inr ⟨rfl, .unchanged⟩
  · exact .inr ⟨rfl, htorn⟩

theorem torn_unchanged (h : o.Torn t t') (hcat : ∀ path stdin, o ≠ .cat path stdin) : t' = t := by
  cases h with
  | unchanged => rfl
  | written => exact absurd rfl (hcat _ _)

theorem ScriptOp.Looks.torn (ho : o.Looks) (h : o.Torn t t') : t' = t := by
  cases ho <;> exact torn_unchanged h (by rintro _ _ ⟨⟩)

theorem ScriptOp.Looks.run (ho : o.Looks) {printed : ScriptRes o} (h : o.run host t = (printed, t')) : t' = t := by
  cases ho <;> exact (Prod.mk.inj h).2.symm

theorem ScriptOp.Looks.ends (ho : o.Looks) {printed : ScriptRes o} (h : (scriptDevice host).Ends o t printed t') :
    t' = t := by
  rcases ends_cases h with ⟨out, rfl, hrun⟩ | ⟨rfl, htorn⟩
  · exact ho.run hrun
  · exact ho.torn htorn

/-- At every moment of a program, and where it has ended or failed. -/
abbrev Throughout (host : ScriptHost) (stop : ScriptWorld → Prop) (p : ScriptProg α) (w : ScriptWorld) : Prop :=
  wp (scriptDevice host) (fun _ => stop) stop p w

/-- One command under `set -e`: what holds where it does not succeed, and what the rest needs where it does. -/
theorem throughout_command {next : o.Out → ScriptProg β} (hstop : stop w)
    (hcut : ∀ r t', o.Torn w.state t' → stop (w.record o r t'))
    (hok : ∀ out t', o.run host w.state = (some out, t') →
      Throughout host stop (next out) (w.record o (some (some out)) t')) :
    Throughout host stop (command o >>= next) w := by
  refine ⟨hstop, fun t' htorn => hcut none t' htorn, fun printed t' hends => ?_⟩
  rcases ends_cases hends with ⟨out, rfl, hrun⟩ | ⟨rfl, htorn⟩
  · exact hok out t' hrun
  · exact hcut _ t' htorn

/-- One command that changes nothing, and whose failure the script goes on after. -/
theorem throughout_look {next : ScriptRes o → ScriptProg β} (ho : o.Looks) (hstop : stop w)
    (hlook : ∀ r, stop (w.record o r w.state))
    (hnext : ∀ printed, Throughout host stop (next printed) (w.record o (some printed) w.state)) :
    Throughout host stop (Prog.perform o >>= next) w := by
  refine ⟨hstop, fun t' htorn => ?_, fun printed t' hends => ?_⟩
  · rw [ho.torn htorn]
    exact hlook none
  · rw [ho.ends hends]
    exact hnext printed

theorem flush_bind {next : Unit → ScriptProg β} :
    flush path >>= next = Prog.perform (.sync path) >>= fun _ => next () := rfl

/-! ### The tree -/

theorem staged_onFile (h : t.Staged temp file t') (hf : t'.onFile temp f = some t'') : t.Staged temp (f file) t'' := by
  rw [FileTree.onFile, h.find] at hf
  exact Option.some.inj hf ▸ h.modify f

theorem staged_moveOver (h : t.Staged temp file t') (hok : t'.moveOver temp target = some t'') :
    t''.look target = some (.file file) ∧ ∀ path, path ≠ target → path ≠ temp → t''.look path = t.look path := by
  rw [FileTree.moveOver] at hok
  split_ifs at hok
  cases hrename : t'.rename temp target with
  | error e =>
    rw [hrename] at hok
    cases hok
  | ok moved =>
    rw [hrename] at hok
    exact h.rename (hrename.trans (congrArg _ (Option.some.inj hok)))

/-! ### Every moment of the script -/

theorem lands_start : Lands t temp? target asked ⟨t, []⟩ := ⟨fun _ _ => .inl rfl, fun _ he => absurd he List.not_mem_nil⟩

theorem Lands.record (h : Lands t temp? target asked w) (ho : ∀ source dest', o ≠ .mv source dest')
    (ht : ∀ path, some path ≠ temp? → t'.look path = w.state.look path) :
    Lands t temp? target asked (w.record o r t') := by
  refine ⟨fun path hpath => ?_, World.forall_record h.moves fun source dest' hmove => absurd hmove (ho _ _)⟩
  rw [World.state_record, ht path hpath]
  exact h.entries path hpath

/-- The temporary is there, and nothing has been moved. -/
structure InStage (t : FileTree) (temp : Staging.Path) (file : LandedFile) (w : ScriptWorld) : Prop where
  staged : t.Staged temp file w.state
  unmoved : ∀ e ∈ w.events, ∀ source dest', e.op ≠ .mv source dest'

theorem InStage.lands (h : InStage t temp file w) : Lands t (some temp) target asked w :=
  ⟨fun _ hpath => .inl (h.staged.lookOther fun he => hpath (congrArg some he)),
    fun e he _ _ hmove => absurd hmove (h.unmoved e he _ _)⟩

theorem InStage.record (h : InStage t temp file w) (ho : ∀ source dest', o ≠ .mv source dest')
    (hstaged : t.Staged temp file' t') : InStage t temp file' (w.record o r t') :=
  ⟨hstaged, World.forall_record h.unmoved ho⟩

/-- The move of the file asked for, done or not. -/
theorem InStage.move {r : Option (Option Unit)} (h : InStage t temp file w) (hasked : asked = some file)
    (ht : w.state.moveOver temp target = some t' ∨ t' = w.state) :
    Lands t (some temp) target asked (w.record (.mv temp dest) r t') := by
  have hmoves : ∀ e ∈ (w.record (.mv temp dest) r t').events, ∀ source dest', e.op = .mv source dest' →
      ∃ file, asked = some file ∧ e.before.look source = some (.file file) := by
    refine World.forall_record (fun e he _ _ hmove => absurd hmove (h.unmoved e he _ _)) fun source dest' hmove => ?_
    cases hmove
    exact ⟨file, hasked, h.staged.look⟩
  refine ⟨fun path hpath => ?_, hmoves⟩
  have htemp : path ≠ temp := fun he => hpath (congrArg some he)
  rcases ht with hmoved | rfl
  · obtain ⟨htarget, hothers⟩ := staged_moveOver h.staged hmoved
    by_cases hdest : path = target
    · exact .inr ⟨hdest, file, hasked, hdest ▸ htarget⟩
    · exact .inl (hothers path hdest htemp)
  · exact .inl (h.staged.lookOther htemp)

/-- A command on the temporary, which stays staged however it ends. -/
theorem throughout_stage {next : o.Out → ScriptProg β} (h : InStage t temp file w)
    (ho : ∀ source dest', o ≠ .mv source dest') (hcut : ∀ t', o.Torn w.state t' → ∃ file', t.Staged temp file' t')
    (hok : ∀ out t', o.run host w.state = (some out, t') → ∃ file', t.Staged temp file' t' ∧
      ∀ w', InStage t temp file' w' → Throughout host (Lands t (some temp) target asked) (next out) w') :
    Throughout host (Lands t (some temp) target asked) (command o >>= next) w := by
  refine throughout_command h.lands (fun r t' htorn => ?_) fun out t' hrun => ?_
  · obtain ⟨file', hstaged⟩ := hcut t' htorn
    exact (h.record ho hstaged).lands
  · obtain ⟨file', hstaged, hnext⟩ := hok out t' hrun
    exact hnext _ (h.record ho hstaged)

/-- A look at the temporary. -/
theorem throughout_stage_look {next : ScriptRes o → ScriptProg β} (h : InStage t temp file w) (ho : o.Looks)
    (hnext : ∀ printed w', InStage t temp file w' →
      Throughout host (Lands t (some temp) target asked) (next printed) w') :
    Throughout host (Lands t (some temp) target asked) (Prog.perform o >>= next) w := by
  have hmove : ∀ source dest', o ≠ .mv source dest' := by cases ho <;> rintro _ _ ⟨⟩
  exact throughout_look ho h.lands (fun r => (h.record hmove h.staged).lands) fun printed =>
    hnext printed _ (h.record hmove h.staged)

/-- What follows the move changes nothing. -/
theorem throughout_confirm {ino : Option Nat} (h : Lands t temp? target asked w) :
    Throughout host (Lands t temp? target asked) (confirm dest ino owner group mode) w := by
  have hflushed : ∀ r, Lands t temp? target asked (w.record (.sync (resolve (dirnameOf dest))) r w.state) :=
    fun r => h.record (by rintro _ _ ⟨⟩) fun _ _ => rfl
  rw [confirm, flush_bind]
  refine throughout_look .sync h hflushed fun synced => ?_
  refine throughout_command (hflushed _) (fun r t' htorn => ?_) fun found t' hrun => ?_
  · rw [ScriptOp.Looks.findWritten.torn htorn]
    exact (hflushed _).record (by rintro _ _ ⟨⟩) fun _ _ => rfl
  · obtain rfl := ScriptOp.Looks.findWritten.run hrun
    have hfound := (hflushed (some synced)).record (r := some (some found))
      (o := .findWritten (resolve dest) ino owner group mode) (by rintro _ _ ⟨⟩) fun _ _ => rfl
    cases found with
    | true => exact ⟨hfound, hfound⟩
    | false => exact hfound

theorem parseMode_le {text : Bytes} {bits : Nat} (h : parseMode text = some bits) : bits ≤ MODE_MAX := by
  rw [parseMode] at h
  split_ifs at h with hmode
  exact Option.some.inj h ▸ hmode.2.2

/-- From the write to the end, once the temporary is made. -/
theorem throughout_landThrough (h : InStage t temp file w) :
    Throughout host (Lands t (some temp) (resolve dest) (host.asked owner group mode stdin))
      (landThrough temp dest owner group mode stdin) w := by
  -- the write, which may stop anywhere
  refine throughout_stage h (by rintro _ _ ⟨⟩) (fun t' htorn => ?_) fun _ t₁ hrun =>
    ⟨_, staged_onFile h.staged (changes_some hrun), fun w hwritten => ?_⟩
  · cases htorn with
    | unchanged => exact ⟨_, h.staged⟩
    | written hput => exact ⟨_, staged_onFile h.staged hput⟩
  refine throughout_stage hwritten (by rintro _ _ ⟨⟩) (fun t' htorn => ⟨_, torn_unchanged htorn (by rintro _ _ ⟨⟩) ▸ hwritten.staged⟩)
    fun _ t₂ hrun => ?_
  obtain ⟨uid, huid, gid, hgid, hchown⟩ : ∃ uid, host.account owner = some uid ∧ ∃ gid, host.group group = some gid ∧
      w.state.onFile temp (.chown uid gid) = some t₂ := by
    simpa only [Option.bind_eq_bind, Option.bind_eq_some_iff] using changes_some hrun
  refine ⟨_, staged_onFile hwritten.staged hchown, fun w howned => ?_⟩
  refine throughout_stage howned (by rintro _ _ ⟨⟩) (fun t' htorn => ⟨_, torn_unchanged htorn (by rintro _ _ ⟨⟩) ▸ howned.staged⟩)
    fun _ t₃ hrun => ?_
  obtain ⟨bits, hbits, hchmod⟩ : ∃ bits, parseMode mode = some bits ∧ w.state.onFile temp (.chmod bits) = some t₃ := by
    simpa only [Option.bind_eq_bind, Option.bind_eq_some_iff] using changes_some hrun
  -- from here on the temporary is the file asked for
  have hkept : bits &&& MODE_BITS = bits := by
    rw [show MODE_BITS = 2 ^ 12 - 1 from rfl, Nat.and_two_pow_sub_one_eq_mod]
    exact Nat.mod_eq_of_lt (Nat.lt_succ_of_le (parseMode_le hbits))
  have hasked : host.asked owner group mode stdin = some ⟨stdin, uid, gid, bits⟩ := by
    simp [ScriptHost.asked, ScriptHost.metaOf, huid, hgid, hbits]
  have hmoded : t.Staged temp ⟨stdin, uid, gid, bits⟩ t₃ := by
    simpa only [LandedFile.chmod, LandedFile.chown, LandedFile.write, hkept] using staged_onFile howned.staged hchmod
  refine ⟨_, hmoded, fun w hdone => ?_⟩
  rw [flush_bind]
  refine throughout_stage_look hdone .sync fun _ w hsynced => ?_
  refine throughout_stage_look hsynced .inode fun ino w hknown => ?_
  refine throughout_command hknown.lands (fun r t' htorn => ?_) fun _ t₄ hrun => throughout_confirm ?_
  · rw [torn_unchanged htorn (by rintro _ _ ⟨⟩)]
    exact hknown.move hasked (.inr rfl)
  · have hmoved := changes_some hrun
    split_ifs at hmoved
    exact hknown.move hasked (.inl hmoved)

theorem throughout_attempt {p : ScriptProg α} (h : Throughout host stop p w) :
    Throughout host stop (p.attempt : ScriptProg (Except ScriptExit α)) w := by
  induction p generalizing w with
  | ret a => exact h
  | fail e => exact ⟨h, h⟩
  | op o next ih => exact ⟨h.1, h.2.1, fun r s hends => ih r (h.2.2 r s hends)⟩

theorem look_rm {printed : Option Unit} (h : (scriptDevice host).Ends (.rm temp) t printed t') (hpath : path ≠ temp) :
    t'.look path = t.look path := by
  rcases ends_cases h with ⟨_, rfl, hrun⟩ | ⟨rfl, htorn⟩
  · have hremoved := changes_some hrun
    cases hremove : t.removeFile temp with
    | error e =>
      rw [hremove] at hremoved
      cases hremoved
    | ok left =>
      rw [hremove] at hremoved
      rw [← Option.some.inj hremoved, FileTree.removeFile_ok hremove, FileTree.look_unlink_ne hpath]
  · rw [torn_unchanged htorn (by rintro _ _ ⟨⟩)]

/-- What the trap removes is the temporary. -/
theorem throughout_trapped {body : ScriptProg Unit} (h : Throughout host (Lands t (some temp) target asked) body w) :
    Throughout host (Lands t (some temp) target asked) (trapped temp body) w := by
  refine (throughout_attempt h).bind fun ended w' hended => ?_
  cases ended with
  | ok u => exact ⟨hended, hended⟩
  | error reason =>
    refine ⟨hended, fun t' htorn => ?_, fun printed t' hends => ?_⟩
    · rw [torn_unchanged htorn (by rintro _ _ ⟨⟩)]
      exact hended.record (by rintro _ _ ⟨⟩) fun _ _ => rfl
    · exact hended.record (by rintro _ _ ⟨⟩) fun path hpath => look_rm hends fun he => hpath (congrArg some he)

/-- Every moment of the script. -/
theorem throughout_putFileScript :
    Throughout host (Lands t (host.temp dest) (resolve dest) (host.asked owner group mode stdin))
      (putFileScript host dest owner group mode stdin) ⟨t, []⟩ := by
  rw [putFileScript]
  split_ifs
  · exact lands_start
  · exact lands_start
  cases hstage : (stageScript host.probe host.creator.uid dest).join with
  | none => exact lands_start
  | some stage =>
    rw [ScriptHost.temp, hstage, Option.map_some]
    refine throughout_command lands_start (fun r t' htorn => ?_) fun _ t' hrun =>
      throughout_trapped (throughout_landThrough
        (?_ : InStage t (host.tempIn stage) (host.creator.file STAGING_TEMP_MODE) _))
    · rw [torn_unchanged htorn (by rintro _ _ ⟨⟩)]
      exact lands_start.record (by rintro _ _ ⟨⟩) fun _ _ => rfl
    · have hmade := changes_some hrun
      split_ifs at hmade
      rw [← Option.some.inj hmade]
      exact ⟨FileTree.staged_create, World.forall_record (fun _ he => absurd he List.not_mem_nil) (by rintro _ _ ⟨⟩)⟩

/-- In every run of the script, ended, failed or cut off at any command, the destination is as it was or holds all that
the script's standard input did, under the metadata asked for. -/
theorem putFileScript_lands {out : Outcome ScriptExit Unit}
    (hrun : Runs (scriptDevice host) (putFileScript host dest owner group mode stdin) ⟨t, []⟩ out w) :
    Lands t (host.temp dest) (resolve dest) (host.asked owner group mode stdin) w :=
  (hrun.of_wp throughout_putFileScript).1

end Moments

end LandingScript

end DeployCore
