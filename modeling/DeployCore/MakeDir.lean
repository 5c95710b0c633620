import DeployCore.Transports

/-! # Reconciling a directory (`src/executor.rs`)

`make_dir` runs `MAKE_DIR_SCRIPT` as root. What it finds is compared by `find -perm`, bit for bit and on the named entry
itself; what it repairs is left by `install`, `chown` and `chmod`, which keep a directory's set-ID bits under a mode of
four digits and act on what a link leads to. -/

namespace DeployCore

/-! ### Numeric modes -/

def MODE_MAX : Nat := 0o7777
def SET_ID_BITS : Nat := 0o6000

/-- The mode that octal digits give. -/
def parseMode (text : Bytes) : Option Nat :=
  let mode := text.foldl (fun acc byte => 8 * acc + (byte.toNat - 48)) 0
  if text ≠ [] ∧ (∀ byte ∈ text, 48 ≤ byte.toNat ∧ byte.toNat ≤ 55) ∧ mode ≤ MODE_MAX then some mode else none

theorem octal_of_mem {n : Nat} {c : Char} (h : c ∈ Nat.toDigits 8 n) : 48 ≤ c.toNat ∧ c.toNat ≤ 55 := by
  have hdigit : ∀ d < 8, 48 ≤ (Nat.digitChar d).toNat ∧ (Nat.digitChar d).toNat ≤ 55 := by decide
  induction n using Nat.strongRecOn with
  | ind n ih =>
    by_cases hlt : n < 8
    · rw [Nat.toDigits_of_lt_base hlt] at h
      obtain rfl := List.mem_singleton.mp h
      exact hdigit n hlt
    · rw [Nat.toDigits_of_base_le (by omega) (by omega)] at h
      rcases List.mem_append.mp h with h | h
      · exact ih (n / 8) (by omega) h
      · obtain rfl := List.mem_singleton.mp h
        exact hdigit _ (Nat.mod_lt _ (by omega))

/-- The digits are a mode's that has twelve bits, and no more than four. -/
theorem parseMode_modeArg (m : FileMeta) : parseMode m.modeArg = if m.mode ≤ MODE_MAX then some m.mode else none := by
  have hbyte {c : Char} (hc : c ∈ Nat.toDigits 8 m.mode) : (UInt8.ofNat c.toNat).toNat = c.toNat := by
    have := octal_of_mem hc
    rw [UInt8.toNat_ofNat']
    omega
  have hvalue : m.modeArg.foldl (fun acc byte => 8 * acc + (byte.toNat - 48)) 0 = m.mode := by
    have hzeros (k : Nat) : (List.replicate k (48 : UInt8)).foldl (fun acc byte => 8 * acc + (byte.toNat - 48)) 0 = 0 := by
      induction k with
      | zero => rfl
      | succ k ih => exact ih
    have hdigits : (Nat.toDigits 8 m.mode).foldl
        (fun acc c => 8 * acc + ((UInt8.ofNat c.toNat).toNat - 48)) 0 = Nat.ofDigitChars 8 (Nat.toDigits 8 m.mode) 0 :=
      List.foldl_ext _ _ _ fun acc c hc => by rw [hbyte hc]; rfl
    rw [FileMeta.modeArg, List.foldl_append, hzeros, List.foldl_map, hdigits,
      Nat.ofDigitChars_toDigits (by omega) (by omega)]
  have hne : m.modeArg ≠ [] := by
    rw [FileMeta.modeArg]
    exact List.append_ne_nil_of_right_ne_nil _ (by simp)
  have hoctal : ∀ byte ∈ m.modeArg, 48 ≤ byte.toNat ∧ byte.toNat ≤ 55 := by
    intro byte hmem
    rw [FileMeta.modeArg, List.mem_append] at hmem
    rcases hmem with hmem | hmem
    · rw [(List.mem_replicate.mp hmem).2]
      decide
    · obtain ⟨c, hc, rfl⟩ := List.mem_map.mp hmem
      rw [hbyte hc]
      exact octal_of_mem hc
  rw [parseMode, hvalue]
  exact if_congr ⟨fun h => h.2.2, fun h => ⟨hne, hoctal, h⟩⟩ rfl rfl

theorem length_modeArg {m : FileMeta} (h : m.mode ≤ MODE_MAX) : m.modeArg.length = 4 := by
  have hlen : (Nat.toDigits 8 m.mode).length ≤ 4 :=
    (Nat.length_toDigits_le_iff (by omega) (by omega)).mpr (Nat.lt_succ_of_le h)
  rw [FileMeta.modeArg, List.length_append, List.length_replicate, List.length_map]
  omega

/-! ### The host -/

inductive InodeKind
  | directory
  | link
  | other
  deriving DecidableEq

structure DirAttrs where
  owner : Nat
  group : Nat
  mode : Nat
  deriving DecidableEq

/-- The entries of a host: the one that a path names, the one it leads to, and what they are. Only a link leads to
another. -/
structure DirTree where
  lstat : Bytes → Option Nat
  stat : Bytes → Option Nat
  kind : Nat → InodeKind
  attrs : Nat → DirAttrs
  stat_of_lstat : ∀ path i, lstat path = some i → kind i ≠ .link → stat path = some i
  stat_of_absent : ∀ path, lstat path = none → stat path = none
  stat_kind : ∀ path i, stat path = some i → kind i ≠ .link

namespace DirTree

def setAttrs (tree : DirTree) (i : Nat) (attrs : DirAttrs) : DirTree :=
  { tree with attrs := Function.update tree.attrs i attrs }

/-- The directory that a path leads to. -/
def directoryAt (tree : DirTree) (path : Bytes) : Option Nat :=
  (tree.stat path).filter fun i => tree.kind i = .directory

end DirTree

/-- The host's accounts and tools: whose numbers its names are, which entries it lets nobody change, what `install -d`
comes to, the bits that a directory takes from the one it is made in, and what tools write of a path. A directory is
installed where no entry stands, and keeps those bits. -/
structure DirTools where
  uid : Bytes → Option Nat
  gid : Bytes → Option Nat
  frozen : Nat → Bool
  inherited : DirTree → Bytes → Nat
  install : DirTree → Bytes → DirAttrs → Except DirTree DirTree
  report : DirTree → Bytes → Bytes
  install_eq_ok : ∀ {tree path attrs tree'}, install tree path attrs = .ok tree' → tree.lstat path = none ∧
    ∃ i, tree'.lstat path = some i ∧ tree'.kind i = .directory ∧
      tree'.attrs i = { attrs with mode := inherited tree path ||| attrs.mode }

namespace DirTools

/-- The numbers that names and digits stand for, where all of them do. -/
def attrsOf (tools : DirTools) (owner group mode : Bytes) : Option DirAttrs := do
  let owner ← tools.uid owner
  let group ← tools.gid group
  let mode ← parseMode mode
  some ⟨owner, group, mode⟩

/-- `find <dir> -maxdepth 0 -user … -group … -perm …`, of the named entry itself. -/
def find (tools : DirTools) (tree : DirTree) (dir owner group mode : Bytes) : Bool :=
  match tree.lstat dir, tools.attrsOf owner group mode with
  | some i, some attrs => tree.attrs i == attrs
  | _, _ => false

/-- The mode that `chmod` leaves on a directory. -/
def chmodded (old : Nat) (text : Bytes) (mode : Nat) : Nat :=
  if text.length ≤ 4 then (old &&& SET_ID_BITS) ||| mode else mode

/-- `chown` of what the path leads to. -/
def chown (tools : DirTools) (tree : DirTree) (dir owner group : Bytes) : Option DirTree := do
  let i ← tree.stat dir
  let owner ← tools.uid owner
  let group ← tools.gid group
  if tools.frozen i then none else some (tree.setAttrs i { tree.attrs i with owner, group })

/-- `chmod` of what the path leads to. -/
def chmod (tools : DirTools) (tree : DirTree) (dir text : Bytes) : Option DirTree := do
  let i ← tree.stat dir
  let mode ← parseMode text
  if tools.frozen i then none
  else some (tree.setAttrs i { tree.attrs i with mode := chmodded (tree.attrs i).mode text mode })

end DirTools

/-! ### The script -/

def DIR_POLICY_CORRECT : Bytes := asBytes "correct"
def DIR_POLICY_VERIFY : Bytes := asBytes "verify"
def DIR_CREATED : Bytes := asBytes "created"
def DIR_MATCHED : Bytes := asBytes "matched"
def DIR_CORRECTED : Bytes := asBytes "corrected"
def DIR_MISMATCH_CODE : Int := 3

/-- `echo` of a word, and a success. -/
def printed (word : Bytes) : CommandOutput := ⟨some 0, word ++ [10], []⟩

/-- The end of a script at a command that failed. -/
def failed (complaint : Bytes) : CommandOutput := ⟨some 1, [], complaint⟩

/-- `MAKE_DIR_SCRIPT` with its five parameters: the tree it leaves, and its output. -/
def makeDirScript (tools : DirTools) (tree : DirTree) (dir owner group mode policy : Bytes) : DirTree × CommandOutput :=
  if tree.directoryAt dir = none then
    match tools.attrsOf owner group mode with
    | some attrs =>
      match tools.install tree dir attrs with
      | .ok tree' => (tree', printed DIR_CREATED)
      | .error tree' => (tree', failed (tools.report tree dir))
    | none => (tree, failed (tools.report tree dir))
  else if tools.find tree dir owner group mode then (tree, printed DIR_MATCHED)
  else if policy ≠ DIR_POLICY_CORRECT then (tree, ⟨some DIR_MISMATCH_CODE, [], tools.report tree dir⟩)
  else
    match tools.chown tree dir owner group with
    | none => (tree, failed (tools.report tree dir))
    | some owned =>
      match tools.chmod owned dir mode with
      | none => (owned, failed (tools.report owned dir))
      | some corrected => (corrected, printed DIR_CORRECTED)

inductive DirOutcome
  | created
  | corrected
  | matched
  deriving DecidableEq

inductive MakeDirError
  | directoryMismatch (path : Bytes) (reason : String)
  | transfer (path : Bytes) (reason : String)
  deriving DecidableEq

/-- What the script's output says. -/
def settleDir (dest : Bytes) (output : CommandOutput) : Except MakeDirError DirOutcome :=
  if output.code = some DIR_MISMATCH_CODE then .error (.directoryMismatch dest (lossyTrim output.stderr))
  else if output.code ≠ some 0 then .error (.transfer dest (lossyTrim output.stderr))
  else
    let outcome := lossyTrim output.stdout
    if outcome = "created" then .ok .created
    else if outcome = "corrected" then .ok .corrected
    else if outcome = "matched" then .ok .matched
    else .error (.transfer dest ("unrecognised directory outcome `" ++ outcome ++ "`"))

/-- `make_dir`, where the transport runs the script. -/
def makeDir (tools : DirTools) (tree : DirTree) (dest : Bytes) (m : FileMeta) :
    DirTree × Except MakeDirError DirOutcome :=
  let policy := if m.isServiceWritable then DIR_POLICY_VERIFY else DIR_POLICY_CORRECT
  let (tree', output) := makeDirScript tools tree (toStringLossy dest) m.owner.asArg m.group.asArg m.modeArg policy
  (tree', settleDir dest output)

/-! ### What is meant -/

/-- A path leads to a directory with the owner, group and mode that are asked for. -/
def Exact (tools : DirTools) (tree : DirTree) (dest : Bytes) (m : FileMeta) : Prop :=
  ∃ i attrs, tree.directoryAt dest = some i ∧ tools.attrsOf m.owner.asArg m.group.asArg m.modeArg = some attrs ∧
    tree.attrs i = attrs

/-- What `make_dir` is to do. -/
structure Reconciles (tools : DirTools) (tree : DirTree) (dest : Bytes) (m : FileMeta) : Prop where
  /-- A success leaves the directory as asked for, and the same call behind it has nothing to do. -/
  exact : ∀ outcome, (makeDir tools tree dest m).2 = .ok outcome →
    Exact tools (makeDir tools tree dest m).1 dest m ∧
      makeDir tools (makeDir tools tree dest m).1 dest m = ((makeDir tools tree dest m).1, .ok .matched)
  /-- A match changes nothing. -/
  matched : (makeDir tools tree dest m).2 = .ok .matched → (makeDir tools tree dest m).1 = tree
  /-- A directory that others may write is never changed, and a mismatch is reported exactly where it differs. -/
  verified : m.isServiceWritable = true → (tree.directoryAt dest).isSome = true →
    (makeDir tools tree dest m).1 = tree ∧
      ((∃ path reason, (makeDir tools tree dest m).2 = .error (.directoryMismatch path reason)) ↔
        ¬Exact tools tree dest m)

/-- Where it does: a new directory takes no set-ID bit that is not asked for; an existing one that is corrected has none;
and a link to a directory is compared, on its own attributes, as the directory would be, and is never corrected. -/
structure Reconcilable (tools : DirTools) (tree : DirTree) (dest : Bytes) (m : FileMeta) : Prop where
  made : tree.directoryAt dest = none → ∀ attrs tree',
    tools.attrsOf m.owner.asArg m.group.asArg m.modeArg = some attrs → tools.install tree dest attrs = .ok tree' →
    tools.inherited tree dest ||| attrs.mode = attrs.mode
  corrected : m.isServiceWritable = false → ∀ i attrs, tree.directoryAt dest = some i → tree.lstat dest = some i →
    tools.attrsOf m.owner.asArg m.group.asArg m.modeArg = some attrs → tools.frozen i = false →
    ((tree.attrs i).mode &&& SET_ID_BITS) ||| attrs.mode = attrs.mode
  linkVerified : m.isServiceWritable = true → ∀ i, tree.directoryAt dest = some i → tree.lstat dest ≠ some i →
    (tools.find tree dest m.owner.asArg m.group.asArg m.modeArg = true ↔ Exact tools tree dest m)
  linkCorrected : m.isServiceWritable = false → ∀ i, tree.directoryAt dest = some i → tree.lstat dest ≠ some i →
    if tools.find tree dest m.owner.asArg m.group.asArg m.modeArg = true then Exact tools tree dest m
    else tools.attrsOf m.owner.asArg m.group.asArg m.modeArg = none ∨ tools.frozen i = true

/-! ### Each way the script ends -/

section Settles
variable {dest text : Bytes}

theorem settleDir_created : settleDir dest (printed DIR_CREATED) = .ok .created := by
  have htext : lossyTrim (printed DIR_CREATED).stdout = "created" := by decide +kernel
  simp only [settleDir, htext]
  rfl

theorem settleDir_matched : settleDir dest (printed DIR_MATCHED) = .ok .matched := by
  have htext : lossyTrim (printed DIR_MATCHED).stdout = "matched" := by decide +kernel
  simp only [settleDir, htext]
  rfl

theorem settleDir_corrected : settleDir dest (printed DIR_CORRECTED) = .ok .corrected := by
  have htext : lossyTrim (printed DIR_CORRECTED).stdout = "corrected" := by decide +kernel
  simp only [settleDir, htext]
  rfl

theorem settleDir_mismatch :
    settleDir dest ⟨some DIR_MISMATCH_CODE, [], text⟩ = .error (.directoryMismatch dest (lossyTrim text)) := rfl

end Settles

section Script
variable {tools : DirTools} {tree : DirTree} {dest : Bytes} {m : FileMeta} {i : Nat}

theorem directoryAt_eq_some : tree.directoryAt dest = some i ↔ tree.stat dest = some i ∧ tree.kind i = .directory := by
  simp [DirTree.directoryAt, Option.filter_eq_some_iff]

/-- A directory that a path names itself is compared as it is. -/
theorem find_eq_true (hdir : tree.directoryAt dest = some i) (hself : tree.lstat dest = some i) :
    tools.find tree dest m.owner.asArg m.group.asArg m.modeArg = true ↔ Exact tools tree dest m := by
  unfold DirTools.find Exact
  rw [hself, hdir]
  rcases tools.attrsOf m.owner.asArg m.group.asArg m.modeArg with _ | attrs
  · simp
  · constructor
    · exact fun h => ⟨i, attrs, rfl, rfl, eq_of_beq h⟩
    · rintro ⟨_, _, hi, hattrs, heq⟩
      obtain rfl := Option.some.inj hi
      obtain rfl := Option.some.inj hattrs
      exact beq_iff_eq.mpr heq

/-- Nothing there is a directory. -/
theorem makeDir_absent (hdest : toStringLossy dest = dest) (hdir : tree.directoryAt dest = none) :
    makeDir tools tree dest m = match tools.attrsOf m.owner.asArg m.group.asArg m.modeArg with
      | none => (tree, .error (.transfer dest (lossyTrim (tools.report tree dest))))
      | some attrs =>
        match tools.install tree dest attrs with
        | .ok tree' => (tree', .ok .created)
        | .error tree' => (tree', .error (.transfer dest (lossyTrim (tools.report tree dest)))) := by
  rw [makeDir, hdest, makeDirScript]
  simp only [if_pos hdir]
  rcases tools.attrsOf m.owner.asArg m.group.asArg m.modeArg with _ | attrs
  · rfl
  · dsimp only
    rcases tools.install tree dest attrs with tree' | tree'
    · rfl
    · simp only [settleDir_created]

theorem makeDir_matched (hdest : toStringLossy dest = dest) (hdir : tree.directoryAt dest = some i)
    (hfind : tools.find tree dest m.owner.asArg m.group.asArg m.modeArg = true) :
    makeDir tools tree dest m = (tree, .ok .matched) := by
  rw [makeDir, hdest, makeDirScript]
  simp only [hdir, hfind, if_true, reduceCtorEq, if_false, settleDir_matched]

theorem makeDir_verified (hdest : toStringLossy dest = dest) (hdir : tree.directoryAt dest = some i)
    (hfind : tools.find tree dest m.owner.asArg m.group.asArg m.modeArg = false) (hservice : m.isServiceWritable = true) :
    makeDir tools tree dest m = (tree, .error (.directoryMismatch dest (lossyTrim (tools.report tree dest)))) := by
  have hpolicy : DIR_POLICY_VERIFY ≠ DIR_POLICY_CORRECT := by decide +kernel
  rw [makeDir, hdest, makeDirScript]
  simp only [hdir, hfind, hservice, if_true, reduceCtorEq, if_false, Bool.false_eq_true, if_pos hpolicy,
    settleDir_mismatch]

/-- What `chown` and `chmod` make of a directory, one after the other. -/
theorem makeDir_corrected (hdest : toStringLossy dest = dest) (hdir : tree.directoryAt dest = some i)
    (hfind : tools.find tree dest m.owner.asArg m.group.asArg m.modeArg = false)
    (hroot : m.isServiceWritable = false) :
    (∃ attrs, tools.attrsOf m.owner.asArg m.group.asArg m.modeArg = some attrs ∧ tools.frozen i = false ∧
      makeDir tools tree dest m = (tree.setAttrs i
        { attrs with mode := ((tree.attrs i).mode &&& SET_ID_BITS) ||| attrs.mode }, .ok .corrected)) ∨
    (tools.attrsOf m.owner.asArg m.group.asArg m.modeArg = none ∨ tools.frozen i = true) ∧
      ∃ tree' reason, makeDir tools tree dest m = (tree', .error (.transfer dest reason)) := by
  have hstat := (directoryAt_eq_some.mp hdir).1
  have hpolicy : ¬DIR_POLICY_CORRECT ≠ DIR_POLICY_CORRECT := fun h => h rfl
  have hscript : makeDir tools tree dest m =
      match tools.chown tree dest m.owner.asArg m.group.asArg with
      | none => (tree, .error (.transfer dest (lossyTrim (tools.report tree dest))))
      | some owned =>
        match tools.chmod owned dest m.modeArg with
        | none => (owned, .error (.transfer dest (lossyTrim (tools.report owned dest))))
        | some corrected => (corrected, .ok .corrected) := by
    rw [makeDir, hdest, makeDirScript]
    simp only [hdir, hfind, hroot, reduceCtorEq, if_false, Bool.false_eq_true, if_neg hpolicy]
    rcases tools.chown tree dest m.owner.asArg m.group.asArg with _ | owned
    · rfl
    · dsimp only
      rcases tools.chmod owned dest m.modeArg with _ | corrected
      · rfl
      · simp only [settleDir_corrected]
  rw [hscript]
  unfold DirTools.attrsOf DirTools.chown
  rw [hstat]
  rcases tools.uid m.owner.asArg with _ | owner
  · exact .inr ⟨.inl rfl, _, _, rfl⟩
  rcases tools.gid m.group.asArg with _ | group
  · exact .inr ⟨.inl rfl, _, _, rfl⟩
  rcases hfrozen : tools.frozen i with _ | _
  · simp only [Option.bind_eq_bind, Option.bind_some, hfrozen, Bool.false_eq_true, if_false]
    unfold DirTools.chmod
    have hstat' (attrs : DirAttrs) : (tree.setAttrs i attrs).stat dest = some i := hstat
    simp only [hstat', hfrozen, Option.bind_eq_bind, Option.bind_some, Bool.false_eq_true, if_false]
    rw [parseMode_modeArg]
    by_cases hmode : m.mode ≤ MODE_MAX
    · have hkeeps (old : Nat) : DirTools.chmodded old m.modeArg m.mode = (old &&& SET_ID_BITS) ||| m.mode := by
        rw [DirTools.chmodded, if_pos (length_modeArg hmode).le]
      refine .inl ⟨⟨owner, group, m.mode⟩, by rw [if_pos hmode]; rfl, trivial, ?_⟩
      simp only [if_pos hmode, Option.bind_some, hkeeps, DirTree.setAttrs, Function.update_self, Function.update_idem]
    · refine .inr ⟨.inl (by rw [if_neg hmode]; rfl), ?_⟩
      simp only [if_neg hmode, Option.bind_none]
      exact ⟨_, _, rfl⟩
  · simp only [Option.bind_eq_bind, Option.bind_some, hfrozen, if_true]
    exact .inr ⟨.inr trivial, _, _, rfl⟩

/-- What a link leads to is no part of what is compared. -/
theorem find_setAttrs (hlink : tree.lstat dest ≠ some i) (attrs : DirAttrs) :
    tools.find (tree.setAttrs i attrs) dest m.owner.asArg m.group.asArg m.modeArg =
      tools.find tree dest m.owner.asArg m.group.asArg m.modeArg := by
  unfold DirTools.find
  rcases hself : tree.lstat dest with _ | j
  · simp only [DirTree.setAttrs, hself]
  · have hne : j ≠ i := fun h => hlink (hself.trans (congrArg some h))
    simp only [DirTree.setAttrs, hself]
    rcases tools.attrsOf m.owner.asArg m.group.asArg m.modeArg with _ | wanted
    · rfl
    · simp only [Function.update_of_ne hne]

/-- A directory made anew is as asked for exactly when it takes no further bit. -/
theorem exact_install {attrs : DirAttrs} {tree' : DirTree}
    (hattrs : tools.attrsOf m.owner.asArg m.group.asArg m.modeArg = some attrs)
    (hinstall : tools.install tree dest attrs = .ok tree') :
    ∃ j, tree'.directoryAt dest = some j ∧ tree'.lstat dest = some j ∧
      (Exact tools tree' dest m ↔ tools.inherited tree dest ||| attrs.mode = attrs.mode) := by
  obtain ⟨-, j, hself, hkind, hmade⟩ := tools.install_eq_ok hinstall
  have hdir : tree'.directoryAt dest = some j :=
    directoryAt_eq_some.mpr ⟨tree'.stat_of_lstat _ _ hself (by rw [hkind]; decide), hkind⟩
  refine ⟨j, hdir, hself, ?_⟩
  unfold Exact
  rw [hdir, hattrs]
  constructor
  · rintro ⟨_, _, hj, hsame, heq⟩
    obtain rfl := Option.some.inj hj
    obtain rfl := Option.some.inj hsame
    exact congrArg DirAttrs.mode (hmade.symm.trans heq)
  · intro hmode
    exact ⟨j, attrs, rfl, rfl, by rw [hmade, hmode]⟩

/-- A directory that was corrected is as asked for exactly when it had no further set-ID bit. -/
theorem exact_corrected {attrs : DirAttrs} {mode : Nat}
    (hattrs : tools.attrsOf m.owner.asArg m.group.asArg m.modeArg = some attrs)
    (hdir : tree.directoryAt dest = some i) :
    Exact tools (tree.setAttrs i { attrs with mode }) dest m ↔ mode = attrs.mode := by
  have hdir' : (tree.setAttrs i { attrs with mode }).directoryAt dest = some i := hdir
  have hnow : (tree.setAttrs i { attrs with mode }).attrs i = { attrs with mode } := Function.update_self ..
  unfold Exact
  rw [hdir', hattrs]
  constructor
  · rintro ⟨_, _, hj, hsame, heq⟩
    obtain rfl := Option.some.inj hj
    obtain rfl := Option.some.inj hsame
    exact congrArg DirAttrs.mode (hnow.symm.trans heq)
  · rintro rfl
    exact ⟨i, attrs, rfl, rfl, hnow⟩

end Script

/-! ### The law -/

section Law
variable {tools : DirTools} {tree : DirTree} {dest : Bytes} {m : FileMeta}

theorem reconciles_absent (hdest : toStringLossy dest = dest) (hdir : tree.directoryAt dest = none) :
    Reconciles tools tree dest m ↔ Reconcilable tools tree dest m := by
  have hrun := @makeDir_absent tools tree dest m hdest hdir
  constructor
  · intro h
    refine ⟨fun _ attrs tree' hattrs hinstall => ?_, fun _ i _ hi => ?_, fun _ i hi => ?_, fun _ i hi => ?_⟩
    · obtain ⟨j, -, -, hexact⟩ := exact_install hattrs hinstall
      simp only [hattrs, hinstall] at hrun
      have hmade := (h.exact .created (by rw [hrun])).1
      rw [hrun] at hmade
      exact hexact.mp hmade
    · exact absurd (hdir.symm.trans hi) (by simp)
    · exact absurd (hdir.symm.trans hi) (by simp)
    · exact absurd (hdir.symm.trans hi) (by simp)
  · intro h
    rcases hattrs : tools.attrsOf m.owner.asArg m.group.asArg m.modeArg with _ | attrs
    · simp only [hattrs] at hrun
      exact ⟨fun _ hok => (by simp [hrun] at hok), fun hok => (by simp [hrun] at hok), fun _ hsome => by simp [hdir] at hsome⟩
    · rcases hinstall : tools.install tree dest attrs with tree' | tree'
      · simp only [hattrs, hinstall] at hrun
        exact ⟨fun _ hok => (by simp [hrun] at hok), fun hok => (by simp [hrun] at hok),
          fun _ hsome => by simp [hdir] at hsome⟩
      · simp only [hattrs, hinstall] at hrun
        obtain ⟨j, hdir', hself, hexact⟩ := exact_install hattrs hinstall
        have hmade : Exact tools tree' dest m := hexact.mpr (h.made hdir attrs tree' hattrs hinstall)
        refine ⟨fun _ _ => ?_, fun hok => (by simp [hrun] at hok), fun _ hsome => by simp [hdir] at hsome⟩
        rw [hrun]
        exact ⟨hmade, makeDir_matched hdest hdir' ((find_eq_true hdir' hself).mpr hmade)⟩

theorem and_or_self (a b : Nat) : (a &&& b) ||| a = a := by
  refine Nat.eq_of_testBit_eq fun k => ?_
  simp only [Nat.testBit_or, Nat.testBit_and]
  rcases a.testBit k <;> simp

section Existing
variable {i : Nat}

theorem reconciles_matched (hdest : toStringLossy dest = dest) (hdir : tree.directoryAt dest = some i)
    (hfind : tools.find tree dest m.owner.asArg m.group.asArg m.modeArg = true) :
    Reconciles tools tree dest m ↔ Reconcilable tools tree dest m := by
  have hrun := makeDir_matched hdest hdir hfind
  have hreconciles : Reconciles tools tree dest m ↔ Exact tools tree dest m := by
    constructor
    · intro h
      have hexact := (h.exact .matched (by rw [hrun])).1
      rwa [hrun] at hexact
    · intro h
      refine ⟨fun _ _ => ?_, fun _ => by rw [hrun], fun _ _ => ?_⟩
      · rw [hrun]
        exact ⟨h, hrun⟩
      · rw [hrun]
        exact ⟨rfl, by simp [h]⟩
  rw [hreconciles]
  constructor
  · intro h
    refine ⟨fun hnone => by simp [hdir] at hnone, fun _ j attrs hj _ hattrs _ => ?_, fun _ _ _ _ => iff_of_true hfind h,
      fun _ _ _ _ => by rw [if_pos hfind]; exact h⟩
    obtain ⟨_, _, hi, hwanted, heq⟩ := h
    obtain rfl := Option.some.inj (hj.symm.trans hi)
    obtain rfl := Option.some.inj (hattrs.symm.trans hwanted)
    rw [heq]
    exact and_or_self _ _
  · intro h
    by_cases hself : tree.lstat dest = some i
    · exact (find_eq_true hdir hself).mp hfind
    · rcases hservice : m.isServiceWritable with _ | _
      · have hlink := h.linkCorrected hservice i hdir hself
        rwa [if_pos hfind] at hlink
      · exact (h.linkVerified hservice i hdir hself).mp hfind

theorem reconciles_verified (hdest : toStringLossy dest = dest) (hdir : tree.directoryAt dest = some i)
    (hfind : tools.find tree dest m.owner.asArg m.group.asArg m.modeArg = false)
    (hservice : m.isServiceWritable = true) :
    Reconciles tools tree dest m ↔ Reconcilable tools tree dest m := by
  have hrun := makeDir_verified hdest hdir hfind hservice
  have hreconciles : Reconciles tools tree dest m ↔ ¬Exact tools tree dest m := by
    constructor
    · intro h
      exact ((h.verified hservice (by simp [hdir])).2).mp ⟨_, _, by rw [hrun]⟩
    · intro h
      refine ⟨fun _ hok => by simp [hrun] at hok, fun hok => by simp [hrun] at hok, fun _ _ => ?_⟩
      rw [hrun]
      exact ⟨rfl, iff_of_true ⟨_, _, rfl⟩ h⟩
  have hnot : ¬tools.find tree dest m.owner.asArg m.group.asArg m.modeArg = true := by rw [hfind]; decide
  rw [hreconciles]
  constructor
  · intro h
    exact ⟨fun hnone => by simp [hdir] at hnone, fun hroot => by simp [hservice] at hroot,
      fun _ _ _ _ => iff_of_false hnot h, fun hroot => by simp [hservice] at hroot⟩
  · intro h hexact
    by_cases hself : tree.lstat dest = some i
    · exact hnot ((find_eq_true hdir hself).mpr hexact)
    · exact hnot ((h.linkVerified hservice i hdir hself).mpr hexact)

theorem reconciles_corrected (hdest : toStringLossy dest = dest) (hdir : tree.directoryAt dest = some i)
    (hfind : tools.find tree dest m.owner.asArg m.group.asArg m.modeArg = false)
    (hroot : m.isServiceWritable = false) :
    Reconciles tools tree dest m ↔ Reconcilable tools tree dest m := by
  have hnot : ¬tools.find tree dest m.owner.asArg m.group.asArg m.modeArg = true := by rw [hfind]; decide
  rcases makeDir_corrected hdest hdir hfind hroot with ⟨attrs, hattrs, hfree, hrun⟩ | ⟨hfails, tree', reason, hrun⟩
  · have hexact := @exact_corrected _ _ _ _ _ _ (((tree.attrs i).mode &&& SET_ID_BITS) ||| attrs.mode) hattrs hdir
    have hdir' : (tree.setAttrs i { attrs with mode := ((tree.attrs i).mode &&& SET_ID_BITS) ||| attrs.mode }).directoryAt
        dest = some i := hdir
    by_cases hself : tree.lstat dest = some i
    · constructor
      · intro h
        have hdone := (h.exact .corrected (by rw [hrun])).1
        rw [hrun] at hdone
        refine ⟨fun hnone => by simp [hdir] at hnone, fun _ j wanted hj _ hwanted _ => ?_,
          fun hservice => by simp [hroot] at hservice, fun _ j hj hlink => ?_⟩
        · obtain rfl := Option.some.inj (hdir.symm.trans hj)
          obtain rfl := Option.some.inj (hattrs.symm.trans hwanted)
          exact hexact.mp hdone
        · obtain rfl := Option.some.inj (hdir.symm.trans hj)
          exact absurd hself hlink
      · intro h
        have hdone := hexact.mpr (h.corrected hroot i attrs hdir hself hattrs hfree)
        refine ⟨fun _ _ => ?_, fun hok => by simp [hrun] at hok, fun hservice => by simp [hroot] at hservice⟩
        rw [hrun]
        exact ⟨hdone, makeDir_matched hdest hdir' ((find_eq_true hdir' hself).mpr hdone)⟩
    · have hnever : ¬Reconciles tools tree dest m := by
        intro h
        have hagain := (h.exact .corrected (by rw [hrun])).2
        rw [hrun] at hagain
        have hfind' := (@find_setAttrs tools _ _ m _ hself
          { attrs with mode := ((tree.attrs i).mode &&& SET_ID_BITS) ||| attrs.mode }).trans hfind
        rcases makeDir_corrected hdest hdir' hfind' hroot with ⟨_, _, _, hrun'⟩ | ⟨_, _, _, hrun'⟩
        · rw [hrun'] at hagain
          cases (Prod.mk.inj hagain).2
        · rw [hrun'] at hagain
          cases (Prod.mk.inj hagain).2
      refine iff_of_false hnever fun h => ?_
      have hlink := h.linkCorrected hroot i hdir hself
      rw [if_neg hnot, hattrs, hfree] at hlink
      simp at hlink
  · have hreconciles : Reconciles tools tree dest m :=
      ⟨fun _ hok => by simp [hrun] at hok, fun hok => by simp [hrun] at hok, fun hservice => by simp [hroot] at hservice⟩
    refine iff_of_true hreconciles ⟨fun hnone => by simp [hdir] at hnone, fun _ j attrs hj _ hattrs hfree => ?_,
      fun hservice => by simp [hroot] at hservice, fun _ j hj _ => ?_⟩
    · obtain rfl := Option.some.inj (hdir.symm.trans hj)
      rw [hattrs, hfree] at hfails
      simp at hfails
    · obtain rfl := Option.some.inj (hdir.symm.trans hj)
      rw [if_neg hnot]
      exact hfails

end Existing

/-- `make_dir` reconciles a directory exactly where neither the bits it takes or keeps nor a link to it stand between what
is compared and what is repaired. -/
theorem makeDir_reconciles_iff (hdest : toStringLossy dest = dest) :
    Reconciles tools tree dest m ↔ Reconcilable tools tree dest m := by
  rcases hdir : tree.directoryAt dest with _ | i
  · exact reconciles_absent hdest hdir
  · rcases hfind : tools.find tree dest m.owner.asArg m.group.asArg m.modeArg with _ | _
    · rcases hservice : m.isServiceWritable with _ | _
      · exact reconciles_corrected hdest hdir hfind hservice
      · exact reconciles_verified hdest hdir hfind hservice
    · exact reconciles_matched hdest hdir hfind

end Law

/-- One directory, with the set-group-ID bit. -/
def setGroupIdTree : DirTree where
  lstat path := if path = asBytes "/srv" then some 0 else none
  stat path := if path = asBytes "/srv" then some 0 else none
  kind _ := .directory
  attrs _ := ⟨0, 0, 0o2755⟩
  stat_of_lstat _ _ h _ := h
  stat_of_absent _ h := h
  stat_kind _ _ _ := by decide

/-- A host where every name is root's and nothing can be made. -/
def bareTools : DirTools where
  uid _ := some 0
  gid _ := some 0
  frozen _ := false
  inherited _ _ := 0
  install tree _ _ := .error tree
  report _ _ := []
  install_eq_ok := nofun

/-- The condition at that directory. -/
theorem makeDir_reconciles_iff_setGroupId :
    Reconciles bareTools setGroupIdTree (asBytes "/srv") ⟨.root, .root, 0o755⟩ ↔
      Reconcilable bareTools setGroupIdTree (asBytes "/srv") ⟨.root, .root, 0o755⟩ :=
  makeDir_reconciles_iff (by decide +kernel)

/-- A directory of root's with the bit, asked for without it, is reported as corrected and keeps it, each time. -/
theorem makeDir_setGroupId :
    let first := makeDir bareTools setGroupIdTree (asBytes "/srv") ⟨.root, .root, 0o755⟩
    first.2 = .ok .corrected ∧ (first.1.attrs 0).mode = 0o2755 ∧
      (makeDir bareTools first.1 (asBytes "/srv") ⟨.root, .root, 0o755⟩).2 = .ok .corrected ∧
      ¬Reconciles bareTools setGroupIdTree (asBytes "/srv") ⟨.root, .root, 0o755⟩ := by
  intro first
  have hfirst : first.2 = .ok .corrected := by decide +kernel
  have hsecond : (makeDir bareTools first.1 (asBytes "/srv") ⟨.root, .root, 0o755⟩).2 = .ok .corrected := by
    decide +kernel
  refine ⟨hfirst, by decide +kernel, hsecond, fun h => ?_⟩
  have hagain := congrArg Prod.snd (h.exact .corrected hfirst).2
  cases hsecond.symm.trans hagain

end DeployCore
