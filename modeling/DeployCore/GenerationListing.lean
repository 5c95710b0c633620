import DeployCore.GenerationRun
import DeployCore.Lib.Checked
import DeployCore.Lib.Utf8

/-! # The names of a listing, and the index above them

`parse_generation` and `parse_tmp_generation` as the source writes them, with the conversion to UTF-8 that no rendered
name fails, and what pruning and allocation make of the names they accept. The index that is allocated is above every one
of the listing unless the listing has the last index. -/

namespace DeployCore
open Directory Crash

/-- `OsStr::to_str`: a name that is not UTF-8 has no text. -/
def toStr (name : Bytes) : Option Bytes :=
  if name.toByteArray.IsValidUTF8 then some name else none

/-- `parse_generation`, with its `to_str`. -/
def parseGenerationStr (path : Bytes) : Option UInt64 := do
  let name ← (fileName path).bind toStr
  let digits ← stripBytes GENERATION_PREFIX name
  let generation ← parseU64 digits
  if digits = toDecimal generation then some generation else none

/-- `parse_tmp_generation`, with the `to_str` of the stem. -/
def parseTmpGenerationStr (path : Bytes) : Option UInt64 := do
  let name ← fileName path
  if (← extension name) ≠ TMP_EXTENSION then none
  else parseGenerationStr (← fileStem name)

theorem toStr_generationName {generation : UInt64} :
    toStr (generationName generation) = some (generationName generation) := by
  have hascii : ∀ byte ∈ generationName generation, byte < 0x80 := by
    intro byte hbyte
    rcases List.mem_append.mp hbyte with hbyte | hbyte
    · have hall : ∀ byte ∈ GENERATION_PREFIX, byte < 0x80 := by decide +kernel
      exact hall byte hbyte
    · have hdigit := (Decimal.mem_write hbyte).2
      exact UInt8.lt_iff_toNat_lt.mpr (Nat.lt_of_le_of_lt hdigit (by decide))
  obtain ⟨m, hm⟩ := Utf8.exists_encode_of_ascii hascii
  have hvalid : (Utf8.encode m).toByteArray.IsValidUTF8 := .intro m rfl
  exact if_pos (hm ▸ hvalid)

/-- The conversion never decides: a name that it refuses has no spelling of an index either. -/
theorem parseGenerationStr_eq (path : Bytes) : parseGenerationStr path = parseGeneration path := by
  unfold parseGenerationStr parseGeneration
  rcases fileName path with _ | name
  · rfl
  by_cases hvalid : toStr name = some name
  · rw [Option.bind_some, hvalid]
  have hnone : toStr name = none := by
    unfold toStr at hvalid ⊢
    split at hvalid
    · exact absurd rfl hvalid
    next hinvalid => exact if_neg hinvalid
  rw [Option.bind_some, hnone]
  refine (Option.eq_none_iff_forall_ne_some.mpr fun generation h => hvalid ?_).symm
  simp only [Option.bind_eq_bind, Option.bind_eq_some_iff, Option.some.injEq, exists_eq_left'] at h
  obtain ⟨digits, hdigits, n, -, hn⟩ := h
  split at hn
  · next heq =>
    rw [stripBytes_eq_some_iff.mp hdigits, heq]
    exact toStr_generationName
  · cases hn

theorem parseTmpGenerationStr_eq (path : Bytes) : parseTmpGenerationStr path = parseTmpGeneration path := by
  simp only [parseTmpGenerationStr, parseTmpGeneration, parseGenerationStr_eq]

/-! ### What a listing is good for -/

/-- The parsers accept the spellings of the engine among the names, each its own. -/
structure NamesExact (names : List Bytes) : Prop where
  generation : ∀ name ∈ names, ∀ n, parseGenerationStr name = some n ↔ name = generationName n
  tmp : ∀ name ∈ names, ∀ n, parseTmpGenerationStr name = some n ↔ name = tmpGenerationName n
  apart : ∀ name ∈ names, parseGenerationStr name = none ∨ parseTmpGenerationStr name = none

/-- The names that the engine renders, but for that of the generation kept. -/
def Rendered (keep : UInt64) : Set Bytes :=
  {name | (∃ n, name = tmpGenerationName n) ∨ ∃ n, n ≠ keep ∧ name = generationName n}

/-- No rendered name is that of a plain file. -/
def NoFiles (keep : UInt64) (d : Disk) : Prop :=
  ∀ name ∈ Rendered keep, ∀ bytes flushed, find d.root name ≠ some (.file bytes flushed)

section Prune
variable {ε : Type} [FromGenerationError ε]

/-- Pruning leaves every other entry alone, however it goes; when it returns, no rendered one is left; and it does return
when nothing fails and no rendered name is that of a plain file. -/
structure PrunesExactly (host : Host ε) (root : Bytes) (keep : UInt64) (d : Disk) : Prop where
  others : ∀ out w', Runs (device host) (pruneGenerations root keep) ⟨d, []⟩ out w' →
    ∀ name, SLASH ∉ name → name ∉ Rendered keep → find w'.state.root name = find d.root name
  rendered : ∀ w', Runs (device host) (pruneGenerations root keep) ⟨d, []⟩ (.ok ()) w' →
    ∀ name ∈ Rendered keep, find w'.state.root name = none
  returns : NoFiles keep d → ∃ w', Runs (device host) (pruneGenerations root keep) ⟨d, []⟩ (.ok ()) w'

/-- `max + 1` in a build with overflow checks, which aborts where the sum does not fit. -/
def checkedNext (names : List Bytes) : Option UInt64 := Checked.add (highestGeneration 0 names) 1

/-- The index allocated is above every index listed, whether the build wraps or checks. -/
structure NextIsAbove (host : Host ε) (root : Bytes) (d : Disk) : Prop where
  wrapping : ∀ n w', Runs (device host) (nextGeneration root) ⟨d, []⟩ (.ok n) w' →
    ∀ m, generationName m ∈ names d.root → m < n
  checking : ∃ n, checkedNext (names d.root) = some n ∧ ∀ m, generationName m ∈ names d.root → m < n

variable {host : Host ε} {root : Bytes} {keep : UInt64} {d : Disk} {w : Scene ε} {name : Bytes}

omit [FromGenerationError ε] in
theorem mem_prunable_iff (hslash : SLASH ∉ name) : name ∈ Prunable keep ↔ name ∈ Rendered keep := by
  have htmp : (parseTmpGeneration name).isSome ↔ ∃ n, name = tmpGenerationName n := by
    rw [Option.isSome_iff_exists]
    exact exists_congr fun n => parseTmpGeneration_iff hslash
  have hgen : (parseGeneration name).any (· ≠ keep) ↔ ∃ n, n ≠ keep ∧ name = generationName n := by
    rw [Option.any_eq_true]
    refine exists_congr fun n => ?_
    rw [parseGeneration_iff hslash, decide_eq_true_iff, and_comm]
  exact or_congr htmp hgen

theorem slash_not_mem_of_rendered (h : name ∈ Rendered keep) : SLASH ∉ name := by
  rcases h with ⟨n, rfl⟩ | ⟨n, -, rfl⟩
  · exact slash_not_mem_tmpGenerationName
  · exact slash_not_mem_generationName

theorem namesExact {names : List Bytes} (hnames : ∀ name ∈ names, SLASH ∉ name) : NamesExact names where
  generation name hname n := by
    rw [parseGenerationStr_eq]
    exact parseGeneration_iff (hnames name hname)
  tmp name hname n := by
    rw [parseTmpGenerationStr_eq]
    exact parseTmpGeneration_iff (hnames name hname)
  apart name hname := by
    rw [parseGenerationStr_eq, parseTmpGenerationStr_eq]
    rcases hparse : parseGeneration name with _ | n
    · exact .inl rfl
    · rw [(parseGeneration_iff (hnames name hname)).mp hparse]
      exact .inr parseTmpGeneration_generationName

/-! ### Pruning where nothing fails -/

omit [FromGenerationError ε] in
theorem eval_tryFs {o : FsOp} {out : o.Out} {d' : Disk} (h : o.run host.elsewhere w.state = .ok (out, d')) :
    (tryFs o : Engine ε _).eval (device host) w = (.ok (.ok out), w.record (.fs o) (some (.ok out)) d') := by
  have hrun : (device host).run (.fs o) w.state = (.ok out, d') := by simp only [device, h]
  simp only [tryFs, Prog.perform, Prog.eval, hrun]

theorem eval_fs {path : Bytes} {o : FsOp} {out : o.Out} {d' : Disk} (h : o.run host.elsewhere w.state = .ok (out, d')) :
    (fs path o : Engine ε _).eval (device host) w = (.ok out, w.record (.fs o) (some (.ok out)) d') :=
  Prog.eval_bind (eval_tryFs h)

theorem eval_removeDirAllIfPresent (hfiles : NoFiles keep w.state) (hname : name ∈ Rendered keep) :
    ∃ w', (removeDirAllIfPresent root name : Engine ε _).eval (device host) w = (.ok (), w') ∧
      NoFiles keep w'.state := by
  rcases hfind : find w.state.root name with _ | node
  · have hrun : (device host).run (.fs (.removeDirAll name)) w.state = (.error .notFound, w.state) := by
      simp only [device, FsOp.run, hfind]
    have htry : (tryFs (.removeDirAll name) : Engine ε _).eval (device host) w =
        (.ok (.error .notFound), w.record (.fs (.removeDirAll name)) (some (.error .notFound)) w.state) := by
      simp only [tryFs, Prog.perform, Prog.eval, hrun]
    exact ⟨_, Prog.eval_bind htry, hfiles⟩
  · have hok : (FsOp.removeDirAll name).run host.elsewhere w.state =
        .ok ((), w.state.update (erase w.state.root name)) := by
      cases node with
      | file bytes flushed => exact absurd hfind (hfiles name hname bytes flushed)
      | link target => simp only [FsOp.run, hfind]
      | dir entries flushed => simp only [FsOp.run, hfind]
    refine ⟨_, Prog.eval_bind (eval_tryFs hok), fun other hother bytes flushed => ?_⟩
    show find (erase w.state.root name) other ≠ _
    by_cases heq : other = name
    · rw [heq, find_erase_self]
      simp
    · rw [find_erase_ne heq]
      exact hfiles other hother bytes flushed

theorem eval_pruneEntry (host : Host ε) (root : Bytes) (hslash : SLASH ∉ name) (hfiles : NoFiles keep w.state) :
    ∃ w', (pruneEntry root keep name : Engine ε _).eval (device host) w = (.ok (), w') ∧ NoFiles keep w'.state := by
  have hnext : (fs root .nextEntry : Engine ε _).eval (device host) w =
      (.ok (), w.record (.fs .nextEntry) (some (.ok ())) w.state) := eval_fs rfl
  rw [pruneEntry, Prog.eval_bind hnext]
  split
  next hprune => exact eval_removeDirAllIfPresent hfiles ((mem_prunable_iff hslash).mp hprune)
  next => exact ⟨_, rfl, hfiles⟩

theorem eval_prune (host : Host ε) (root : Bytes) {names : List Bytes} (hnames : ∀ name ∈ names, SLASH ∉ name) (hfiles : NoFiles keep w.state) :
    ∃ w', (Prog.each (pruneEntry root keep) names : Engine ε _).eval (device host) w = (.ok (), w') := by
  induction names generalizing w with
  | nil => exact ⟨w, rfl⟩
  | cons name rest ih =>
    obtain ⟨hname, hrest⟩ := List.forall_mem_cons.mp hnames
    obtain ⟨w₁, hentry, hfiles₁⟩ := eval_pruneEntry host root hname hfiles
    obtain ⟨w₂, hprune⟩ := ih hrest hfiles₁
    exact ⟨w₂, (Prog.eval_bind hentry).trans hprune⟩

theorem prunesExactly (hnames : ∀ name ∈ names d.root, SLASH ∉ name) : PrunesExactly host root keep d where
  others out w' hrun name hslash hname := by
    have hsince := (Runs.of_wp hrun (wp_within pruneGenerations_uses)).1
    exact hsince.state.root name fun hprune => hname ((mem_prunable_iff hslash).mp hprune)
  rendered w' hrun name hname := by
    have hpruned := (Runs.of_wp hrun pruneGenerations_returns).2 () rfl
    exact hpruned name ((mem_prunable_iff (slash_not_mem_of_rendered hname)).mpr hname)
  returns hfiles := by
    have hlisted : (fs root .readDir : Engine ε _).eval (device host) ⟨d, []⟩ =
        (.ok (names d.root), World.record ⟨d, []⟩ (.fs .readDir) (some (.ok (names d.root))) d) := eval_fs rfl
    obtain ⟨w', hprune⟩ := eval_prune host root
      (w := World.record ⟨d, []⟩ (.fs .readDir) (some (.ok (names d.root))) d) hnames hfiles
    have heval := (Prog.eval_bind (f := Prog.each (pruneEntry root keep)) hlisted).trans hprune
    have hrun : Runs (device host) _ _ _ _ := Prog.runs_eval (pruneGenerations root keep) ⟨d, []⟩
    rw [pruneGenerations, heval] at hrun
    exact ⟨w', hrun⟩

/-! ### Allocating above a listing -/

theorem hasRoom_iff (hnames : ∀ name ∈ names d.root, SLASH ∉ name) :
    d.HasRoom ↔ generationName MAX_GENERATION ∉ names d.root := by
  constructor
  · intro hroom hmem
    exact hroom _ hmem parseGeneration_generationName
  · intro hnot name hname hparse
    exact hnot ((parseGeneration_iff (hnames name hname)).mp hparse ▸ hname)

theorem nextIsAbove_iff (hnames : ∀ name ∈ names d.root, SLASH ∉ name) :
    NextIsAbove host root d ↔ generationName MAX_GENERATION ∉ names d.root := by
  constructor
  · rintro ⟨-, n, -, habove⟩ hmem
    have hlt := UInt64.lt_iff_toNat_lt.mp (habove _ hmem)
    have hbound := n.toNat_lt
    have hmax : MAX_GENERATION.toNat = 18446744073709551615 := rfl
    omega
  · intro hnot
    have htoNat := ((hasRoom_iff hnames).mpr hnot).toNat_nextIndex
    have habove : ∀ m, generationName m ∈ names d.root → m < d.nextIndex := by
      intro m hm
      have hle := (le_highestGeneration 0 (names d.root)).2 _ hm _ parseGeneration_generationName
      rw [UInt64.lt_iff_toNat_lt, htoNat]
      omega
    refine ⟨fun n w' hrun m hm => ?_, d.nextIndex, Checked.add_eq_some.mpr htoNat.symm, habove⟩
    obtain ⟨rfl, -⟩ := (Runs.of_wp hrun nextGeneration_returns).2 n rfl
    exact habove m hm

/-- The parsers are exact, pruning removes what the engine rendered and did not keep, and allocation goes above the
listing, exactly where the listing does not have the last index. -/
theorem generationListing_iff (host : Host ε) (root : Bytes) (keep : UInt64)
    (hnames : ∀ name ∈ names d.root, SLASH ∉ name) :
    (NamesExact (names d.root) ∧ PrunesExactly host root keep d ∧ NextIsAbove host root d) ↔
      generationName MAX_GENERATION ∉ names d.root := by
  rw [nextIsAbove_iff hnames]
  exact ⟨fun h => h.2.2, fun h => ⟨namesExact hnames, prunesExactly hnames, h⟩⟩

end Prune

def firstDisk : Disk := ⟨[(generationName 1, .dir [] true)], []⟩

theorem generationListing_iff_first :
    (∀ name ∈ names firstDisk.root, SLASH ∉ name) ∧ NamesExact (names firstDisk.root) ∧
      PrunesExactly sampleHost [] 1 firstDisk ∧ NextIsAbove sampleHost [] firstDisk := by
  have hnames : ∀ name ∈ names firstDisk.root, SLASH ∉ name := by decide +kernel
  exact ⟨hnames, (generationListing_iff sampleHost [] 1 hnames).mpr (by decide +kernel)⟩

/-- A root with the last index. -/
def lastDisk : Disk := ⟨[(generationName MAX_GENERATION, .dir [] true)], []⟩

/-- Above the last index a release build wraps around to `0`, and one with overflow checks aborts. -/
theorem lastDisk_not_above :
    (∃ w', Runs (device sampleHost) (nextGeneration [] : Engine GenerationError _) ⟨lastDisk, []⟩ (.ok 0) w') ∧
      checkedNext (names lastDisk.root) = none ∧
      ¬(NamesExact (names lastDisk.root) ∧ PrunesExactly sampleHost [] 0 lastDisk ∧
        NextIsAbove sampleHost [] lastDisk) := by
  have hrun : Runs (device sampleHost) (nextGeneration [] : Engine GenerationError _) ⟨lastDisk, []⟩ (.ok 0)
      ((nextGeneration [] : Engine GenerationError _).eval (device sampleHost) ⟨lastDisk, []⟩).2 :=
    Prog.runs_eval (nextGeneration []) ⟨lastDisk, []⟩
  refine ⟨⟨_, hrun⟩, by decide +kernel, fun ⟨_, _, habove⟩ => ?_⟩
  have hlt := habove.wrapping 0 _ hrun MAX_GENERATION List.mem_cons_self
  exact absurd hlt (by decide)

end DeployCore
