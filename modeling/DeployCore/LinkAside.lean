import DeployCore.PutNatively

/-! # Linking a file aside (`src/executor.rs`, `src/apply.rs`)

`hard_link_over_natively` as a program of its system calls: a link at the first free temporary name beside the
destination, a rename over the destination, a removal of the name, a flush. `backupPreviousArtifact` asks for it where
there is an artifact to keep. Wherever either stops, only the destination and temporary names that were free have
changed, and the destination is what it was or the source itself (`Aside`). -/

namespace DeployCore
open Staging Crash

def EPERM : ErrorKind := .other 1

namespace FileTree
variable (t : FileTree)

/-- The tree with one more name for an inode. -/
def link (path : Staging.Path) (ino : Nat) (h : ino < t.dir.nodes.length) : FileTree where
  dir := t.dir.link path ino
  valid := by
    intro path' ino' hpath
    by_cases heq : path' = path
    · subst heq
      rw [Links.Dir.find_link_self] at hpath
      cases hpath
      exact h
    · rw [Links.Dir.find_link_ne heq] at hpath
      exact t.valid hpath

/-- `link(2)`, which follows nothing and links no directory. -/
def hardLink (source dest : Staging.Path) : Except IoError FileTree :=
  match h : t.dir.find source with
  | none => .error (.os .notFound)
  | some ino =>
    if t.dir.find dest ≠ none then .error (.os EEXIST)
    else if t.look source = some .directory then .error (.os EPERM)
    else .ok (t.link dest ino (t.valid h))

/-- `symlink_metadata`. -/
def lstat (path : Staging.Path) : Except IoError FileNode :=
  match t.look path with
  | none => .error (.os .notFound)
  | some node => .ok node

end FileTree

/-- The tag of the symbolic links. -/
def LINK_TAG : Nat := 0

def LINK_TEMP_ATTEMPTS : Nat := 64

def PREVIOUS_ARTIFACT_SUFFIX : Bytes := asBytes ".previous"

/-- The name an attempt draws. -/
def linkTempName (pid attempt : Nat) : Bytes :=
  asBytes ".bootler.link." ++ Decimal.write pid ++ asBytes "." ++ Decimal.write attempt

/-- What went wrong, as it reads. -/
inductive LinkReason
  | failed (path : Staging.Path) (error : IoError)
  | symbolicLink (source : Staging.Path)
  | notRegular (source : Staging.Path)
  | noFreeName (dest temp : Staging.Path) (error : IoError)
  | noDirectory
  deriving DecidableEq

/-- `ExecutorError::Transfer`. -/
structure TransferError where
  path : Staging.Path
  reason : LinkReason
  deriving DecidableEq

/-- `test -e`, which follows a link, and `test -h`. -/
inductive TestFlag
  | entry
  | symlink
  deriving DecidableEq

inductive SwapOp
  | test (flag : TestFlag) (path : Staging.Path)
  | lstat (path : Staging.Path)
  | hardLink (source dest : Staging.Path)
  | landing (o : LandingOp)

abbrev SwapRes : SwapOp → Type
  | .test _ _ => Except ExecutorError Bool
  | .lstat _ => Except IoError FileNode
  | .hardLink _ _ => Except IoError Unit
  | .landing o => LandingRes o

/-- Whose files are created, and which of the symbolic links lead anywhere. -/
structure SwapHost where
  creator : Creator
  resolves : Staging.Path → Bool

def SwapHost.test (host : SwapHost) (t : FileTree) (path : Staging.Path) : TestFlag → Bool
  | .entry =>
    match t.look path with
    | none => false
    | some node => if node = .other LINK_TAG then host.resolves path else true
  | .symlink => t.look path = some (.other LINK_TAG)

/-- A `test` that runs tells what there is. A link is made or is not. -/
def swapDevice (host : SwapHost) : Device SwapOp SwapRes FileTree where
  run
    | .test flag path, t => (.ok (host.test t path flag), t)
    | .lstat path, t => (t.lstat path, t)
    | .hardLink source dest, t => carriedOut t (t.hardLink source dest)
    | .landing o, t => o.run host.creator t
  fault
    | .test _ _, r => ∃ e, r = .error e
    | .lstat _, r => ∃ e, r = .error e
    | .hardLink _ _, r => ∃ e, r = .error e
    | .landing _, r => ∃ e, r = .error e
  torn
    | .test _ _, t, t' => t' = t
    | .lstat _, t, t' => t' = t
    | .hardLink _ _, t, t' => t' = t
    | .landing o, t, t' => o.Torn t t'

abbrev SwapProg := Prog SwapOp SwapRes

/-! ## The programs -/

section Programs
variable {ε : Type}

def tryTest (flag : TestFlag) (path : Staging.Path) : SwapProg ε (Except ExecutorError Bool) :=
  Prog.perform (SwapOp.test flag path)

def tryLstat (path : Staging.Path) : SwapProg ε (Except IoError FileNode) := Prog.perform (SwapOp.lstat path)

def tryHardLink (source dest : Staging.Path) : SwapProg ε (Except IoError Unit) := Prog.perform (SwapOp.hardLink source dest)

def tryRename (source dest : Staging.Path) : SwapProg ε (Except IoError Unit) :=
  Prog.perform (SwapOp.landing (.rename source dest))

def tryRemoveFile (path : Staging.Path) : SwapProg ε (Except IoError Unit) := Prog.perform (SwapOp.landing (.removeFile path))

def trySyncDir (path : Staging.Path) : SwapProg ε (Except IoError Unit) := Prog.perform (SwapOp.landing (.syncDir path))

variable (pid : Nat) (source dest : Staging.Path)

/-- The check of what was linked. -/
def checkLinked (temp : Staging.Path) : SwapProg TransferError Staging.Path := do
  match ← tryLstat temp with
  | .ok (.file _) => pure temp
  | .ok _ => do
    let _ ← tryRemoveFile temp
    .fail ⟨dest, .notRegular source⟩
  | .error e => do
    let _ ← tryRemoveFile temp
    .fail ⟨dest, .failed temp e⟩

/-- One attempt; what follows where the name is taken is told why. -/
def attemptLink (attempt : Nat) (occupied : IoError → SwapProg TransferError Staging.Path) : SwapProg TransferError Staging.Path := do
  let temp := linkTempName pid attempt :: dest.tail
  match ← tryHardLink source temp with
  | .ok () => checkLinked source dest temp
  | .error e => if e = .os EEXIST then occupied e else .fail ⟨dest, .failed temp e⟩

/-- The attempts, of which `left` more may follow this one. -/
def linkFrom : (left attempt : Nat) → SwapProg TransferError Staging.Path
  | 0, attempt => attemptLink pid source dest attempt fun e =>
    .fail ⟨dest, .noFreeName dest (linkTempName pid attempt :: dest.tail) e⟩
  | left + 1, attempt => attemptLink pid source dest attempt fun _ => linkFrom left (attempt + 1)

def linkAside : SwapProg TransferError Staging.Path := do
  match ← tryLstat source with
  | .ok (.file _) => linkFrom pid source dest (LINK_TEMP_ATTEMPTS - 1) 0
  | .ok node =>
    if node = .other LINK_TAG then .fail ⟨dest, .symbolicLink source⟩ else .fail ⟨dest, .notRegular source⟩
  | .error e => .fail ⟨dest, .failed source e⟩

def publishLink (temp : Staging.Path) : SwapProg TransferError Unit := do
  let renamed ← tryRename temp dest
  let _ ← tryRemoveFile temp
  Prog.lift (renamed.mapError fun e => ⟨dest, .failed temp e⟩)

def hardLinkOverNatively : SwapProg TransferError Unit := do
  if dest = [] then .fail ⟨dest, .noDirectory⟩
  else do
    let temp ← linkAside pid source dest
    publishLink dest temp
    let synced ← trySyncDir dest.tail
    Prog.lift (synced.mapError fun e => ⟨dest, .failed dest.tail e⟩)

inductive CoreError
  | executor (error : ExecutorError)
  | command (subject host : String) (diagnostic : LinkReason)
  deriving DecidableEq

/-- A probe that could not be made is the executor's error. -/
def probe (flag : TestFlag) (path : Staging.Path) : SwapProg CoreError Bool := do
  let found ← tryTest flag path
  Prog.lift (found.mapError .executor)

def entryPresent (path : Staging.Path) : SwapProg CoreError Bool := do
  if ← probe .entry path then pure true else probe .symlink path

/-- The path with the suffix behind its last component. -/
def previousOf : Staging.Path → Staging.Path
  | [] => [PREVIOUS_ARTIFACT_SUFFIX]
  | name :: dir => (name ++ PREVIOUS_ARTIFACT_SUFFIX) :: dir

def backupPreviousArtifact (subject host : String) : SwapProg CoreError Unit := do
  if ← entryPresent dest then (hardLinkOverNatively pid dest (previousOf dest)).mapEnd (fun e => .command subject host e.reason) id
  else pure ()

end Programs

/-! ## What a link leaves -/

/-- A name that an attempt beside the destination draws, in whatever process. -/
def LinkTemp (dest path : Staging.Path) : Prop :=
  ∃ pid attempt, attempt < LINK_TEMP_ATTEMPTS ∧ path = linkTempName pid attempt :: dest.tail

def FileTree.IsFile (t : FileTree) (path : Staging.Path) : Prop := ∃ file, t.look path = some (.file file)

/-- What may have changed: the destination, to the source, and temporary names that were free, to more names of the
source. -/
structure Aside (source dest : Staging.Path) (t t' : FileTree) : Prop where
  nodes : t'.dir.nodes = t.dir.nodes
  others : ∀ path, path ≠ dest → t'.dir.find path = t.dir.find path ∨
    (t.dir.find path = none ∧ LinkTemp dest path ∧ t'.dir.find path = t.dir.find source)
  target : t'.dir.find dest = t.dir.find dest ∨ (t'.dir.find dest = t.dir.find source ∧ t.IsFile source)

/-- The temporary is a second name of the source, and nothing else has changed. -/
structure LinkedAside (source dest temp : Staging.Path) (t t' : FileTree) : Prop where
  nodes : t'.dir.nodes = t.dir.nodes
  file : t.IsFile source
  drawn : LinkTemp dest temp
  free : t.dir.find temp = none
  find : t'.dir.find temp = t.dir.find source
  others : ∀ path, path ≠ temp → t'.dir.find path = t.dir.find path

/-- The destination is the source. -/
structure PublishedAside (source dest : Staging.Path) (t t' : FileTree) : Prop where
  aside : Aside source dest t t'
  file : t.IsFile source
  target : t'.dir.find dest = t.dir.find source

section Aside
variable {pid attempt : Nat} {source dest temp path : Staging.Path} {t t' t'' : FileTree}

theorem FileTree.look_congr {path' : Staging.Path} (hnodes : t'.dir.nodes = t.dir.nodes)
    (h : t'.dir.find path' = t.dir.find path) : t'.look path' = t.look path := by
  rw [FileTree.look, FileTree.look, h, hnodes]

theorem Aside.refl : Aside source dest t t := ⟨rfl, fun _ _ => .inl rfl, .inl rfl⟩

theorem Aside.find_source (h : Aside source dest t t') (hne : source ≠ dest) : t'.dir.find source = t.dir.find source := by
  rcases h.others source hne with hsame | ⟨-, -, hsame⟩
  · exact hsame
  · exact hsame

theorem Aside.look_source (h : Aside source dest t t') (hne : source ≠ dest) : t'.look source = t.look source :=
  FileTree.look_congr h.nodes (h.find_source hne)

theorem Aside.trans (hne : source ≠ dest) (h : Aside source dest t t') (h' : Aside source dest t' t'') :
    Aside source dest t t'' := by
  refine ⟨h'.nodes.trans h.nodes, fun path hpath => ?_, ?_⟩
  · rcases h'.others path hpath with hsame | ⟨hfree, hdrawn, hfind⟩
    · rw [hsame]
      exact h.others path hpath
    · -- a name that is free by now was free from the start, or the source is not there
      refine .inr ⟨?_, hdrawn, hfind.trans (h.find_source hne)⟩
      rcases h.others path hpath with hsame | ⟨hnone, -, -⟩
      · exact hsame ▸ hfree
      · exact hnone
  · rcases h'.target with hsame | ⟨hfind, file, hfile⟩
    · rw [hsame]
      exact h.target
    · exact .inr ⟨hfind.trans (h.find_source hne), file, (h.look_source hne).symm.trans hfile⟩

theorem LinkedAside.aside (h : LinkedAside source dest temp t t') (hdest : ¬LinkTemp dest dest) : Aside source dest t t' := by
  refine ⟨h.nodes, fun path _ => ?_, .inl (h.others dest fun he => hdest (he ▸ h.drawn))⟩
  by_cases hpath : path = temp
  · subst hpath
    exact .inr ⟨h.free, h.drawn, h.find⟩
  · exact .inl (h.others path hpath)

/-- Where the temporary's name is taken away again, everything is as it was. -/
theorem LinkedAside.unlink (h : LinkedAside source dest temp t t') : Aside source dest t (t'.unlink temp) := by
  have hsame : ∀ path, (t'.unlink temp).dir.find path = t.dir.find path := by
    intro path
    by_cases hpath : path = temp
    · rw [hpath, h.free]
      exact Links.Dir.find_unlink_self
    · exact (Links.Dir.find_unlink_ne hpath).trans (h.others path hpath)
  exact ⟨h.nodes, fun path _ => .inl (hsame path), .inl (hsame dest)⟩

theorem linked_of_hardLink (hfile : t.IsFile source) (hbound : attempt < LINK_TEMP_ATTEMPTS)
    (h : t.hardLink source (linkTempName pid attempt :: dest.tail) = .ok t') :
    LinkedAside source dest (linkTempName pid attempt :: dest.tail) t t' := by
  unfold FileTree.hardLink at h
  split at h
  · cases h
  next ino hfind =>
  split_ifs at h with hfree
  cases h
  have hself : (t.link (linkTempName pid attempt :: dest.tail) ino (t.valid hfind)).dir.find
      (linkTempName pid attempt :: dest.tail) = some ino := Links.Dir.find_link_self
  exact ⟨rfl, hfile, ⟨pid, attempt, hbound, rfl⟩, not_not.mp hfree, hself.trans hfind.symm,
    fun path hpath => Links.Dir.find_link_ne hpath⟩

/-- The rename of a temporary: where both names stand for the source already it does nothing. -/
theorem LinkedAside.publish (h : LinkedAside source dest temp t t') (hdest : ¬LinkTemp dest dest)
    (hok : t'.rename temp dest = .ok t'') : PublishedAside source dest t t'' := by
  obtain ⟨file, hlook⟩ := h.file
  obtain ⟨ino, hfind, -⟩ := Option.bind_eq_some_iff.mp hlook
  have htemp : t'.dir.find temp = some ino := h.find.trans hfind
  rcases FileTree.rename_of_find htemp hok with ⟨hsame, rfl⟩ | rfl
  · exact ⟨h.aside hdest, h.file, hsame.trans hfind.symm⟩
  · have htarget : (t'.move temp dest ino htemp).dir.find dest = t.dir.find source :=
      Links.Dir.find_link_self.trans hfind.symm
    refine ⟨⟨h.nodes, fun path hpath => .inl ((Links.Dir.find_link_ne hpath).trans ?_), .inr ⟨htarget, h.file⟩⟩, h.file, htarget⟩
    by_cases he : path = temp
    · rw [he, h.free]
      exact Links.Dir.find_unlink_self
    · exact (Links.Dir.find_unlink_ne he).trans (h.others path he)

/-- A temporary that was free is taken away. -/
theorem PublishedAside.unlink (h : PublishedAside source dest t t') (hdrawn : LinkTemp dest temp) (hfree : t.dir.find temp = none)
    (hdest : ¬LinkTemp dest dest) : PublishedAside source dest t (t'.unlink temp) := by
  have hne : dest ≠ temp := fun he => hdest (he ▸ hdrawn)
  have htarget : (t'.unlink temp).dir.find dest = t.dir.find source := (Links.Dir.find_unlink_ne hne).trans h.target
  refine ⟨⟨h.aside.nodes, fun path hpath => ?_, .inr ⟨htarget, h.file⟩⟩, h.file, htarget⟩
  by_cases he : path = temp
  · left
    rw [he, hfree]
    exact Links.Dir.find_unlink_self
  · rcases h.aside.others path hpath with hsame | ⟨hnone, htemp, hfind⟩
    · exact .inl ((Links.Dir.find_unlink_ne he).trans hsame)
    · exact .inr ⟨hnone, htemp, (Links.Dir.find_unlink_ne he).trans hfind⟩

/-- No name that an attempt draws has the suffix. -/
theorem not_linkTemp_previousOf : ¬LinkTemp (previousOf dest) (previousOf dest) := by
  rintro ⟨pid, attempt, -, hname⟩
  have hlast : ∀ name : Bytes, (name ++ PREVIOUS_ARTIFACT_SUFFIX).getLast? = some 115 := fun name => by
    rw [List.getLast?_append]
    rfl
  have hends : (linkTempName pid attempt).getLast? = some 115 := by
    cases dest with
    | nil =>
      rw [← (List.cons.inj hname).1]
      exact hlast []
    | cons name dir =>
      rw [← (List.cons.inj hname).1]
      exact hlast name
  -- but it ends in a digit
  rw [linkTempName, List.getLast?_append_of_ne_nil _ Decimal.write_ne_nil] at hends
  exact absurd (Decimal.mem_write (List.mem_of_getLast? hends)).2 (by decide)

theorem ne_previousOf : dest ≠ previousOf dest := by
  cases dest with
  | nil => exact fun h => List.cons_ne_nil _ _ h.symm
  | cons name dir =>
    intro h
    have hlength := congrArg List.length (List.cons.inj h).1
    rw [List.length_append] at hlength
    exact absurd (Nat.add_eq_left.mp hlength.symm) (by decide)

end Aside

/-! ## Every moment of a link -/

section Moments
variable {ε α : Type} {host : SwapHost} {pid : Nat} {source dest temp path : Staging.Path} {t : FileTree}
  {w : World SwapOp SwapRes FileTree} {stays : FileTree → Prop}

/-- A program that keeps `stays` wherever it stops, and those of its runs that return also meet `post`. -/
abbrev SwapWp (host : SwapHost) (stays : FileTree → Prop) (post : α → FileTree → Prop) (p : SwapProg ε α)
    (w : World SwapOp SwapRes FileTree) : Prop :=
  wp (swapDevice host) (fun a w' => post a w'.state) (fun w' => stays w'.state) p w

/-- A call that reads, and may fail. -/
theorem wp_asked {o : SwapOp} {answer : SwapRes o} (h : stays w.state)
    (htorn : ∀ t', (swapDevice host).torn o w.state t' → t' = w.state)
    (hrun : (swapDevice host).run o w.state = (answer, w.state)) :
    SwapWp host stays (fun r t' => t' = w.state ∧ (r = answer ∨ (swapDevice host).fault o r))
      (Prog.perform o : SwapProg ε _) w := by
  refine ⟨h, fun t' ht => (htorn t' ht).symm ▸ h, fun r t' hends => ?_⟩
  rcases hends with hdone | ⟨hfault, ht⟩
  · obtain ⟨rfl, rfl⟩ := Prod.mk.inj (hdone.trans hrun)
    exact ⟨h, rfl, .inl rfl⟩
  · obtain rfl := htorn t' ht
    exact ⟨h, rfl, .inr hfault⟩

theorem wp_tryTest {flag : TestFlag} (h : stays w.state) :
    SwapWp host stays (fun r t' => t' = w.state ∧ (r = .ok (host.test w.state path flag) ∨ ∃ e, r = .error e))
      (tryTest flag path : SwapProg ε _) w :=
  @wp_asked ε host w stays (.test flag path) _ h (fun _ ht => ht) rfl

theorem wp_tryLstat (h : stays w.state) :
    SwapWp host stays (fun r t' => t' = w.state ∧ (r = w.state.lstat path ∨ ∃ e, r = .error e))
      (tryLstat path : SwapProg ε _) w :=
  @wp_asked ε host w stays (.lstat path) _ h (fun _ ht => ht) rfl

/-- A call that is carried out, or changes nothing. -/
def CarriedOut (t : FileTree) (made : Except IoError FileTree) (r : Except IoError Unit) (t' : FileTree) : Prop :=
  (r = .ok () ∧ made = .ok t') ∨ (t' = t ∧ ∃ e, r = .error e)

theorem carriedOut_whole {made : Except IoError FileTree} {r : Except IoError Unit} {t' : FileTree}
    (h : (r, t') = carriedOut t made) : CarriedOut t made r t' := by
  cases made with
  | ok t'' =>
    cases h
    exact .inl ⟨rfl, rfl⟩
  | error e =>
    cases h
    exact .inr ⟨rfl, e, rfl⟩

theorem wp_tryHardLink (h : stays w.state) (hmade : ∀ t', w.state.hardLink source dest = .ok t' → stays t') :
    SwapWp host stays (CarriedOut w.state (w.state.hardLink source dest)) (tryHardLink source dest : SwapProg ε _) w := by
  refine ⟨h, fun t' ht => ?_, fun r t' hends => ?_⟩
  · obtain rfl : t' = w.state := ht
    exact h
  · have hcarried : CarriedOut w.state (w.state.hardLink source dest) r t' := by
      rcases hends with hdone | ⟨hno, ht⟩
      · exact carriedOut_whole hdone
      · exact .inr ⟨ht, hno⟩
    refine ⟨?_, hcarried⟩
    rcases hcarried with ⟨-, hok⟩ | ⟨rfl, -⟩
    · exact hmade t' hok
    · exact h

/-- A call of the landing's that is carried out as a whole or not at all. -/
theorem wp_landingOp {o : LandingOp} {made : Except IoError FileTree} (result : LandingRes o → Except IoError Unit)
    (h : stays w.state) (hmade : ∀ t', made = .ok t' → stays t') (hwrite : ∀ file contents, o ≠ .writeAll file contents)
    (hrun : ∀ r t', (r, t') = o.run host.creator w.state → CarriedOut w.state made (result r) t')
    (hfault : ∀ e, result (.error e) = .error e) :
    SwapWp host stays (fun r t' => CarriedOut w.state made (result r) t') (Prog.perform (SwapOp.landing o) : SwapProg ε _) w := by
  refine ⟨h, fun t' ht => ?_, fun r t' hends => ?_⟩
  · obtain rfl : t' = w.state := torn_unchanged ht hwrite
    exact h
  · have hcarried : CarriedOut w.state made (result r) t' := by
      rcases hends with hdone | ⟨⟨e, rfl⟩, ht⟩
      · exact hrun r t' hdone
      · exact .inr ⟨torn_unchanged ht hwrite, e, hfault e⟩
    refine ⟨?_, hcarried⟩
    rcases hcarried with ⟨-, hok⟩ | ⟨rfl, -⟩
    · exact hmade t' hok
    · exact h

theorem wp_tryRename (h : stays w.state) (hmade : ∀ t', w.state.rename source dest = .ok t' → stays t') :
    SwapWp host stays (CarriedOut w.state (w.state.rename source dest)) (tryRename source dest : SwapProg ε _) w :=
  @wp_landingOp ε host w stays (.rename source dest) _ id h hmade (by simp) (fun _ _ => carriedOut_whole) fun _ => rfl

theorem wp_tryRemoveFile (h : stays w.state) (hmade : ∀ t', w.state.removeFile path = .ok t' → stays t') :
    SwapWp host stays (CarriedOut w.state (w.state.removeFile path)) (tryRemoveFile path : SwapProg ε _) w :=
  @wp_landingOp ε host w stays (.removeFile path) _ id h hmade (by simp) (fun _ _ => carriedOut_whole) fun _ => rfl

theorem wp_trySyncDir (h : stays w.state) :
    SwapWp host stays (fun _ t' => t' = w.state) (trySyncDir path : SwapProg ε _) w := by
  refine (@wp_landingOp ε host w stays (.syncDir path) (.ok w.state) id h (fun _ he => Except.ok.inj he ▸ h) (by simp)
    (fun _ _ hdone => carriedOut_whole hdone) fun _ => rfl).mono (fun r w' hcarried => ?_) fun _ hw => hw
  rcases hcarried with ⟨-, hok⟩ | ⟨hsame, -⟩
  · exact (Except.ok.inj hok).symm
  · exact hsame

/-! ### The steps -/

/-- The temporary is unlinked, or stays. -/
theorem wp_dropTemp {e : TransferError} {post : α → FileTree → Prop} (h : LinkedAside source dest temp t w.state)
    (hdest : ¬LinkTemp dest dest) :
    SwapWp host (Aside source dest t) post (tryRemoveFile temp >>= fun _ => .fail e) w := by
  have hmade : ∀ t', w.state.removeFile temp = .ok t' → Aside source dest t t' := fun t' hok =>
    FileTree.removeFile_ok hok ▸ h.unlink
  refine wp.bind (wp_tryRemoveFile (h.aside hdest) hmade) fun r w' hcarried => ?_
  rcases hcarried with ⟨-, hok⟩ | ⟨hsame, -⟩
  · exact hmade _ hok
  · show Aside source dest t w'.state
    rw [hsame]
    exact h.aside hdest

theorem wp_checkLinked (h : LinkedAside source dest temp t w.state) (hdest : ¬LinkTemp dest dest) :
    SwapWp host (Aside source dest t) (fun temp t' => LinkedAside source dest temp t t') (checkLinked source dest temp) w := by
  refine wp.bind (wp_tryLstat (h.aside hdest)) fun found w' hlooked => ?_
  have h : LinkedAside source dest temp t w'.state := hlooked.1 ▸ h
  match found with
  | .ok (.file _) => exact wp_pure.mpr ⟨h.aside hdest, h⟩
  | .ok .directory | .ok (.other _) | .error _ => exact wp_dropTemp h hdest

/-- An attempt, where what follows finds the tree as it was. -/
theorem wp_attemptLink {attempt : Nat} {occupied : IoError → SwapProg TransferError Staging.Path} (hfile : t.IsFile source)
    (hdest : ¬LinkTemp dest dest) (hbound : attempt < LINK_TEMP_ATTEMPTS) (hstate : w.state = t)
    (hnext : ∀ e w', w'.state = t → SwapWp host (Aside source dest t) (LinkedAside source dest · t) (occupied e) w') :
    SwapWp host (Aside source dest t) (LinkedAside source dest · t) (attemptLink pid source dest attempt occupied) w := by
  have hmade : ∀ t', w.state.hardLink source (linkTempName pid attempt :: dest.tail) = .ok t' →
      LinkedAside source dest (linkTempName pid attempt :: dest.tail) t t' := fun t' hok =>
    linked_of_hardLink hfile hbound (hstate ▸ hok)
  refine wp.bind (wp_tryHardLink (hstate ▸ .refl) fun t' hok => (hmade t' hok).aside hdest) fun r w' hcarried => ?_
  rcases hcarried with ⟨rfl, hok⟩ | ⟨hsame, e, rfl⟩
  · exact wp_checkLinked (hmade _ hok) hdest
  · have hw' : w'.state = t := hsame.trans hstate
    show SwapWp host _ _ (if _ then _ else _) w'
    split
    · exact hnext e w' hw'
    · exact hw' ▸ Aside.refl

theorem wp_linkFrom (hfile : t.IsFile source) (hdest : ¬LinkTemp dest dest) {left attempt : Nat}
    (hbound : attempt + left < LINK_TEMP_ATTEMPTS) (hstate : w.state = t) :
    SwapWp host (Aside source dest t) (LinkedAside source dest · t) (linkFrom pid source dest left attempt) w := by
  induction left generalizing attempt w with
  | zero => exact wp_attemptLink hfile hdest hbound hstate fun e w' hw' => hw' ▸ Aside.refl
  | succ left ih => exact wp_attemptLink hfile hdest (by omega) hstate fun e w' hw' => ih (by omega) hw'

/-- What is linked aside is a file. -/
theorem wp_linkAside (hdest : ¬LinkTemp dest dest) (hstate : w.state = t) :
    SwapWp host (Aside source dest t) (LinkedAside source dest · t) (linkAside pid source dest) w := by
  have hstop : ∀ w' : World SwapOp SwapRes FileTree, w'.state = t → Aside source dest t w'.state := fun _ h => h ▸ .refl
  refine wp.bind (wp_tryLstat (hstop w hstate)) fun found w' hlooked => ?_
  have hw' : w'.state = t := hlooked.1.trans hstate
  match found with
  | .ok (.file file) =>
    have hfile : t.IsFile source := by
      rcases hlooked.2 with hread | ⟨e, hfault⟩
      · rw [hstate, FileTree.lstat] at hread
        split at hread
        · cases hread
        next node hlook =>
        cases hread
        exact ⟨file, hlook⟩
      · cases hfault
    exact wp_linkFrom hfile hdest (by decide) hw'
  | .ok .directory | .error _ => exact hstop w' hw'
  | .ok (.other tag) =>
    show SwapWp host _ _ (if _ then _ else _) w'
    split
    · exact hstop w' hw'
    · exact hstop w' hw'

theorem wp_publishLink (h : LinkedAside source dest temp t w.state) (hdest : ¬LinkTemp dest dest) :
    SwapWp host (Aside source dest t) (fun () t' => PublishedAside source dest t t') (publishLink dest temp) w := by
  refine wp.bind (wp_tryRename (h.aside hdest) fun t' hok => (h.publish hdest hok).aside) fun renamed w' hcarried => ?_
  rcases hcarried with ⟨rfl, hok⟩ | ⟨hsame, e, rfl⟩
  · have hdone : PublishedAside source dest t w'.state := h.publish hdest hok
    have hmade : ∀ t', w'.state.removeFile temp = .ok t' → PublishedAside source dest t t' := fun t' hok =>
      FileTree.removeFile_ok hok ▸ hdone.unlink h.drawn h.free hdest
    refine wp.bind (wp_tryRemoveFile hdone.aside fun t' hok => (hmade t' hok).aside) fun r w'' hremoved => ?_
    have hend : PublishedAside source dest t w''.state := by
      rcases hremoved with ⟨-, hok⟩ | ⟨hsame, -⟩
      · exact hmade _ hok
      · exact hsame ▸ hdone
    exact ⟨hend.aside, hend⟩
  · exact wp_dropTemp (e := ⟨dest, .failed temp e⟩) (hsame ▸ h) hdest

/-- The destination becomes the source at once, or stays. -/
theorem wp_hardLinkOverNatively (hdest : ¬LinkTemp dest dest) :
    SwapWp host (Aside source dest w.state) (fun () t' => PublishedAside source dest w.state t')
      (hardLinkOverNatively pid source dest) w := by
  unfold hardLinkOverNatively
  split
  · exact Aside.refl
  · refine wp.bind (wp_linkAside hdest rfl) fun temp w' hlinked => ?_
    refine wp.bind (wp_publishLink hlinked hdest) fun _ w'' hdone => ?_
    refine wp.bind (wp_trySyncDir hdone.aside) fun synced w₃ hsame => ?_
    have hdone : PublishedAside source dest w.state w₃.state := hsame ▸ hdone
    cases synced with
    | ok => exact ⟨hdone.aside, hdone⟩
    | error e => exact hdone.aside

/-! ## The backup -/

theorem wp_probe {flag : TestFlag} (h : stays w.state) :
    SwapWp host stays (fun found t' => t' = w.state ∧ found = host.test w.state path flag) (probe flag path) w := by
  refine wp.bind (wp_tryTest h) fun r w' htested => ?_
  have hw' : stays w'.state := htested.1.symm ▸ h
  rcases htested.2 with rfl | ⟨e, rfl⟩
  · exact ⟨hw', htested.1, rfl⟩
  · exact hw'

/-- A dangling link is there too. -/
theorem wp_entryPresent (h : stays w.state) :
    SwapWp host stays (fun found t' => t' = w.state ∧ (found = false → w.state.look path = none)) (entryPresent path) w := by
  refine wp.bind (wp_probe h) fun found w' hfound => ?_
  obtain ⟨hsame, hentry⟩ := hfound
  have hw' : stays w'.state := hsame.symm ▸ h
  cases found with
  | true => exact ⟨hw', hsame, fun hno => by cases hno⟩
  | false =>
    refine (wp_probe hw').mono (fun found w'' hfound => ?_) fun _ hw => hw
    rw [hsame] at hfound
    refine ⟨hfound.1, fun hno => ?_⟩
    have hlink : ¬w.state.look path = some (.other LINK_TAG) := of_decide_eq_false (hfound.2.symm.trans hno)
    cases hlook : w.state.look path with
    | none => rfl
    | some node =>
      rw [SwapHost.test, hlook] at hentry
      simp only at hentry
      split_ifs at hentry with htag
      exact absurd (htag ▸ hlook) hlink

/-- A backup that returns has found nothing, or published the artifact. -/
theorem wp_backupPreviousArtifact {subject name : String} :
    SwapWp host (Aside dest (previousOf dest) w.state)
      (fun () t' => (w.state.look dest = none ∧ t' = w.state) ∨ PublishedAside dest (previousOf dest) w.state t')
      (backupPreviousArtifact pid dest subject name) w := by
  refine wp.bind (wp_entryPresent Aside.refl) fun found w' hfound => ?_
  cases found with
  | false =>
    have hnone : w.state.look dest = none ∧ w'.state = w.state := ⟨hfound.2 rfl, hfound.1⟩
    have hstop : Aside dest (previousOf dest) w.state w'.state := hnone.2.symm ▸ .refl
    exact ⟨hstop, .inl hnone⟩
  | true =>
    refine wp_mapEnd.mpr ((wp_hardLinkOverNatively not_linkTemp_previousOf).mono (fun _ w'' hdone => ?_) fun w'' hstop => ?_)
    · rw [hfound.1] at hdone
      exact .inr hdone
    · rw [hfound.1] at hstop
      exact hstop

end Moments

/-! ## Attempt after attempt -/

section Attempts
variable {host : SwapHost} {pid : Nat} {dest : Staging.Path} {subject name : String} {t t' t'' : FileTree}
  {out : Outcome CoreError Unit}

theorem backup_aside (hgoes : Goes (swapDevice host) (backupPreviousArtifact pid dest subject name) t out t') :
    Aside dest (previousOf dest) t t' := by
  obtain ⟨events, hruns⟩ := hgoes
  exact (hruns.of_wp wp_backupPreviousArtifact).1

theorem backup_published (hgoes : Goes (swapDevice host) (backupPreviousArtifact pid dest subject name) t (.ok ()) t') :
    (t.look dest = none ∧ t' = t) ∨ PublishedAside dest (previousOf dest) t t' := by
  obtain ⟨events, hruns⟩ := hgoes
  exact (hruns.of_wp wp_backupPreviousArtifact).2 () rfl

theorem Aside.published (h : Aside dest (previousOf dest) t t') (h' : PublishedAside dest (previousOf dest) t' t'') :
    PublishedAside dest (previousOf dest) t t'' := by
  obtain ⟨file, hfile⟩ := h'.file
  exact ⟨h.trans ne_previousOf h'.aside, ⟨file, (h.look_source ne_previousOf).symm.trans hfile⟩,
    h'.target.trans (h.find_source ne_previousOf)⟩

/-- The backup attempted again and again, each time by a process of its own that returns, fails or is interrupted
anywhere. -/
inductive BackupRun (dest : Staging.Path) : FileTree → FileTree → Prop
  | refl {t : FileTree} : BackupRun dest t t
  | step {host : SwapHost} {pid : Nat} {subject name : String} {t t' t'' : FileTree} {out : Outcome CoreError Unit}
      (hrun : BackupRun dest t t')
      (hgoes : Goes (swapDevice host) (backupPreviousArtifact pid dest subject name) t' out t'') : BackupRun dest t t''

theorem BackupRun.aside (hrun : BackupRun dest t t') : Aside dest (previousOf dest) t t' := by
  induction hrun with
  | refl => exact .refl
  | step _ hgoes ih => exact ih.trans ne_previousOf (backup_aside hgoes)

end Attempts

/-- Root, with no link that leads anywhere. -/
def swapHost : SwapHost := ⟨⟨0, 0, 0o022⟩, fun _ => false⟩

theorem bare_valid {path : Staging.Path} {ino : Nat} (h : (⟨[], []⟩ : Links.Dir Staging.Path FileNode).find path = some ino) :
    ino < ([] : List FileNode).length := by
  cases h

/-- One file, `/o/f`. -/
def artifactTree : FileTree := (⟨⟨[], []⟩, bare_valid⟩ : FileTree).create [[102], [111]] (.file ⟨[120], 0, 0, 0o755⟩)

/-- An attempt on it. -/
def backupArtifact : SwapProg CoreError Unit := backupPreviousArtifact 7 [[102], [111]] "f" "host"

/-- What it leaves when it is interrupted once it has made its link. -/
def interruptedTree : FileTree := (backupArtifact.crashAfter (swapDevice swapHost) 3 ⟨artifactTree, []⟩).state

end DeployCore
