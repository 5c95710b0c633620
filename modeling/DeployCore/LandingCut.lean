import DeployCore.HandedInput
import DeployCore.LandingScript

/-! # A landing whose feed is cut (`src/executor.rs`)

The side that feeds `put_file` may stop after any byte of what it has to write. The script reads the end of its standard
input there, and goes on. -/

namespace DeployCore.LandingScript
open Staging Crash HandedInput LineStream

/-- The lines of standard input that `sudo` takes: none where it may not ask. -/
def linesTaken (taken : Nat) : SudoAuth → Nat
  | .nonInteractive => 0
  | .password _ => taken

/-- The feed of a side that stops after so many bytes. -/
def cutFeed (feed : Feed) (n : Nat) : Feed := ⟨feed.ahead.take n, none⟩

/-- What a `put_file` comes to start. -/
def begins (t : Elevating) (shell : LineShell) (auth : SudoAuth) (draws : Draws) (dest : Bytes) (m : FileMeta)
    (contents : Bytes) (taken n : Nat) : Except ExecutorRefusal (Option Begun) :=
  (t.spawns auth draws (.putFile dest m)).map fun spawned =>
    sudoStarts shell (elevatedScript auth draws (.putFile dest m)) (linesTaken taken auth)
      (cutFeed (fed draws (.putFile dest m) spawned.2 contents) n) spawned.1

/-- A started shell, where the script it is given is the landing one. -/
def shellRuns (host : ScriptHost) (begun : Begun) : ScriptProg Unit :=
  match begun.argv with
  | [shell, option, script, _, dest, owner, group, mode] =>
    if shell = SH ∧ option = dashC ∧ script = PUT_FILE_SCRIPT then putFileScript host dest owner group mode begun.stdin
    else pure ()
  | _ => pure ()

/-- `put_file` on the host, where `sudo` takes so many lines and the feed stops after so many bytes. -/
def putFileCut (t : Elevating) (shell : LineShell) (auth : SudoAuth) (draws : Draws) (host : ScriptHost) (dest : Bytes)
    (m : FileMeta) (contents : Bytes) (taken n : Nat) : ScriptProg Unit :=
  match begins t shell auth draws dest m contents taken n with
  | .ok (some begun) => shellRuns host begun
  | .ok none | .error _ => pure ()

/-! ## What is meant -/

/-- The bytes ahead of the contents. -/
def preambleOf (auth : SudoAuth) (draws : Draws) : Bytes :=
  (auth.preamble (passwordHandoff auth .root draws)).getD []

/-- The drawn nonce is in neither text that is written. -/
def NonceFree (shell : LineShell) (draws : Draws) (contents : Bytes) : SudoAuth → Prop
  | .nonInteractive => True
  | .password password => Absent shell draws.handoff (asBytes password) ∧ Absent shell draws.handoff contents

/-- The file a caller asks for. -/
structure IsAsked (host : ScriptHost) (m : FileMeta) (contents : Bytes) (file : LandedFile) : Prop where
  contents : file.contents = contents
  owner : host.account m.owner.asArg = some file.uid
  group : host.group m.group.asArg = some file.gid
  mode : file.mode = m.mode

/-- The destination is as it was, or the file asked for; and no other file was renamed over it. -/
structure LandsWhole (host : ScriptHost) (tree : FileTree) (dest : Bytes) (m : FileMeta) (contents : Bytes)
    (w : ScriptWorld) : Prop where
  target : w.state.look (resolve dest) = tree.look (resolve dest) ∨
    ∃ file, IsAsked host m contents file ∧ w.state.look (resolve dest) = some (.file file)
  moves : ∀ e ∈ w.events, ∀ source dest', e.op = .mv source dest' →
    ∃ file, IsAsked host m contents file ∧ e.before.look source = some (.file file)

section
variable {t : Elevating} {shell : LineShell} {auth : SudoAuth} {draws : Draws} {host : ScriptHost} {dest : Bytes}
  {m : FileMeta} {contents : Bytes} {taken n : Nat} {spawned : List Bytes × Option Bytes} {begun : Begun}
  {file : LandedFile} {tree : FileTree} {w : ScriptWorld}

theorem isAsked_of_asked (h : host.asked m.owner.asArg m.group.asArg m.modeArg contents = some file) :
    IsAsked host m contents file := by
  simp only [ScriptHost.asked, ScriptHost.metaOf, Option.bind_eq_bind, Option.map_eq_some_iff,
    Option.bind_eq_some_iff, parseMode_modeArg] at h
  obtain ⟨_, ⟨uid, huid, gid, hgid, mode, hmode, hnumbers⟩, rfl⟩ := h
  obtain rfl := Option.some.inj hnumbers
  split_ifs at hmode
  exact ⟨rfl, huid, hgid, (Option.some.inj hmode).symm⟩

/-- What is started: the script, on what the sentinel leaves of the feed. -/
theorem begins_spawned (hok : t.spawns auth draws (.putFile dest m) = .ok spawned) :
    begins t shell auth draws dest m contents taken n =
      .ok (((passwordHandoff auth .root draws).elim
        (some (skip LINE_END (linesTaken taken auth) ((preambleOf auth draws ++ contents).take n)))
        (discarded shell · (skip LINE_END (linesTaken taken auth) ((preambleOf auth draws ++ contents).take n)))).map
          fun rest => ⟨commandOf (.putFile dest m), false, rest⟩) := by
  have hcall : (ExecutorCall.putFile dest m).identity ≠ .operator := by simp [ExecutorCall.identity]
  obtain ⟨elevation, interpreter, hmem, hargv, hpreamble⟩ := spawns_elevated hcall hok
  have hahead : (fed draws (.putFile dest m) spawned.2 contents).ahead = preambleOf auth draws ++ contents := by
    rw [hpreamble]
    rcases auth <;> rfl
  rw [begins, hok, Except.map, hargv, sudoStarts_elevated hmem]
  simp only [sudoLeaves, cutFeed, Option.bind_some, hahead]
  rfl

/-- What the script reads is all that is behind what was taken of the feed, short of what was cut off. -/
theorem stdin_begins (hnonce : NonceFree shell draws contents auth)
    (h : begins t shell auth draws dest m contents taken n = .ok (some begun)) :
    begun.argv = commandOf (.putFile dest m) ∧ begun.stdin ++ (preambleOf auth draws ++ contents).drop n = contents := by
  rcases hspawned : t.spawns auth draws (.putFile dest m) with refusal | spawned
  · rw [begins, hspawned] at h
    cases h
  rw [begins_spawned hspawned] at h
  obtain ⟨rest, hrest, rfl⟩ := Option.map_eq_some_iff.mp (Except.ok.inj h)
  refine ⟨rfl, ?_⟩
  rcases auth with _ | password
  · obtain rfl := Option.some.inj hrest
    exact List.take_append_drop n contents
  · obtain ⟨hpassword, hcontents⟩ := hnonce
    have hstream : preambleOf (.password password) draws ++ contents = asBytes password ++
        LINE_END :: ((Handoff.new draws.handoff).line ++ LINE_END :: contents) := by
      simp [preambleOf, SudoAuth.preamble, passwordHandoff, Elevation.of, passwordPreamble, LINE_END]
    have hwhole : discarded shell (.new draws.handoff) (skip LINE_END taken
        ((preambleOf (.password password) draws ++ contents).take n ++
          (preambleOf (.password password) draws ++ contents).drop n)) =
        some (rest ++ (preambleOf (.password password) draws ++ contents).drop n) := skipThrough_skip_append hrest
    rw [List.take_append_drop, hstream] at hwhole
    rcases Nat.lt_or_ge (passwordLines password) taken with hpast | htaken
    · exact absurd (hwhole.symm.trans (discarded_past hcontents hpast)) (Option.some_ne_none _)
    · rw [hstream]
      exact Option.some.inj (hwhole.symm.trans (discarded_skip hpassword htaken))

/-- A feed that stops inside the preamble starts nothing; one that is whole is read whole. -/
theorem stdin_whole (hnonce : NonceFree shell draws contents auth)
    (hfeed : n < (preambleOf auth draws).length ∨ (preambleOf auth draws ++ contents).length ≤ n)
    (h : begins t shell auth draws dest m contents taken n = .ok (some begun)) : begun.stdin = contents := by
  obtain ⟨-, hstdin⟩ := stdin_begins hnonce h
  rcases hfeed with hshort | hlong
  · have hlength := congrArg List.length hstdin
    rw [List.length_append, List.length_drop, List.length_append] at hlength
    omega
  · rwa [List.drop_eq_nil_of_le hlong, List.append_nil] at hstdin

/-- The program of a call that starts the script. -/
theorem shellRuns_commandOf (hargv : begun.argv = commandOf (.putFile dest m)) :
    shellRuns host begun =
      putFileScript host (toStringLossy dest) m.owner.asArg m.group.asArg m.modeArg begun.stdin := by
  rw [shellRuns, hargv]
  exact if_pos ⟨rfl, rfl, rfl⟩

/-- Without a password, the script reads what has been written by then. -/
theorem putFileCut_nonInteractive (hok : t.spawns .nonInteractive draws (.putFile dest m) = .ok spawned) :
    putFileCut t shell .nonInteractive draws host dest m contents taken n =
      putFileScript host (toStringLossy dest) m.owner.asArg m.group.asArg m.modeArg (contents.take n) := by
  rw [putFileCut, begins_spawned hok]
  have hargv : (⟨commandOf (.putFile dest m), false, contents.take n⟩ : Begun).argv = commandOf (.putFile dest m) := rfl
  exact shellRuns_commandOf hargv

theorem Lands.whole (h : Lands tree (host.temp (toStringLossy dest)) (resolve (toStringLossy dest))
      (host.asked m.owner.asArg m.group.asArg m.modeArg contents) w)
    (htemp : host.temp (toStringLossy dest) ≠ some (resolve dest)) : LandsWhole host tree dest m contents w := by
  constructor
  · rcases h.entries (resolve dest) htemp.symm with hsame | ⟨-, file, hasked, hlook⟩
    · exact .inl hsame
    · exact .inr ⟨file, isAsked_of_asked hasked, hlook⟩
  · intro e he source dest' hmove
    obtain ⟨file, hasked, hlook⟩ := h.moves e he source dest' hmove
    exact ⟨file, isAsked_of_asked hasked, hlook⟩

theorem landsWhole_pure {out : Outcome ScriptExit Unit}
    (hrun : Runs (scriptDevice host) (pure () : ScriptProg Unit) ⟨tree, []⟩ out w) :
    LandsWhole host tree dest m contents w := by
  cases hrun with
  | ret => exact ⟨.inl rfl, fun _ he => absurd he List.not_mem_nil⟩
  | crash => exact ⟨.inl rfl, fun _ he => absurd he List.not_mem_nil⟩

end

/-- `put_file` through a shell transport, where its feed stops inside the preamble or is whole, and `mktemp` does not
draw the destination's own name: in every run, at every moment, the destination is as it was or the file asked for, and
no part of the contents is renamed over it. -/
theorem putFileCut_lands_whole (t : Elevating) (shell : LineShell) (auth : SudoAuth) (draws : Draws) (host : ScriptHost)
    (dest : Bytes) (m : FileMeta) (contents : Bytes) (taken n : Nat) (hnonce : NonceFree shell draws contents auth)
    (hfeed : n < (preambleOf auth draws).length ∨ (preambleOf auth draws ++ contents).length ≤ n)
    (htemp : host.temp (toStringLossy dest) ≠ some (resolve dest)) (tree : FileTree) (out : Outcome ScriptExit Unit)
    (w : ScriptWorld)
    (hrun : Runs (scriptDevice host) (putFileCut t shell auth draws host dest m contents taken n) ⟨tree, []⟩ out w) :
    LandsWhole host tree dest m contents w := by
  rw [putFileCut] at hrun
  rcases hbegins : begins t shell auth draws dest m contents taken n with refusal | _ | begun
  · rw [hbegins] at hrun
    exact landsWhole_pure hrun
  · rw [hbegins] at hrun
    exact landsWhole_pure hrun
  · rw [hbegins] at hrun
    obtain ⟨hargv, -⟩ := stdin_begins hnonce hbegins
    have hscript : Runs (scriptDevice host) (shellRuns host begun) ⟨tree, []⟩ out w := hrun
    rw [shellRuns_commandOf hargv, stdin_whole hnonce hfeed hbegins] at hscript
    exact (putFileScript_lands hscript).whole htemp

/-- Root on a host that has two levels of directories, all its own. -/
def rootHost : ScriptHost where
  probe path := if path.length ≤ 1 then some ⟨0, 0o755, 1⟩ else none
  creator := ⟨0, 0, 0o022⟩
  account _ := some 0
  group _ := some 0
  drawn := asBytes "abcdef"

theorem find_nil_lt {path : Staging.Path} {ino : Nat}
    (h : (⟨[], []⟩ : Links.Dir Staging.Path FileNode).find path = some ino) :
    ino < ([] : List FileNode).length := by cases h

def emptyTree : FileTree := ⟨⟨[], []⟩, find_nil_lt⟩

set_option maxRecDepth 20000 in
/-- The script has no letter U, which the sentinel has. -/
theorem not_mem_script : (85 : UInt8) ∉ PUT_FILE_SCRIPT := by
  have hcharacters {text : String} {characters : List Char} (htext : String.ofList characters = text)
      (hall : characters.all (fun c => 85 ∉ String.utf8EncodeChar c) = true) : (85 : UInt8) ∉ asBytes text := by
    rw [← htext, asBytes_eq_encode, String.toList_ofList, Utf8.encode, List.mem_flatMap]
    rintro ⟨c, hc, hbyte⟩
    exact of_decide_eq_true (List.all_eq_true.mp hall c hc) hbyte
  exact hcharacters rfl (by decide +kernel)

theorem checkSudoWords_root :
    checkSudoWords SH (landingArgv (asBytes "/o/f") ⟨.root, .root, 0o644⟩) = .ok () := by
  have hscript : holds PUT_FILE_SCRIPT SUDO_OK_SENTINEL = false := by
    rw [holds, (Occurs.first_eq_none (by decide +kernel)).mpr fun hheld =>
      not_mem_script (hheld.subset (by decide +kernel))]
    rfl
  have hothers : ∀ word ∈ [SH, dashC, asBytes "_", toStringLossy (asBytes "/o/f"), asBytes "root", asBytes "root",
      FileMeta.modeArg ⟨.root, .root, 0o644⟩], holds word SUDO_OK_SENTINEL = false := by decide +kernel
  have hreserved : reservedWord SH (landingArgv (asBytes "/o/f") ⟨.root, .root, 0o644⟩) = none := by
    rw [reservedWord, hothers SH List.mem_cons_self, if_neg Bool.false_ne_true, Option.map_eq_none_iff,
      List.findIdx?_eq_none_iff]
    intro word hword
    rw [landingArgv, List.mem_cons, List.mem_cons] at hword
    rcases hword with hdash | hlanding | hword
    · exact hothers word (hdash ▸ List.mem_cons_of_mem _ List.mem_cons_self)
    · rw [hlanding]
      exact hscript
    · exact hothers word (List.mem_cons_of_mem _ (List.mem_cons_of_mem _ hword))
  rw [checkSudoWords, hreserved]

/-- The script, as root, with so much on its standard input. -/
def rootRun (stdin : Bytes) : ScriptProg Unit :=
  putFileScript rootHost (toStringLossy (asBytes "/o/f")) (asBytes "root") (asBytes "root")
    (FileMeta.modeArg ⟨.root, .root, 0o644⟩) stdin

theorem putFileCut_root {contents : Bytes} {n : Nat} :
    putFileCut (.overSsh "node") .droppingNul .nonInteractive ⟨.replicate 16 0, .replicate 16 0⟩ rootHost
      (asBytes "/o/f") ⟨.root, .root, 0o644⟩ contents 0 n = rootRun (contents.take n) := by
  obtain ⟨spawned, hspawned⟩ : ∃ spawned, (Elevating.overSsh "node").spawns .nonInteractive
      ⟨.replicate 16 0, .replicate 16 0⟩ (.putFile (asBytes "/o/f") ⟨.root, .root, 0o644⟩) = .ok spawned := by
    simp only [Elevating.spawns, SshExecutor.invocation, SshExecutor.resolve, SshExecutor.resolveThrough, Elevation.of,
      checkSudoWords_root]
    exact ⟨_, rfl⟩
  exact putFileCut_nonInteractive hspawned

/-- The contents are two bytes, and the connection is cut behind the second. -/
theorem putFileCut_lands_whole_second :
    ∃ w, Runs (scriptDevice rootHost) (putFileCut (.overSsh "node") .droppingNul .nonInteractive
        ⟨.replicate 16 0, .replicate 16 0⟩ rootHost (asBytes "/o/f") ⟨.root, .root, 0o644⟩ [97, 98] 0 2) ⟨emptyTree, []⟩
        (.ok ()) w ∧
      w.state.look (resolve (asBytes "/o/f")) = some (.file ⟨[97, 98], 0, 0, 0o644⟩) ∧
      LandsWhole rootHost emptyTree (asBytes "/o/f") ⟨.root, .root, 0o644⟩ [97, 98] w := by
  have hended := Outcome.toOption_eq_some.mp (by decide +kernel :
    ((rootRun [97, 98]).eval (scriptDevice rootHost) ⟨emptyTree, []⟩).1.toOption = some ())
  have hlook : ((rootRun [97, 98]).eval (scriptDevice rootHost) ⟨emptyTree, []⟩).2.state.look
      (resolve (asBytes "/o/f")) = some (.file ⟨[97, 98], 0, 0, 0o644⟩) := by decide +kernel
  have htemp : rootHost.temp (toStringLossy (asBytes "/o/f")) ≠ some (resolve (asBytes "/o/f")) := by decide +kernel
  have hrun : Runs (scriptDevice rootHost) (putFileCut (.overSsh "node") .droppingNul .nonInteractive
      ⟨.replicate 16 0, .replicate 16 0⟩ rootHost (asBytes "/o/f") ⟨.root, .root, 0o644⟩ [97, 98] 0 2)
      ⟨emptyTree, []⟩ (.ok ()) ((rootRun [97, 98]).eval (scriptDevice rootHost) ⟨emptyTree, []⟩).2 := by
    rw [putFileCut_root]
    exact hended ▸ Prog.runs_eval (rootRun [97, 98]) ⟨emptyTree, []⟩
  exact ⟨_, hrun, hlook, putFileCut_lands_whole (.overSsh "node") .droppingNul .nonInteractive
    ⟨.replicate 16 0, .replicate 16 0⟩ rootHost (asBytes "/o/f") ⟨.root, .root, 0o644⟩ [97, 98] 0 2 trivial
    (.inr (by decide)) htemp emptyTree (.ok ()) _ hrun⟩

/-- It is cut behind the first. -/
theorem putFileCut_lands_short :
    ∃ w, Runs (scriptDevice rootHost) (putFileCut (.overSsh "node") .droppingNul .nonInteractive
        ⟨.replicate 16 0, .replicate 16 0⟩ rootHost (asBytes "/o/f") ⟨.root, .root, 0o644⟩ [97, 98] 0 1) ⟨emptyTree, []⟩
        (.ok ()) w ∧
      w.state.look (resolve (asBytes "/o/f")) = some (.file ⟨[97], 0, 0, 0o644⟩) ∧
      ¬LandsWhole rootHost emptyTree (asBytes "/o/f") ⟨.root, .root, 0o644⟩ [97, 98] w := by
  rw [putFileCut_root]
  have hended := Outcome.toOption_eq_some.mp (by decide +kernel :
    ((rootRun [97]).eval (scriptDevice rootHost) ⟨emptyTree, []⟩).1.toOption = some ())
  have hlook : ((rootRun [97]).eval (scriptDevice rootHost) ⟨emptyTree, []⟩).2.state.look (resolve (asBytes "/o/f")) =
      some (.file ⟨[97], 0, 0, 0o644⟩) := by decide +kernel
  refine ⟨_, hended ▸ Prog.runs_eval (rootRun [97]) ⟨emptyTree, []⟩, hlook, fun hwhole => ?_⟩
  rcases hwhole.target with hsame | ⟨file, hasked, hfile⟩
  · rw [hlook] at hsame
    cases hsame
  · rw [hlook] at hfile
    cases hfile
    cases hasked.contents

end DeployCore.LandingScript
