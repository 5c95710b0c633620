import DeployCore.Framing
import DeployCore.StderrSink

/-! # When a bounded run reports its standard error (`src/executor/bounded.rs`)

The engine moves bytes until every pipe has closed or the run must stop early, waits for the exit, and settles what it
captured. The clock enters by what it answers: whether the deadline has passed, and whether the grace given to bytes that
may still be framing has run out. -/

namespace DeployCore
open Occurs

/-- What a round of `poll` brought: what standard input took, what the two outputs gave, and whether the grace has run out
where it is asked. -/
structure Polled where
  fed : Except IoError (Option Fed)
  stdout : Except IoError (Option Heard)
  stderr : Except IoError (Option Heard)
  graceOver : Bool

inductive PumpRound
  | passed
  | interrupted
  | failed (err : IoError)
  | polled (polled : Polled)

/-- How far the engine is: what is left to feed of an open standard input, what the outputs gave, and whether bytes that may
be framing have been given their grace. -/
structure Pumping where
  unwritten : Option Nat
  stdout : Bytes
  stdoutOpen : Bool
  stderr : Bytes
  stderrOpen : Bool
  undecided : Bool

def Pumping.start (feed : Nat) : Pumping := ⟨if feed = 0 then none else some feed, [], true, [], true, false⟩

def Pumping.isEmpty (s : Pumping) : Bool := s.unwritten.isNone && !s.stdoutOpen && !s.stderrOpen

/-- What the engine stopped on. -/
inductive Pumped
  | closed (stdout stderr : Bytes) (undecided : Bool)
  | stopped (ended : Ended)

def feedStdin : Option Nat → Except IoError (Option Fed) → Except IoError (Option Nat)
  | none, _ => .ok none
  | some _, .error err => .error err
  | some unwritten, .ok (some (.bytes count)) => .ok (if unwritten ≤ count then none else some (unwritten - count))
  | some _, .ok (some .brokenPipe) => .ok none
  | some unwritten, .ok none => .ok (some unwritten)

/-- What has been read of an output, and whether it is still open. -/
def drainPipe (into : Bytes) (isOpen : Bool) : Except IoError (Option Heard) → Except IoError (Bytes × Bool)
  | .error err => if isOpen then .error err else .ok (into, false)
  | .ok (some (.bytes chunk)) => .ok (if isOpen then into ++ chunk else into, isOpen)
  | .ok (some .ended) => .ok (into, false)
  | .ok none => .ok (into, isOpen)

/-- The limits held against what has been read of standard error. -/
def Pumping.judge (limits : RunLimits) (framing : Framing) (s : Pumping) (graceOver : Bool) : Pumping ⊕ Ended :=
  match framing.attribute s.stderr with
  | .command own pending =>
    if limits.maxStderr < own then .inr (.breach .stderr)
    else if limits.maxStderr < own + pending then
      if graceOver then .inr (.breach .stderr) else .inl { s with undecided := true }
    else .inl { s with undecided := false }
  | .transport length =>
    if TRANSPORT_STDERR_LIMIT < length then .inr (.abandoned ⟨none, s.stdout, s.stderr⟩)
    else .inl { s with undecided := false }

/-- One turn of the loop. -/
def Pumping.round (limits : RunLimits) (framing : Framing) (s : Pumping) : PumpRound → Except IoError (Pumping ⊕ Ended)
  | .passed => .ok (.inr .timedOut)
  | .interrupted => .ok (.inl s)
  | .failed err => .error err
  | .polled polled => do
    let unwritten ← feedStdin s.unwritten polled.fed
    let (stdout, stdoutOpen) ← drainPipe s.stdout s.stdoutOpen polled.stdout
    if limits.maxStdout < stdout.length then .ok (.inr (.breach .stdout))
    else
      let (stderr, stderrOpen) ← drainPipe s.stderr s.stderrOpen polled.stderr
      .ok (Pumping.judge limits framing ⟨unwritten, stdout, stdoutOpen, stderr, stderrOpen, s.undecided⟩ polled.graceOver)

/-- The loop, as far as the rounds go. -/
def pump (limits : RunLimits) (framing : Framing) : Pumping → List PumpRound → Option (Except IoError Pumped)
  | s, rounds =>
    if s.isEmpty then some (.ok (.closed s.stdout s.stderr s.undecided))
    else
      match rounds with
      | [] => none
      | round :: rounds =>
        match s.round limits framing round with
        | .error err => some (.error err)
        | .ok (.inr ended) => some (.ok (.stopped ended))
        | .ok (.inl s) => pump limits framing s rounds

/-- One look at a child whose pipes have closed. -/
structure ExitPoll where
  status : Except IoError (Option ProcessStatus)
  passed : Bool
  graceOver : Bool

def awaitExit (stdout stderr : Bytes) (undecided : Bool) : List ExitPoll → Option (Except IoError Ended)
  | [] => none
  | poll :: polls =>
    match poll.status with
    | .error err => some (.error err)
    | .ok (some status) => some (.ok (.exited ⟨status, stdout, stderr⟩))
    | .ok none =>
      if poll.passed then some (.ok .timedOut)
      else if undecided && poll.graceOver then some (.ok (.breach .stderr))
      else awaitExit stdout stderr undecided polls

/-- `bounded::run`, once the child is spawned. -/
def boundedRun (feed : Nat) (limits : RunLimits) (framing : Framing) (rounds : List PumpRound) (polls : List ExitPoll) :
    Option (Except IoError Ended) :=
  match pump limits framing (.start feed) rounds with
  | none => none
  | some (.error err) => some (.error err)
  | some (.ok (.stopped ended)) => some (.ok ended)
  | some (.ok (.closed stdout stderr undecided)) => awaitExit stdout stderr undecided polls

/-- Who supervises a run: `ssh`, or a local `sudo`. -/
inductive SupervisedTransport
  | ssh (executor : SshExecutor) (elevated : Bool)
  | sudo (auth : Option SudoAuth) (host : String)

namespace SupervisedTransport

def remoteCode : SupervisedTransport → Bool
  | .ssh _ _ => true
  | .sudo _ _ => false

def settle : SupervisedTransport → CommandOutput → Except ExecutorError CommandOutput
  | .ssh executor elevated => executor.settleBounded elevated
  | .sudo auth host => fun output => classifyElevation output auth host

end SupervisedTransport

/-! ### The rounds -/

/-- The rounds that take the loop from one state to another, and those that are left. -/
inductive Pumping.Reaches (limits : RunLimits) (framing : Framing) :
    Pumping → List PumpRound → Pumping → List PumpRound → Prop
  | refl (s : Pumping) (rounds : List PumpRound) : Reaches limits framing s rounds s rounds
  | step {s s' s'' : Pumping} {round : PumpRound} {rounds rest : List PumpRound} :
      s.round limits framing round = .ok (.inl s') → Reaches limits framing s' rounds s'' rest →
      Reaches limits framing s (round :: rounds) s'' rest

section Rounds
variable {limits : RunLimits} {framing : Framing} {s s' : Pumping} {round : PumpRound} {rounds : List PumpRound}
  {polls : List ExitPoll} {stream stdout stderr : Bytes} {undecided : Bool} {ended : Ended} {feed : Nat}

def heardChunk : Except IoError (Option Heard) → Bytes
  | .ok (some (.bytes chunk)) => chunk
  | _ => []

/-- What a round brings of standard error, and whether it finds the grace over. -/
def PumpRound.chunk : PumpRound → Bytes
  | .polled ready => heardChunk ready.stderr
  | _ => []

def PumpRound.graceOver : PumpRound → Bool
  | .polled ready => ready.graceOver
  | _ => false

/-- What the rounds give of standard error is of the stream. -/
structure Pumping.Hears (s : Pumping) (stream : Bytes) (rounds : List PumpRound) : Prop where
  read : s.stderr <+: stream
  rest : s.stderrOpen = true → s.stderr ++ rounds.flatMap PumpRound.chunk <+: stream

/-- The limits hold of what has been read. -/
structure Pumping.Within (limits : RunLimits) (framing : Framing) (s : Pumping) : Prop where
  stdout : s.stdout.length ≤ limits.maxStdout
  own : ∀ own pending, framing.attribute s.stderr = .command own pending → own ≤ limits.maxStderr

theorem judge_inl {graceOver : Bool} (h : s.judge limits framing graceOver = .inl s') :
    s'.stdout = s.stdout ∧ s'.stderr = s.stderr ∧ s'.stderrOpen = s.stderrOpen ∧
      ∀ own pending, framing.attribute s.stderr = .command own pending → own ≤ limits.maxStderr := by
  unfold Pumping.judge at h
  split at h
  · next own pending hattributed =>
    split_ifs at h with hown hpending
    all_goals
      cases h
      refine ⟨rfl, rfl, rfl, fun own' pending' h' => ?_⟩
      rw [hattributed] at h'
      cases h'
      exact Nat.not_lt.mp hown
  · next length hattributed =>
    split_ifs at h
    cases h
    refine ⟨rfl, rfl, rfl, fun own' pending' h' => ?_⟩
    rw [hattributed] at h'
    cases h'

theorem judge_breach {graceOver : Bool} (h : s.judge limits framing graceOver = .inr (.breach .stderr)) :
    graceOver = true ∨ ∃ own pending, framing.attribute s.stderr = .command own pending ∧ limits.maxStderr < own := by
  unfold Pumping.judge at h
  split at h
  · next own pending hattributed =>
    split_ifs at h with hown hpending hgrace
    · exact .inr ⟨own, pending, hattributed, hown⟩
    · exact .inl hgrace
  · split_ifs at h
    cases h

/-- What a drained pipe holds is what it held and what was read of it. -/
theorem drainPipe_ok {into read : Bytes} {isOpen stays : Bool} {heard : Except IoError (Option Heard)}
    (h : drainPipe into isOpen heard = .ok (read, stays)) :
    (stays = true → isOpen = true) ∧
      read = into ++ if isOpen then heardChunk heard else [] := by
  rcases heard with err | _ | chunk | _ <;> rcases isOpen with _ | _ <;> simp_all [drainPipe, heardChunk]

/-- What a round that was polled gave: the pipes drained, and the limits held against what they hold. -/
theorem round_polled {polled : Polled} {step : Pumping ⊕ Ended} (h : s.round limits framing (.polled polled) = .ok step) :
    ∃ unwritten stdout stdoutOpen, drainPipe s.stdout s.stdoutOpen polled.stdout = .ok (stdout, stdoutOpen) ∧
      ((limits.maxStdout < stdout.length ∧ step = .inr (.breach .stdout)) ∨
        (stdout.length ≤ limits.maxStdout ∧ ∃ stderr stderrOpen,
          drainPipe s.stderr s.stderrOpen polled.stderr = .ok (stderr, stderrOpen) ∧
          step = Pumping.judge limits framing ⟨unwritten, stdout, stdoutOpen, stderr, stderrOpen, s.undecided⟩
            polled.graceOver)) := by
  obtain ⟨unwritten, -, h⟩ := Checks.bind_ok h
  obtain ⟨⟨stdout, stdoutOpen⟩, hstdout, h⟩ := Checks.bind_ok h
  refine ⟨unwritten, stdout, stdoutOpen, hstdout, ?_⟩
  dsimp only at h
  by_cases hlimit : limits.maxStdout < stdout.length
  · rw [if_pos hlimit] at h
    exact .inl ⟨hlimit, (Except.ok.inj h).symm⟩
  · rw [if_neg hlimit] at h
    obtain ⟨⟨stderr, stderrOpen⟩, hstderr, h⟩ := Checks.bind_ok h
    exact .inr ⟨Nat.not_lt.mp hlimit, stderr, stderrOpen, hstderr, (Except.ok.inj h).symm⟩

theorem Pumping.Hears.drained {polled : Polled} {stderrOpen : Bool} (h : s.Hears stream (.polled polled :: rounds))
    (hstderr : drainPipe s.stderr s.stderrOpen polled.stderr = .ok (stderr, stderrOpen)) :
    stderr <+: stream ∧ (stderrOpen = true → stderr ++ rounds.flatMap PumpRound.chunk <+: stream) := by
  obtain ⟨hread, hrest⟩ := h
  obtain ⟨hstays, rfl⟩ := drainPipe_ok hstderr
  rw [List.flatMap_cons] at hrest
  by_cases hopen : s.stderrOpen = true
  · have hwhole := hrest hopen
    rw [← List.append_assoc] at hwhole
    rw [if_pos hopen]
    exact ⟨(List.prefix_append _ _).trans hwhole, fun _ => hwhole⟩
  · rw [if_neg hopen, List.append_nil]
    exact ⟨hread, fun hstill => absurd (hstays hstill) hopen⟩

theorem Pumping.Hears.goes (h : s.Hears stream (round :: rounds))
    (hstep : s.round limits framing round = .ok (.inl s')) : s'.Hears stream rounds := by
  rcases round with _ | _ | err | polled
  · cases hstep
  · cases hstep
    exact ⟨h.read, h.rest⟩
  · cases hstep
  · obtain ⟨_, _, _, -, ⟨-, hstop⟩ | ⟨-, stderr, stderrOpen, hstderr, hjudge⟩⟩ := round_polled hstep
    · cases hstop
    · obtain ⟨-, hsame, hopen, -⟩ := judge_inl hjudge.symm
      obtain ⟨hread, hrest⟩ := h.drained hstderr
      exact ⟨hsame ▸ hread, fun hstill => hsame ▸ hrest (hopen.symm.trans hstill)⟩

theorem Pumping.Within.goes (h : s.Within limits framing) (hstep : s.round limits framing round = .ok (.inl s')) :
    s'.Within limits framing := by
  rcases round with _ | _ | err | polled
  · cases hstep
  · cases hstep
    exact h
  · cases hstep
  · obtain ⟨_, _, _, -, ⟨-, hstop⟩ | ⟨hlimit, _, _, -, hjudge⟩⟩ := round_polled hstep
    · cases hstop
    · obtain ⟨hstdout, hstderr, -, hown⟩ := judge_inl hjudge.symm
      exact ⟨hstdout ▸ hlimit, hstderr ▸ hown⟩

/-- A round that reports standard error finds the grace over, or too much that is the command's own. -/
theorem Pumping.Hears.breach (h : s.Hears stream (round :: rounds))
    (hstep : s.round limits framing round = .ok (.inr (.breach .stderr))) :
    round.graceOver = true ∨ ∃ read own pending, read <+: stream ∧ framing.attribute read = .command own pending ∧
      limits.maxStderr < own := by
  rcases round with _ | _ | err | polled
  · cases hstep
  · cases hstep
  · cases hstep
  · obtain ⟨_, _, _, -, ⟨-, hstop⟩ | ⟨-, stderr, stderrOpen, hstderr, hjudge⟩⟩ := round_polled hstep
    · cases hstop
    · rcases judge_breach hjudge.symm with hgrace | ⟨own, pending, hattributed, hown⟩
      · exact .inl hgrace
      · exact .inr ⟨stderr, own, pending, (h.drained hstderr).1, hattributed, hown⟩

theorem pump_cons (h : s.isEmpty = false) :
    pump limits framing s (round :: rounds) =
      match s.round limits framing round with
      | .error err => some (.error err)
      | .ok (.inr ended) => some (.ok (.stopped ended))
      | .ok (.inl s) => pump limits framing s rounds := by
  conv_lhs => unfold pump
  rw [if_neg (by rw [h]; decide)]

theorem pump_isEmpty (h : s.isEmpty = true) :
    pump limits framing s rounds = some (.ok (.closed s.stdout s.stderr s.undecided)) := by
  unfold pump
  rw [if_pos h]

theorem pump_nil (h : s.isEmpty = false) : pump limits framing s [] = none := by
  unfold pump
  rw [if_neg (by rw [h]; decide)]

/-- The loop ends in a state it reaches: with every pipe closed, or at the round that stops it. -/
theorem pump_ok {pumped : Pumped} (hpump : pump limits framing s rounds = some (.ok pumped)) :
    ∃ s' rest, Pumping.Reaches limits framing s rounds s' rest ∧
      (pumped = .closed s'.stdout s'.stderr s'.undecided ∨ ∃ round rest' ended, rest = round :: rest' ∧
        s'.round limits framing round = .ok (.inr ended) ∧ pumped = .stopped ended) := by
  induction rounds generalizing s with
  | nil =>
    by_cases hempty : s.isEmpty = true
    · rw [pump_isEmpty hempty] at hpump
      cases hpump
      exact ⟨s, [], .refl .., .inl rfl⟩
    · rw [pump_nil (Bool.eq_false_iff.mpr hempty)] at hpump
      cases hpump
  | cons round rounds ih =>
    by_cases hempty : s.isEmpty = true
    · rw [pump_isEmpty hempty] at hpump
      cases hpump
      exact ⟨s, _, .refl .., .inl rfl⟩
    · rw [pump_cons (Bool.eq_false_iff.mpr hempty)] at hpump
      rcases hstep : s.round limits framing round with err | s' | ended
      · rw [hstep] at hpump
        cases hpump
      · rw [hstep] at hpump
        obtain ⟨s'', rest, hreaches, hend⟩ := ih hpump
        exact ⟨s'', rest, .step hstep hreaches, hend⟩
      · rw [hstep] at hpump
        cases hpump
        exact ⟨s, _, .refl .., .inr ⟨round, rounds, ended, rfl, hstep, rfl⟩⟩

theorem Pumping.Reaches.hears {rest : List PumpRound} (hreaches : Reaches limits framing s rounds s' rest)
    (h : s.Hears stream rounds) : s'.Hears stream rest := by
  induction hreaches with
  | refl => exact h
  | step hstep _ ih => exact ih (h.goes hstep)

theorem Pumping.Reaches.within {rest : List PumpRound} (hreaches : Reaches limits framing s rounds s' rest)
    (h : s.Within limits framing) : s'.Within limits framing := by
  induction hreaches with
  | refl => exact h
  | step hstep _ ih => exact ih (h.goes hstep)

theorem Pumping.Reaches.mem {rest : List PumpRound} (hreaches : Reaches limits framing s rounds s' rest)
    (hmem : round ∈ rest) : round ∈ rounds := by
  induction hreaches with
  | refl => exact hmem
  | step _ _ ih => exact List.mem_cons_of_mem _ (ih hmem)

/-- A run of the loop that reports standard error has found the grace over, or too much that is the command's own. -/
theorem pump_breach (h : s.Hears stream rounds)
    (hpump : pump limits framing s rounds = some (.ok (.stopped (.breach .stderr)))) :
    (∃ round ∈ rounds, round.graceOver = true) ∨ ∃ read own pending, read <+: stream ∧
      framing.attribute read = .command own pending ∧ limits.maxStderr < own := by
  obtain ⟨s', rest, hreaches, hclosed | ⟨round, rest', ended, rfl, hstep, hended⟩⟩ := pump_ok hpump
  · cases hclosed
  · cases hended
    rcases (hreaches.hears h).breach hstep with hgrace | hown
    · exact .inl ⟨round, hreaches.mem (List.mem_cons_self ..), hgrace⟩
    · exact .inr hown

/-- Where every pipe has closed, the limits hold of what was read. -/
theorem pump_closed (h : s.Within limits framing)
    (hpump : pump limits framing s rounds = some (.ok (.closed stdout stderr undecided))) :
    stdout.length ≤ limits.maxStdout ∧
      ∀ own pending, framing.attribute stderr = .command own pending → own ≤ limits.maxStderr := by
  obtain ⟨s', rest, hreaches, hclosed | ⟨_, _, _, -, -, hended⟩⟩ := pump_ok hpump
  · cases hclosed
    obtain ⟨hstdout, hown⟩ := hreaches.within h
    exact ⟨hstdout, hown⟩
  · cases hended

theorem round_not_exited {output : CommandOutput} : s.round limits framing round ≠ .ok (.inr (.exited output)) := by
  intro hstep
  rcases round with _ | _ | err | polled
  · cases hstep
  · cases hstep
  · cases hstep
  · obtain ⟨_, _, _, -, ⟨-, hstop⟩ | ⟨-, _, _, -, hjudge⟩⟩ := round_polled hstep
    · cases hstop
    · unfold Pumping.judge at hjudge
      split at hjudge <;> split_ifs at hjudge <;> cases hjudge

/-- The loop never sees the child exit. -/
theorem pump_not_exited {output : CommandOutput} : pump limits framing s rounds ≠ some (.ok (.stopped (.exited output))) := by
  intro hpump
  obtain ⟨s', rest, -, hclosed | ⟨_, _, _, -, hstep, hended⟩⟩ := pump_ok hpump
  · cases hclosed
  · cases hended
    exact round_not_exited hstep

theorem awaitExit_breach (h : awaitExit stdout stderr undecided polls = some (.ok (.breach .stderr))) :
    ∃ poll ∈ polls, poll.graceOver = true := by
  induction polls with
  | nil => cases h
  | cons poll polls ih =>
    rcases hstatus : poll.status with err | _ | status
    · simp only [awaitExit, hstatus] at h
      cases h
    · simp only [awaitExit, hstatus] at h
      split_ifs at h with hpassed hgrace
      · cases h
      · exact ⟨poll, List.mem_cons_self .., (Bool.and_eq_true_iff.mp hgrace).2⟩
      · obtain ⟨later, hmem, hover⟩ := ih h
        exact ⟨later, List.mem_cons_of_mem _ hmem, hover⟩
    · simp only [awaitExit, hstatus] at h
      cases h

/-- What a child that exits on its own is settled by is what was read. -/
theorem awaitExit_exited {output : CommandOutput} (h : awaitExit stdout stderr undecided polls = some (.ok (.exited output))) :
    output.stdout = stdout ∧ output.stderr = stderr := by
  induction polls with
  | nil => cases h
  | cons poll polls ih =>
    rcases hstatus : poll.status with err | _ | status
    · simp only [awaitExit, hstatus] at h
      cases h
    · simp only [awaitExit, hstatus] at h
      split_ifs at h with hpassed hgrace
      · cases h
      · cases h
      · exact ih h
    · simp only [awaitExit, hstatus] at h
      cases h
      exact ⟨rfl, rfl⟩

end Rounds

/-! ### A whole run -/

section Run
variable {limits : RunLimits} {framing : Framing} {rounds : List PumpRound} {polls : List ExitPoll} {stream stdout : Bytes}
  {ended : Ended} {feed : Nat} {output : CommandOutput} {t : SupervisedTransport} {r : SupervisedStderr} {marker : Bytes}
  {status : ProcessStatus} {command : String}

theorem start_hears (h : rounds.flatMap PumpRound.chunk <+: stream) : (Pumping.start feed).Hears stream rounds :=
  ⟨List.nil_prefix, fun _ => h⟩

/-- Nothing has been read yet, so nothing is the command's. -/
theorem start_within : (Pumping.start feed).Within limits framing := by
  refine ⟨Nat.zero_le _, fun own pending h => ?_⟩
  rcases framing with ⟨_ | marker, remoteCode⟩
  · cases h
    exact Nat.zero_le _
  · cases h

theorem boundedRun_breach (hheard : rounds.flatMap PumpRound.chunk <+: stream)
    (hrun : boundedRun feed limits framing rounds polls = some (.ok (.breach .stderr))) :
    (∃ round ∈ rounds, round.graceOver = true) ∨ (∃ poll ∈ polls, poll.graceOver = true) ∨
      ∃ read own pending, read <+: stream ∧ framing.attribute read = .command own pending ∧ limits.maxStderr < own := by
  unfold boundedRun at hrun
  split at hrun
  · cases hrun
  · cases hrun
  · next ended hpump =>
    cases hrun
    rcases pump_breach (start_hears hheard) hpump with hgrace | hown
    · exact .inl hgrace
    · exact .inr (.inr hown)
  · exact .inr (.inl (awaitExit_breach hrun))

/-- A child that exits on its own has kept within the limits of what is known to be its own. -/
theorem boundedRun_exited (hrun : boundedRun feed limits framing rounds polls = some (.ok (.exited output))) :
    output.stdout.length ≤ limits.maxStdout ∧
      ∀ own pending, framing.attribute output.stderr = .command own pending → own ≤ limits.maxStderr := by
  unfold boundedRun at hrun
  split at hrun
  · cases hrun
  · cases hrun
  · next ended hpump =>
    cases hrun
    exact absurd hpump pump_not_exited
  · next stdout stderr undecided hpump =>
    obtain ⟨hstdout, hstderr⟩ := awaitExit_exited hrun
    rw [hstdout, hstderr]
    exact pump_closed start_within hpump

/-- What a supervised run whose framing is whole is settled into is the command's own bytes. -/
theorem settle_own (hframed : r.Framed t.remoteCode) (htimedOut : r.timedOut = false)
    (hline : t.remoteCode = true → r.code ≠ none) :
    ∃ code, t.settle ⟨status, stdout, dropTransport (r.stream marker)⟩ = .ok ⟨code, stdout, r.own⟩ := by
  have hstream : r.stream marker = r.transport ++ SUDO_OK_SENTINEL ++ (r.own ++ r.code.elim [] statusLine) := by
    rw [SupervisedStderr.stream, SupervisedStderr.ending, htimedOut]
    rfl
  rw [hstream]
  rcases t with ⟨executor, elevated⟩ | ⟨auth, host⟩
  · obtain ⟨code, hcode⟩ := Option.ne_none_iff_exists'.mp (hline rfl)
    have hwithin : code < 2 ^ 31 := Nat.lt_of_le_of_lt (hframed.code code hcode).1 (by decide)
    have hends := @endsOnLine_statusLine r.own code hwithin
    rw [hcode]
    exact ⟨some (code : Int), settleBounded_line hends elevated hframed.first⟩
  · have hcode : r.code = none := by
      rcases hcode : r.code with _ | code
      · rfl
      · cases (hframed.code code hcode).2
    have hclassified := @classifyElevation_started [] r.own status stdout auth host first_sentinel
    rw [hcode, Option.elim_none, List.append_nil, dropTransport_first hframed.first]
    exact ⟨status, hclassified⟩

theorem finish_timedOut {settle : CommandOutput → Except ExecutorError CommandOutput}
    (h : holds output.stderr marker = true) :
    finish command limits (some marker) settle (.exited output) = .error (.timedOut command limits.timeout) := by
  simp only [finish, finishOutput, h, if_true]

/-- What a run that exited is held to is what it is settled into. -/
theorem finish_settled {settle : CommandOutput → Except ExecutorError CommandOutput} {settled : CommandOutput}
    (h : holds output.stderr marker = false)
    (hsettle : settle { output with stderr := dropTransport output.stderr } = .ok settled) :
    finish command limits (some marker) settle (.exited output) = limits.hold command settled := by
  simp only [finish, finishOutput, h, Bool.false_eq_true, if_false, hsettle, Except.mapError, Checks.ok_bind]

theorem hold_breach : limits.hold command output = .error (limits.breach command .stderr) ↔
    output.stdout.length ≤ limits.maxStdout ∧ limits.maxStderr < output.stderr.length := by
  unfold RunLimits.hold RunLimits.breach
  split_ifs with hstdout hstderr
  · simp [hstdout]
  · simp [hstderr, Nat.not_lt.mp hstdout]
  · simp [hstderr]

/-- A run whose framing is whole reports standard error only where the command wrote more than its allowance, unless a
grace ran out. -/
theorem finish_breach (hmarks : Marks marker) (hframed : r.Framed t.remoteCode)
    (hheard : rounds.flatMap PumpRound.chunk <+: r.stream marker)
    (hrun : boundedRun feed limits ⟨some marker, t.remoteCode⟩ rounds polls = some (.ok ended))
    (hwhole : ∀ output, ended = .exited output → output.stderr = r.stream marker)
    (htransport : ∀ output, ended ≠ .abandoned output)
    (hends : t.remoteCode = true → r.timedOut = true ∨ r.code ≠ none)
    (hrounds : ∀ round ∈ rounds, round.graceOver = false) (hpolls : ∀ poll ∈ polls, poll.graceOver = false)
    (h : finish command limits (some marker) t.settle ended = .error (limits.breach command .stderr)) :
    limits.maxStderr < r.own.length := by
  rcases ended with output | output | stream | _
  · have hstderr := hwhole output rfl
    obtain ⟨status, stdout, stderr⟩ := output
    simp only at hstderr
    rw [hstderr] at h
    by_cases hmarker : holds (r.stream marker) marker = true
    · rw [finish_timedOut hmarker] at h
      cases h
    · have htimedOut : r.timedOut = false := by
        by_contra htrue
        refine hmarker ?_
        rw [holds, Option.isSome_iff_ne_none, ne_eq, first_eq_none hmarks.ne_nil, not_not, SupervisedStderr.stream,
          SupervisedStderr.ending, if_pos (Bool.not_eq_false _ ▸ htrue)]
        exact ⟨r.transport ++ SUDO_OK_SENTINEL ++ r.own, r.code.elim [] statusLine, by simp⟩
      have hline : t.remoteCode = true → r.code ≠ none := fun hremote =>
        (hends hremote).resolve_left (by rw [htimedOut]; decide)
      obtain ⟨code, hsettle⟩ := @settle_own stdout t r marker status hframed htimedOut hline
      rw [finish_settled (Bool.not_eq_true _ ▸ hmarker) hsettle] at h
      exact (hold_breach.mp h).2
  · exact absurd rfl (htransport output)
  · rcases stream with _ | _
    · cases h
    · rcases boundedRun_breach hheard hrun with ⟨round, hmem, hover⟩ | ⟨poll, hmem, hover⟩ | ⟨read, own, pending, hread, hattributed, hown⟩
      · rw [hrounds round hmem] at hover
        cases hover
      · rw [hpolls poll hmem] at hover
        cases hover
      · obtain ⟨hshort, hlong⟩ := attribute_stream hmarks hframed hread
        rcases Nat.lt_or_ge read.length (r.transport.length + SUDO_OK_SENTINEL.length) with hlt | hge
        · rw [hshort hlt] at hattributed
          cases hattributed
        · obtain ⟨own', pending', hattributed', hle, -⟩ := hlong hge
          rw [hattributed'] at hattributed
          cases hattributed
          omega
  · cases h

/-- No copy of the marker begins ahead of the framing. -/
def SupervisedStderr.Unimitated (r : SupervisedStderr) (marker : Bytes) : Prop :=
  ∀ pos, first marker (r.stream marker) = some pos → r.transport.length + SUDO_OK_SENTINEL.length + r.own.length ≤ pos

theorem SupervisedStderr.Unimitated.behind (hmarks : Marks marker) (h : r.Unimitated marker) {pos : Nat}
    (hfirst : first marker (r.own ++ r.ending marker) = some pos) : r.own.length ≤ pos := by
  obtain ⟨before, after, heq, rfl⟩ := first_eq_some hfirst
  have hstream : r.stream marker = r.transport ++ SUDO_OK_SENTINEL ++ before ++ marker ++ after := by
    rw [SupervisedStderr.stream, heq]
    simp only [List.append_assoc]
  have hlong := List.length_pos_of_ne_nil hmarks.ne_nil
  rcases hwhole : first marker (r.stream marker) with _ | pos
  · exact absurd ⟨_, after, hstream.symm⟩ ((first_eq_none hmarks.ne_nil).mp hwhole)
  · have hbehind := h pos hwhole
    rw [hstream] at hwhole
    have hle : pos ≤ (r.transport ++ SUDO_OK_SENTINEL ++ before).length := by
      refine first_le hwhole (by simp only [List.length_append]; omega) ?_
      rw [List.append_assoc (r.transport ++ SUDO_OK_SENTINEL ++ before), List.drop_left]
      exact List.prefix_append _ _
    simp only [List.length_append] at hle
    omega

/-- A command that wrote more than its allowance is reported, whatever its last bytes look like. -/
theorem finish_reports (hmarks : Marks marker) (hframed : r.Framed t.remoteCode) (hcopy : r.Unimitated marker)
    (hrun : boundedRun feed limits ⟨some marker, t.remoteCode⟩ rounds polls = some (.ok ended))
    (hwhole : ∀ output, ended = .exited output → output.stderr = r.stream marker)
    (htransport : ∀ output, ended ≠ .abandoned output)
    (hends : t.remoteCode = true → r.timedOut = true ∨ r.code ≠ none)
    (hdeadline : ended ≠ .timedOut) (hstdout : ended ≠ .breach .stdout) (h : limits.maxStderr < r.own.length) :
    finish command limits (some marker) t.settle ended = .error (limits.breach command .stderr) := by
  rcases ended with output | output | stream | _
  · have hstderr := hwhole output rfl
    obtain ⟨hwithin, hown⟩ := boundedRun_exited hrun
    rw [hstderr] at hown
    by_cases hframing : r.timedOut = true ∨ r.code ≠ none
    · obtain ⟨pending, hattributed⟩ := attribute_whole hmarks hframed (fun pos => hcopy.behind hmarks) hframing
      have := hown _ _ hattributed
      omega
    · have hlocal : ¬ t.remoteCode = true := fun hremote => hframing (hends hremote)
      rw [not_or, not_not] at hframing
      obtain ⟨htimedOut, hcode⟩ := hframing
      have htimedOut : r.timedOut = false := Bool.not_eq_true _ ▸ htimedOut
      have hmarker : holds (r.stream marker) marker = false := by
        rcases hfirst : first marker (r.stream marker) with _ | pos
        · rw [holds, hfirst]
          rfl
        · have hbehind := hcopy pos hfirst
          obtain ⟨before, after, heq, rfl⟩ := first_eq_some hfirst
          have hlength := congrArg List.length heq
          have hlong := List.length_pos_of_ne_nil hmarks.ne_nil
          rw [SupervisedStderr.stream, SupervisedStderr.ending, htimedOut, hcode] at hlength
          simp only [Bool.false_eq_true, if_false, Option.elim_none, List.append_nil, List.length_append] at hlength
          omega
      obtain ⟨status, stdout, stderr⟩ := output
      simp only at hstderr hwithin
      obtain ⟨code, hsettle⟩ := @settle_own stdout t r marker status hframed htimedOut fun hremote => absurd hremote hlocal
      rw [hstderr, finish_settled hmarker hsettle]
      exact hold_breach.mpr ⟨hwithin, h⟩
  · exact absurd rfl (htransport output)
  · rcases stream with _ | _
    · exact absurd rfl hstdout
    · rfl
  · exact absurd rfl hdeadline

/-- However the stream of a supervised run is cut, no more is taken for the command's own than it has written, and all but a
marker seen whole is its own or pending. A run whose framing arrives reports standard error only where the command wrote
more than its allowance, unless a grace ran out, and does so unless it stops for another reason or an earlier copy of its
marker reads as its deadline. -/
theorem stderrBreach_exact (nonce : Vector UInt8 16) (t : SupervisedTransport) (r : SupervisedStderr)
    (hframed : r.Framed t.remoteCode) :
    (∀ read, read <+: r.stream (timeoutMarker nonce) →
      (read.length < r.transport.length + SUDO_OK_SENTINEL.length →
        (Framing.mk (some (timeoutMarker nonce)) t.remoteCode).attribute read = .transport read.length) ∧
      (r.transport.length + SUDO_OK_SENTINEL.length ≤ read.length → ∃ own pending,
        (Framing.mk (some (timeoutMarker nonce)) t.remoteCode).attribute read = .command own pending ∧
        own ≤ min (read.length - (r.transport.length + SUDO_OK_SENTINEL.length)) r.own.length ∧
        own + pending +
          seenFraming (timeoutMarker nonce) (read.drop (r.transport.length + SUDO_OK_SENTINEL.length)) =
            read.length - (r.transport.length + SUDO_OK_SENTINEL.length))) ∧
    ∀ command feed (limits : RunLimits) rounds polls ended,
      rounds.flatMap PumpRound.chunk <+: r.stream (timeoutMarker nonce) →
      boundedRun feed limits ⟨some (timeoutMarker nonce), t.remoteCode⟩ rounds polls = some (.ok ended) →
      (∀ output, ended = .exited output → output.stderr = r.stream (timeoutMarker nonce)) →
      (∀ output, ended ≠ .abandoned output) →
      (t.remoteCode = true → r.timedOut = true ∨ r.code ≠ none) →
      ((∀ round ∈ rounds, round.graceOver = false) → (∀ poll ∈ polls, poll.graceOver = false) →
        finish command limits (some (timeoutMarker nonce)) t.settle ended = .error (limits.breach command .stderr) →
        limits.maxStderr < r.own.length) ∧
      (r.Unimitated (timeoutMarker nonce) → ended ≠ .timedOut → ended ≠ .breach .stdout →
        limits.maxStderr < r.own.length →
        finish command limits (some (timeoutMarker nonce)) t.settle ended = .error (limits.breach command .stderr)) := by
  have hmarks := timeoutMarker_marks nonce
  refine ⟨fun read hread => attribute_stream hmarks hframed hread, ?_⟩
  intro command feed limits rounds polls ended hheard hrun hwhole htransport hends
  constructor
  · intro hrounds hpolls hreported
    exact finish_breach hmarks hframed hheard hrun hwhole htransport hends hrounds hpolls hreported
  · intro hcopy hdeadline hstdout hover
    exact finish_reports hmarks hframed hcopy hrun hwhole htransport hends hdeadline hstdout hover

/-- A run whose text, command and code are all there. -/
def notedRun : SupervisedStderr := ⟨asBytes "note\n", asBytes "own\n", false, some 7⟩

def zeroNonce : Vector UInt8 16 := Vector.replicate 16 0

theorem notedRun_framed : notedRun.Framed true := by
  refine ⟨by decide +kernel, fun code hcode => ?_⟩
  cases hcode
  decide

theorem stderrBreach_exact_noted : ∃ own pending,
    (Framing.mk (some (timeoutMarker zeroNonce)) true).attribute (notedRun.stream (timeoutMarker zeroNonce)) =
      .command own pending ∧ own ≤ 4 := by
  have hexact := stderrBreach_exact zeroNonce (.ssh ⟨"host", .nonInteractive⟩ false) notedRun notedRun_framed
  obtain ⟨own, pending, hattributed, hle, -⟩ := (hexact.1 _ List.prefix_rfl).2 (by decide +kernel)
  exact ⟨own, pending, hattributed, hle.trans (min_le_right _ _)⟩

/-! ### Runs at the edges -/

def closing : PumpRound := .polled ⟨.ok none, .ok (some .ended), .ok (some .ended), false⟩

def hearing (chunk : Bytes) : PumpRound := .polled ⟨.ok none, .ok none, .ok (some (.bytes chunk)), false⟩

def outliving : PumpRound := .polled ⟨.ok none, .ok none, .ok none, true⟩

/-- A command that may write nothing. -/
def silent : RunLimits := ⟨16, 0, 5⟩

/-- Its supervised run over SSH. -/
def silentRun (rounds : List PumpRound) (polls : List ExitPoll) : Option (Except IoError Ended) :=
  boundedRun 0 silent ⟨some (timeoutMarker zeroNonce), true⟩ rounds polls

theorem silentRun_late : silentRun [hearing (SUDO_OK_SENTINEL ++ (statusLine 7).take 5), outliving] [] =
    some (.ok (.breach .stderr)) := by
  decide +kernel

theorem silentRun_lost : silentRun [hearing (SUDO_OK_SENTINEL ++ [10]), closing] [⟨.ok (some (some 255)), false, false⟩] =
    some (.ok (.exited ⟨some 255, [], SUDO_OK_SENTINEL ++ [10]⟩)) := by
  decide +kernel

theorem silentRun_imitating :
    silentRun [hearing (SUDO_OK_SENTINEL ++ (timeoutMarker zeroNonce ++ statusLine 7)), closing]
      [⟨.ok (some (some 7)), false, false⟩] =
      some (.ok (.exited ⟨some 7, [], SUDO_OK_SENTINEL ++ (timeoutMarker zeroNonce ++ statusLine 7)⟩)) := by
  decide +kernel

/-- A line that comes in two pieces with the grace between them reports a command that wrote nothing; a stream whose line
never came, or whose command wrote a copy of the marker, is not reported. -/
theorem stderrBreach_edges :
    (∃ (r : SupervisedStderr) (rounds : List PumpRound), r.Framed true ∧ r.own = [] ∧
      rounds.flatMap PumpRound.chunk <+: r.stream (timeoutMarker zeroNonce) ∧
      silentRun rounds [] = some (.ok (.breach .stderr))) ∧
    (∃ (r : SupervisedStderr) (rounds : List PumpRound) (polls : List ExitPoll) (ended : Ended), r.Framed true ∧
      0 < r.own.length ∧ r.code = none ∧ rounds.flatMap PumpRound.chunk = r.stream (timeoutMarker zeroNonce) ∧
      silentRun rounds polls = some (.ok ended) ∧ ∀ command (executor : SshExecutor),
        finish command silent (some (timeoutMarker zeroNonce)) (executor.settleBounded false) ended ≠
          .error (silent.breach command .stderr)) ∧
    ∃ (r : SupervisedStderr) (rounds : List PumpRound) (polls : List ExitPoll) (ended : Ended), r.Framed true ∧
      0 < r.own.length ∧ r.code = some 7 ∧ rounds.flatMap PumpRound.chunk = r.stream (timeoutMarker zeroNonce) ∧
      silentRun rounds polls = some (.ok ended) ∧ ∀ command (executor : SshExecutor),
        finish command silent (some (timeoutMarker zeroNonce)) (executor.settleBounded false) ended ≠
          .error (silent.breach command .stderr) := by
  have hfirst : first SUDO_OK_SENTINEL ([] ++ SUDO_OK_SENTINEL) = some ([] : Bytes).length := first_sentinel
  have hcode : ∀ code ∈ some 7, code ≤ 255 ∧ true = true := by
    intro code hcode
    cases hcode
    decide
  refine ⟨⟨⟨[], [], false, some 7⟩, _, ⟨hfirst, hcode⟩, rfl, ?_, silentRun_late⟩, ?_, ?_⟩
  · decide +kernel
  · refine ⟨⟨[], [10], false, none⟩, _, _, _, ⟨hfirst, fun code hnone => by cases hnone⟩, by decide, rfl, rfl, silentRun_lost, ?_⟩
    intro command executor hbreach
    have hlost := @runWithInput_lost (some 255) [] (SUDO_OK_SENTINEL ++ [10]) executor command silent
      (timeoutMarker zeroNonce) false (by decide +kernel) (by decide +kernel)
    cases hlost.symm.trans hbreach
  · refine ⟨⟨[], timeoutMarker zeroNonce, false, some 7⟩, _, _, _, ⟨hfirst, hcode⟩, by decide +kernel, rfl, ?_,
      silentRun_imitating, ?_⟩
    · decide +kernel
    · intro command executor hbreach
      rw [finish_timedOut (by decide +kernel)] at hbreach
      cases hbreach

end Run

end DeployCore
