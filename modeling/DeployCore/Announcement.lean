import DeployCore.ExecutorOutput

/-! # The announcement of a start (`src/executor/channel.rs`)

What precedes the sentinel on standard error is the transport's and is held to a limit. The stream arrives in pieces, and
what has been read so far is judged afresh after each of them. -/

namespace DeployCore
open Occurs

def TRANSPORT_STDERR_LIMIT : Nat := 64 * 1024

/-- Where standard error read so far places a start's sentinel. -/
inductive Announcement
  | started (own : Nat)
  | overran (transport : Nat)
  | undecided
  deriving DecidableEq

def announcement (read : Bytes) : Announcement :=
  match first SUDO_OK_SENTINEL read with
  | some pos => if TRANSPORT_STDERR_LIMIT < pos then .overran pos else .started (pos + SUDO_OK_SENTINEL.length)
  | none =>
    if TRANSPORT_STDERR_LIMIT < read.length - partialSuffix read SUDO_OK_SENTINEL then .overran read.length
    else .undecided

/-- How the start of a channel settled: with the bytes that followed the announcement, or with the transport's. -/
inductive Settled
  | started (own : Bytes)
  | ended (transport : Bytes)
  | timedOut (transport : Bytes)
  deriving DecidableEq

/-- `fed` is whether the password line has been written in full. -/
def Settled.judge (read : Bytes) (fed : Bool) : Option Settled :=
  match announcement read with
  | .overran transport => some (.ended (read.take transport))
  | .started own => if fed then some (.started (read.drop own)) else none
  | .undecided => none

/-- What a ready standard input took of the password, if it is not closed. -/
inductive Fed
  | bytes (count : Nat)
  | brokenPipe
  deriving DecidableEq

/-- What a ready standard error gave. -/
inductive Heard
  | bytes (chunk : Bytes)
  | ended
  deriving DecidableEq

/-- One round of the loop: the deadline has passed, a call has failed, or `poll` returned. -/
inductive StartRound
  | passed
  | failed (err : IoError)
  | polled (fed : Option Fed) (heard : Option Heard)
  deriving DecidableEq

/-- How much of the password counts as written. -/
def Fed.after (unwritten written : Nat) : Option Fed → Nat
  | some (.bytes count) => written + count
  | some .brokenPipe => unwritten
  | none => written

/-- The loop, as far as the rounds go. -/
def feedAndSettle (unwritten : Nat) : List StartRound → (written : Nat) → (read : Bytes) → Option (Except IoError Settled)
  | rounds, written, read =>
    match Settled.judge read (decide (unwritten ≤ written)) with
    | some settled => some (.ok settled)
    | none =>
      match rounds with
      | [] => none
      | .passed :: _ => some (.ok (.timedOut read))
      | .failed err :: _ => some (.error err)
      | .polled _ (some .ended) :: _ => some (.ok (.ended read))
      | .polled fed (some (.bytes chunk)) :: rounds => feedAndSettle unwritten rounds (Fed.after unwritten written fed) (read ++ chunk)
      | .polled fed none :: rounds => feedAndSettle unwritten rounds (Fed.after unwritten written fed) read

/-- What standard error gave in one round. -/
def StartRound.chunk : StartRound → Bytes
  | .polled _ (some (.bytes chunk)) => chunk
  | _ => []

/-- How much of the password counts as written after the rounds. -/
def writtenAfter (unwritten : Nat) (rounds : List StartRound) (written : Nat) : Nat :=
  rounds.foldl (fun written round =>
    match round with
    | .polled fed _ => Fed.after unwritten written fed
    | _ => written) written

/-- A round in which nothing ends. -/
def StartRound.GoesOn : StartRound → Prop
  | .polled _ heard => heard ≠ some .ended
  | _ => False

/-! ### The announcement of a stream -/

section
variable {read read' stream : Bytes} {pos : Nat}

theorem sentinel_ne_nil : SUDO_OK_SENTINEL ≠ [] := by
  intro h
  cases h

theorem mem_sentinel : (95 : UInt8) ∈ SUDO_OK_SENTINEL := by
  decide +kernel

/-- The stream's start is announced within the limit. -/
def Announces (stream : Bytes) (pos : Nat) : Prop :=
  first SUDO_OK_SENTINEL stream = some pos ∧ pos ≤ TRANSPORT_STDERR_LIMIT

/-- What has been read of a stream that announces its start is undecided until the sentinel is whole. -/
theorem announcement_of_announces (h : Announces stream pos) (hread : read <+: stream) :
    announcement read = if pos + SUDO_OK_SENTINEL.length ≤ read.length then .started (pos + SUDO_OK_SENTINEL.length)
      else .undecided := by
  obtain ⟨hfirst, hlimit⟩ := h
  unfold announcement
  by_cases hwhole : pos + SUDO_OK_SENTINEL.length ≤ read.length
  · simp only [first_within hfirst hread hwhole sentinel_ne_nil, if_neg (Nat.not_lt.mpr hlimit), if_pos hwhole]
  · have hpartial := partialSuffix_first hfirst hread (by omega)
    simp only [first_eq_none_of_short hfirst hread (by omega), if_neg hwhole]
    rw [if_neg (by omega)]

theorem announces_of_announcement {own : Nat} (h : announcement read = .started own) :
    ∃ pos, Announces read pos ∧ own = pos + SUDO_OK_SENTINEL.length := by
  unfold announcement at h
  rcases hfirst : first SUDO_OK_SENTINEL read with _ | pos
  · simp only [hfirst] at h
    split at h <;> cases h
  · simp only [hfirst] at h
    split at h
    · cases h
    · next hlimit =>
      cases h
      exact ⟨pos, ⟨hfirst, Nat.not_lt.mp hlimit⟩, rfl⟩

theorem Announces.of_prefix (h : Announces read pos) (hread : read <+: stream) : Announces stream pos := by
  obtain ⟨rest, rfl⟩ := hread
  exact ⟨first_append h.1, h.2⟩

/-- An overrun is final: no more of the stream takes it back. -/
theorem announcement_overran {transport : Nat} (h : announcement read = .overran transport) (hread : read <+: read') :
    ∃ transport', announcement read' = .overran transport' := by
  rcases hlater : announcement read' with own | transport' | ⟨⟩
  · obtain ⟨pos, hpos, -⟩ := announces_of_announcement hlater
    rw [announcement_of_announces hpos hread] at h
    split at h <;> cases h
  · exact ⟨transport', rfl⟩
  · unfold announcement at h hlater
    rcases hfirst : first SUDO_OK_SENTINEL read' with _ | pos
    · have hnone : first SUDO_OK_SENTINEL read = none := by
        rcases hshort : first SUDO_OK_SENTINEL read with _ | pos
        · rfl
        · obtain ⟨rest, rfl⟩ := hread
          cases (first_append hshort).symm.trans hfirst
      have hmono := @partialSuffix_mono _ _ SUDO_OK_SENTINEL _ _ hread
      simp only [hfirst] at hlater
      simp only [hnone] at h
      split at hlater
      · cases hlater
      · split at h
        · omega
        · cases h
    · simp only [hfirst] at hlater
      split at hlater <;> cases hlater

/-! ### The rounds of a start -/

variable {unwritten written : Nat} {rounds : List StartRound} {own : Bytes}

theorem judge_started {fed : Bool} (h : Settled.judge read fed = some (.started own)) :
    ∃ pos, Announces read pos ∧ own = read.drop (pos + SUDO_OK_SENTINEL.length) := by
  unfold Settled.judge at h
  rcases hread : announcement read with cut | transport | ⟨⟩
  · simp only [hread] at h
    split at h
    · cases h
      obtain ⟨pos, hpos, rfl⟩ := announces_of_announcement hread
      exact ⟨pos, hpos, rfl⟩
    · cases h
  · simp only [hread] at h
    cases h
  · simp only [hread] at h
    cases h

theorem judge_of_announces {fed : Bool} (h : Announces stream pos) (hread : read <+: stream) :
    Settled.judge read fed = if pos + SUDO_OK_SENTINEL.length ≤ read.length ∧ fed = true
      then some (.started (read.drop (pos + SUDO_OK_SENTINEL.length))) else none := by
  have hannounced := announcement_of_announces h hread
  by_cases hwhole : pos + SUDO_OK_SENTINEL.length ≤ read.length
  · rw [if_pos hwhole] at hannounced
    simp only [Settled.judge, hannounced, hwhole, true_and]
  · rw [if_neg hwhole] at hannounced
    simp only [Settled.judge, hannounced, hwhole, false_and, if_false]

theorem feedAndSettle_some {settled : Settled} (h : Settled.judge read (decide (unwritten ≤ written)) = some settled) :
    feedAndSettle unwritten rounds written read = some (.ok settled) := by
  unfold feedAndSettle
  simp only [h]

theorem feedAndSettle_nil (h : Settled.judge read (decide (unwritten ≤ written)) = none) :
    feedAndSettle unwritten [] written read = none := by
  unfold feedAndSettle
  simp only [h]

/-- A round that decides nothing yet is one of three. -/
theorem feedAndSettle_cons {round : StartRound} (h : Settled.judge read (decide (unwritten ≤ written)) = none) :
    feedAndSettle unwritten (round :: rounds) written read =
      match round with
      | .passed => some (.ok (.timedOut read))
      | .failed err => some (.error err)
      | .polled _ (some .ended) => some (.ok (.ended read))
      | .polled fed _ => feedAndSettle unwritten rounds (Fed.after unwritten written fed) (read ++ round.chunk) := by
  conv_lhs => unfold feedAndSettle
  simp only [h]
  rcases round with _ | err | ⟨fed, _ | chunk | _⟩
  · rfl
  · rfl
  · exact congrArg (feedAndSettle unwritten rounds _) (List.append_nil read).symm
  · rfl
  · rfl

theorem judge_of_started {settled : Settled} (hjudge : Settled.judge read (decide (unwritten ≤ written)) = some settled)
    (h : feedAndSettle unwritten rounds written read = some (.ok (.started own))) :
    ∃ pos, Announces read pos ∧ own = read.drop (pos + SUDO_OK_SENTINEL.length) := by
  rw [feedAndSettle_some hjudge, Option.some.injEq, Except.ok.injEq] at h
  exact judge_started (hjudge.trans (congrArg some h))

/-- A start is settled by what the rounds so far gave; the rest of them is the command's. -/
theorem feedAndSettle_started (h : feedAndSettle unwritten rounds written read = some (.ok (.started own))) :
    ∃ done rest pos, rounds = done ++ rest ∧ Announces (read ++ done.flatMap StartRound.chunk) pos ∧
      own = (read ++ done.flatMap StartRound.chunk).drop (pos + SUDO_OK_SENTINEL.length) := by
  induction rounds generalizing written read with
  | nil =>
    rcases hjudge : Settled.judge read (decide (unwritten ≤ written)) with _ | settled
    · rw [feedAndSettle_nil hjudge] at h
      cases h
    · obtain ⟨pos, hpos, hown⟩ := judge_of_started hjudge h
      exact ⟨[], [], pos, rfl, by simpa using hpos, by simpa using hown⟩
  | cons round rounds ih =>
    rcases hjudge : Settled.judge read (decide (unwritten ≤ written)) with _ | settled
    · rw [feedAndSettle_cons hjudge] at h
      rcases round with _ | err | ⟨fed, heard⟩
      · cases h
      · cases h
      · have h : feedAndSettle unwritten rounds (Fed.after unwritten written fed)
            (read ++ (StartRound.polled fed heard).chunk) = some (.ok (.started own)) := by
          rcases heard with _ | chunk | _
          · exact h
          · exact h
          · cases h
        obtain ⟨done, rest, pos, rfl, hpos, hown⟩ := ih h
        rw [List.append_assoc] at hpos hown
        exact ⟨.polled fed heard :: done, rest, pos, rfl, hpos, hown⟩
    · obtain ⟨pos, hpos, hown⟩ := judge_of_started hjudge h
      exact ⟨[], round :: rounds, pos, rfl, by simpa using hpos, by simpa using hown⟩

/-- A stream that announces its start is started once the rounds have brought it and taken the password. -/
theorem feedAndSettle_complete (h : Announces stream pos) (hstream : read ++ rounds.flatMap StartRound.chunk = stream)
    (hgo : ∀ round ∈ rounds, round.GoesOn) (hfed : unwritten ≤ writtenAfter unwritten rounds written) :
    ∃ own, feedAndSettle unwritten rounds written read = some (.ok (.started own)) := by
  induction rounds generalizing written read with
  | nil =>
    obtain rfl : read = stream := by simpa using hstream
    obtain ⟨before, after, heq, rfl⟩ := first_eq_some h.1
    have hwhole : before.length + SUDO_OK_SENTINEL.length ≤ read.length := by
      rw [heq, List.length_append, List.length_append]
      omega
    have hjudge := @judge_of_announces read read before.length (decide (unwritten ≤ written)) h List.prefix_rfl
    rw [if_pos ⟨hwhole, decide_eq_true hfed⟩] at hjudge
    exact ⟨_, feedAndSettle_some hjudge⟩
  | cons round rounds ih =>
    have hjudge := @judge_of_announces read stream pos (decide (unwritten ≤ written)) h ⟨_, hstream⟩
    split at hjudge
    · exact ⟨_, feedAndSettle_some hjudge⟩
    · obtain ⟨hround, hrest⟩ := List.forall_mem_cons.mp hgo
      rw [feedAndSettle_cons hjudge]
      rw [List.flatMap_cons, ← List.append_assoc] at hstream
      rcases round with _ | err | ⟨fed, _ | chunk | _⟩
      · cases hround
      · cases hround
      · exact ih hstream hrest hfed
      · exact ih hstream hrest hfed
      · exact absurd rfl hround

/-- Of a stream that announces its start, only the end of the stream is taken for the end of the transport. -/
theorem feedAndSettle_ended {transport : Bytes} (h : Announces stream pos)
    (hstream : read ++ rounds.flatMap StartRound.chunk = stream)
    (hended : feedAndSettle unwritten rounds written read = some (.ok (.ended transport))) :
    ∃ fed, .polled fed (some .ended) ∈ rounds := by
  induction rounds generalizing written read with
  | nil =>
    have hjudge := @judge_of_announces read stream pos (decide (unwritten ≤ written)) h ⟨_, hstream⟩
    split at hjudge
    · rw [feedAndSettle_some hjudge] at hended
      cases hended
    · rw [feedAndSettle_nil hjudge] at hended
      cases hended
  | cons round rounds ih =>
    have hjudge := @judge_of_announces read stream pos (decide (unwritten ≤ written)) h ⟨_, hstream⟩
    split at hjudge
    · rw [feedAndSettle_some hjudge] at hended
      cases hended
    · rw [feedAndSettle_cons hjudge] at hended
      rw [List.flatMap_cons, ← List.append_assoc] at hstream
      rcases round with _ | err | ⟨fed, _ | chunk | _⟩
      · cases hended
      · cases hended
      · obtain ⟨fed', hmem⟩ := ih hstream hended
        exact ⟨fed', List.mem_cons_of_mem _ hmem⟩
      · obtain ⟨fed', hmem⟩ := ih hstream hended
        exact ⟨fed', List.mem_cons_of_mem _ hmem⟩
      · exact ⟨fed, List.mem_cons_self⟩

/-- However the stream is cut and the password taken, a channel is started exactly where the sentinel begins within the
limit, and is handed what follows it; before the sentinel is whole such a stream is undecided. An overrun is an overrun of
the whole stream. -/
theorem announcement_judges (stream : Bytes) :
    (∀ read, read <+: stream → ∀ own, announcement read = .started own →
      ∃ pos, Announces stream pos ∧ own = pos + SUDO_OK_SENTINEL.length) ∧
    (∀ pos, Announces stream pos → ∀ read, read <+: stream → announcement read =
      if pos + SUDO_OK_SENTINEL.length ≤ read.length then .started (pos + SUDO_OK_SENTINEL.length) else .undecided) ∧
    (∀ read, read <+: stream → ∀ transport, announcement read = .overran transport →
      ∃ transport', announcement stream = .overran transport') ∧
    ∀ unwritten rounds, rounds.flatMap StartRound.chunk = stream →
      (∀ own, feedAndSettle unwritten rounds 0 [] = some (.ok (.started own)) → ∃ done rest pos, rounds = done ++ rest ∧
        Announces stream pos ∧ own ++ rest.flatMap StartRound.chunk = stream.drop (pos + SUDO_OK_SENTINEL.length)) ∧
      (∀ pos transport, Announces stream pos → feedAndSettle unwritten rounds 0 [] = some (.ok (.ended transport)) →
        ∃ fed, .polled fed (some .ended) ∈ rounds) ∧
      ((∀ round ∈ rounds, round.GoesOn) → unwritten ≤ writtenAfter unwritten rounds 0 →
        ((∃ own, feedAndSettle unwritten rounds 0 [] = some (.ok (.started own))) ↔ ∃ pos, Announces stream pos)) := by
  refine ⟨?_, fun _ h _ hread => announcement_of_announces h hread, fun _ hread _ h => announcement_overran h hread, ?_⟩
  · intro read hread own h
    obtain ⟨pos, hpos, rfl⟩ := announces_of_announcement h
    exact ⟨pos, hpos.of_prefix hread, rfl⟩
  intro unwritten rounds hstream
  have hstarted {own : Bytes} (h : feedAndSettle unwritten rounds 0 [] = some (.ok (.started own))) :
      ∃ done rest pos, rounds = done ++ rest ∧ Announces stream pos ∧
        own ++ rest.flatMap StartRound.chunk = stream.drop (pos + SUDO_OK_SENTINEL.length) := by
    obtain ⟨done, rest, pos, rfl, hpos, rfl⟩ := feedAndSettle_started h
    rw [List.nil_append] at hpos
    rw [List.flatMap_append] at hstream
    obtain ⟨before, after, heq, rfl⟩ := first_eq_some hpos.1
    have hwhole : before.length + SUDO_OK_SENTINEL.length ≤ (done.flatMap StartRound.chunk).length := by
      rw [heq, List.length_append, List.length_append]
      omega
    refine ⟨done, rest, _, rfl, hpos.of_prefix ⟨_, hstream⟩, ?_⟩
    rw [← hstream, List.nil_append, List.drop_append_of_le_length hwhole]
  refine ⟨fun own h => hstarted h, fun pos transport hpos h => feedAndSettle_ended hpos hstream h, fun hgo hfed => ?_⟩
  constructor
  · rintro ⟨own, h⟩
    obtain ⟨-, -, pos, -, hpos, -⟩ := hstarted h
    exact ⟨pos, hpos⟩
  · rintro ⟨pos, hpos⟩
    exact feedAndSettle_complete hpos hstream hgo hfed

theorem announcement_judges_fragment :
    announcement (asBytes "motd__BOOTLER_SUDO__BOOTLER_SUDO_") = .undecided ∧
      announcement (asBytes "motd__BOOTLER_SUDO__BOOTLER_SUDO_OK__own") = .started 37 := by
  have hpos : Announces (asBytes "motd__BOOTLER_SUDO__BOOTLER_SUDO_OK__own") 18 := ⟨by decide +kernel, by decide⟩
  have hjudges := (announcement_judges (asBytes "motd__BOOTLER_SUDO__BOOTLER_SUDO_OK__own")).2.1 18 hpos
  exact ⟨hjudges _ (by decide +kernel), hjudges _ List.prefix_rfl⟩

/-- A run of one byte that is no sentinel's holds no part of one. -/
theorem partialSuffix_replicate (n : Nat) : partialSuffix (List.replicate n 120) SUDO_OK_SENTINEL = 0 := by
  by_contra hpos
  have hdrop := @partialSuffix_drop _ _ SUDO_OK_SENTINEL (List.replicate n 120)
  have hle := @partialSuffix_le _ _ SUDO_OK_SENTINEL (List.replicate n 120)
  rw [List.length_replicate] at hdrop hle
  obtain ⟨k, hk⟩ : ∃ k, n - (n - partialSuffix (List.replicate n 120) SUDO_OK_SENTINEL) = k + 1 :=
    ⟨n - (n - partialSuffix (List.replicate n 120) SUDO_OK_SENTINEL) - 1, by omega⟩
  rw [List.drop_replicate, hk, List.replicate_succ] at hdrop
  obtain ⟨rest, hrest⟩ := hdrop
  have hhead := congrArg List.head? hrest
  cases hhead

/-- Such a run is all the transport's. -/
theorem announcement_replicate {n : Nat} (h : TRANSPORT_STDERR_LIMIT < n) :
    announcement (List.replicate n 120) = .overran n := by
  have hnone : first SUDO_OK_SENTINEL (List.replicate n 120) = none := by
    refine (first_eq_none sentinel_ne_nil).mpr fun hinfix => ?_
    have hmem := hinfix.subset mem_sentinel
    exact absurd (List.eq_of_mem_replicate hmem) (by decide)
  simp only [announcement, hnone, partialSuffix_replicate, Nat.sub_zero, List.length_replicate, if_pos h]

/-- How much of a refused transport's text is kept depends on where a read stopped. -/
theorem announcement_cut : ∃ pieces pieces' : List Bytes, pieces.flatten = pieces'.flatten ∧
    feedAndSettle 0 (pieces.map fun piece => .polled none (some (.bytes piece))) 0 [] ≠
      feedAndSettle 0 (pieces'.map fun piece => .polled none (some (.bytes piece))) 0 [] := by
  have hresult {n : Nat} {rounds : List StartRound} (h : TRANSPORT_STDERR_LIMIT < n) :
      feedAndSettle 0 (.polled none (some (.bytes (List.replicate n 120))) :: rounds) 0 [] =
        some (.ok (.ended (List.replicate n 120))) := by
    have hempty : Settled.judge [] (decide (0 ≤ 0)) = none := rfl
    have hjudge : Settled.judge (List.replicate n 120) (decide (0 ≤ 0)) = some (.ended (List.replicate n 120)) := by
      simp only [Settled.judge, announcement_replicate h]
      rw [List.take_of_length_le (by simp)]
    rw [feedAndSettle_cons hempty]
    exact feedAndSettle_some hjudge
  refine ⟨[List.replicate (TRANSPORT_STDERR_LIMIT + 1) 120, [120]], [List.replicate (TRANSPORT_STDERR_LIMIT + 2) 120], ?_, ?_⟩
  · rw [List.flatten_cons, List.flatten_cons, List.flatten_nil, List.append_nil, List.flatten_cons, List.flatten_nil,
      List.append_nil, ← List.replicate_succ']
  · have hlater : TRANSPORT_STDERR_LIMIT < TRANSPORT_STDERR_LIMIT + 2 := by omega
    rw [List.map_cons, List.map_cons, List.map_cons, hresult (Nat.lt_succ_self _), hresult hlater]
    intro heq
    simp only [Option.some.injEq, Except.ok.injEq, Settled.ended.injEq] at heq
    have := congrArg List.length heq
    rw [List.length_replicate, List.length_replicate] at this
    omega

end

end DeployCore
