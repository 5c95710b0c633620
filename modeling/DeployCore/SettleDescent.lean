import DeployCore.Announcement
import DeployCore.Transports

/-! # Settling a descent (`src/executor.rs`)

What a descent has written on standard error so far is classified afresh after each read: a start is announced, the
working directory could not be entered, or `sudo` refused. A start is searched for first, then a missing directory in
what precedes it; only the start's word may still be arriving when the limit is judged. -/

namespace DeployCore
open Occurs

inductive DescentSettle
  | pending
  | started (commandStderrFrom : Nat)
  | noWorkingDirectory (reason : String)
  | refused (err : ExecutorError)
  deriving DecidableEq

namespace InDaemonExecutor

def settleDescent (e : InDaemonExecutor) (stderr : Bytes) (ended : Bool) : DescentSettle :=
  let capped (stop : Nat) := stderr.take (min stop TRANSPORT_STDERR_LIMIT)
  let settle (transport : Nat) (overran : Bool) :=
    match first NO_WORKING_DIRECTORY_MARKER (stderr.take transport) with
    | some pos => .noWorkingDirectory (lossyTrim (capped pos))
    | none =>
      if overran then .refused (elevationRefusal (capped transport) none e.host)
      else if ended then .refused (elevationRefusal stderr none e.host)
      else .pending
  match announcement stderr with
  | .started own => .started own
  | .overran transport => settle transport true
  | .undecided => settle stderr.length false

/-- The verdicts a caller is given that asks after every read, and once more at the end of the stream. -/
def settleCalls (e : InDaemonExecutor) : (read : Bytes) → List Bytes → List DescentSettle
  | read, [] => [e.settleDescent read true]
  | read, piece :: pieces => e.settleDescent (read ++ piece) false :: e.settleCalls (read ++ piece) pieces

end InDaemonExecutor

/-! ### What a descent writes -/

/-- What the script writes behind the transport's text. -/
inductive DescentOutcome
  | started (own : Bytes)
  | noWorkingDirectory
  | nothing
  deriving DecidableEq

/-- The word that reports the outcome. -/
def DescentOutcome.word : DescentOutcome → Bytes
  | .started _ => SUDO_OK_SENTINEL
  | .noWorkingDirectory => NO_WORKING_DIRECTORY_MARKER
  | .nothing => []

def DescentOutcome.text : DescentOutcome → Bytes
  | .started own => SUDO_OK_SENTINEL ++ own
  | .noWorkingDirectory => NO_WORKING_DIRECTORY_MARKER
  | .nothing => []

/-- More than the limit has been read that cannot be a start arriving. -/
def Overran (read : Bytes) : Prop := TRANSPORT_STDERR_LIMIT < read.length - partialSuffix read SUDO_OK_SENTINEL

instance (read : Bytes) : Decidable (Overran read) := Nat.decLt ..

/-- What the outcome is settled as, in the end. -/
def DescentOutcome.verdict (e : InDaemonExecutor) (transport : Bytes) : DescentOutcome → DescentSettle
  | .started _ =>
    if transport.length ≤ TRANSPORT_STDERR_LIMIT then .started (transport.length + SUDO_OK_SENTINEL.length)
    else .refused (elevationRefusal (transport.take TRANSPORT_STDERR_LIMIT) none e.host)
  | .noWorkingDirectory => .noWorkingDirectory (lossyTrim (transport.take TRANSPORT_STDERR_LIMIT))
  | .nothing =>
    .refused (elevationRefusal (if Overran transport then transport.take TRANSPORT_STDERR_LIMIT else transport) none e.host)

section
variable {e : InDaemonExecutor} {transport read read' : Bytes} {outcome : DescentOutcome} {ended ended' : Bool} {pos : Nat}

/-- No outcome's word begins before the end of the transport's text. -/
def Clear (transport : Bytes) (outcome : DescentOutcome) : Prop :=
  ∀ word ∈ [SUDO_OK_SENTINEL, NO_WORKING_DIRECTORY_MARKER], ∀ pos,
    first word (transport ++ outcome.text) = some pos → transport.length ≤ pos

/-- What has been read decides the outcome: its word is whole, the limit is passed, or the stream has ended. -/
def Decided (transport : Bytes) (outcome : DescentOutcome) (read : Bytes) (ended : Bool) : Prop :=
  (outcome ≠ .nothing ∧ transport.length + outcome.word.length ≤ read.length) ∨ Overran read ∨ ended = true

instance : Decidable (Decided transport outcome read ended) :=
  inferInstanceAs (Decidable ((_ ∧ _) ∨ Overran read ∨ ended = true))

/-- The limit is passed while the word for a missing directory is still to come or arriving. -/
def Hidden (transport : Bytes) (outcome : DescentOutcome) (read : Bytes) : Prop :=
  outcome = .noWorkingDirectory ∧ read.length < transport.length + NO_WORKING_DIRECTORY_MARKER.length ∧ Overran read

instance : Decidable (Hidden transport outcome read) := inferInstanceAs (Decidable (_ ∧ _ ∧ Overran read))

/-! ### One call -/

open InDaemonExecutor

theorem marker_ne_nil : NO_WORKING_DIRECTORY_MARKER ≠ [] := by
  intro h
  cases h

theorem sentinel_not_infix_marker : first SUDO_OK_SENTINEL NO_WORKING_DIRECTORY_MARKER = none := by
  decide +kernel

theorem settleDescent_silent (hsentinel : first SUDO_OK_SENTINEL read = none)
    (hmarker : first NO_WORKING_DIRECTORY_MARKER read = none) :
    e.settleDescent read ended =
      if Overran read then .refused (elevationRefusal (read.take TRANSPORT_STDERR_LIMIT) none e.host)
      else if ended then .refused (elevationRefusal read none e.host)
      else .pending := by
  by_cases hover : Overran read
  · have hannounced : announcement read = .overran read.length := by
      unfold announcement
      simp only [hsentinel]
      exact if_pos hover
    have hlong : TRANSPORT_STDERR_LIMIT ≤ read.length := Nat.le_of_lt (Nat.lt_of_lt_of_le hover (Nat.sub_le ..))
    simp [settleDescent, hannounced, hmarker, hover, Nat.min_eq_right hlong]
  · have hannounced : announcement read = .undecided := by
      unfold announcement
      simp only [hsentinel]
      exact if_neg hover
    simp [settleDescent, hannounced, hmarker, hover]

theorem settleDescent_marked (hsentinel : first SUDO_OK_SENTINEL read = none)
    (hmarker : first NO_WORKING_DIRECTORY_MARKER read = some pos) :
    e.settleDescent read ended = .noWorkingDirectory (lossyTrim (read.take (min pos TRANSPORT_STDERR_LIMIT))) := by
  by_cases hover : Overran read
  · have hannounced : announcement read = .overran read.length := by
      unfold announcement
      simp only [hsentinel]
      exact if_pos hover
    simp [settleDescent, hannounced, hmarker]
  · have hannounced : announcement read = .undecided := by
      unfold announcement
      simp only [hsentinel]
      exact if_neg hover
    simp [settleDescent, hannounced, hmarker]

theorem settleDescent_announced (hsentinel : first SUDO_OK_SENTINEL read = some pos)
    (hmarker : first NO_WORKING_DIRECTORY_MARKER (read.take pos) = none) :
    e.settleDescent read ended =
      if pos ≤ TRANSPORT_STDERR_LIMIT then .started (pos + SUDO_OK_SENTINEL.length)
      else .refused (elevationRefusal (read.take TRANSPORT_STDERR_LIMIT) none e.host) := by
  by_cases hlimit : pos ≤ TRANSPORT_STDERR_LIMIT
  · have hannounced : announcement read = .started (pos + SUDO_OK_SENTINEL.length) := by
      unfold announcement
      simp only [hsentinel]
      exact if_neg (Nat.not_lt.mpr hlimit)
    simp [settleDescent, hannounced, hlimit]
  · have hannounced : announcement read = .overran pos := by
      unfold announcement
      simp only [hsentinel]
      exact if_pos (Nat.not_le.mp hlimit)
    simp [settleDescent, hannounced, hmarker, hlimit, Nat.min_eq_right (Nat.le_of_not_le hlimit)]

/-! ### A prefix of what a descent writes -/

theorem Overran.lt (h : Overran read) : TRANSPORT_STDERR_LIMIT < read.length :=
  Nat.lt_of_lt_of_le h (Nat.sub_le ..)

theorem Overran.of_prefix (h : Overran read) (hread : read <+: read') : Overran read' :=
  Nat.lt_of_lt_of_le h (partialSuffix_mono hread)

/-- What is kept of the text past the limit is its first bytes, whatever has been read of it. -/
theorem Overran.take (h : Overran read) (hread : read <+: read') :
    read.take TRANSPORT_STDERR_LIMIT = read'.take TRANSPORT_STDERR_LIMIT := by
  obtain ⟨rest, rfl⟩ := hread
  rw [List.take_append_of_le_length (Nat.le_of_lt h.lt)]

/-- A word that begins behind the transport's text is not in what is too short to hold it there. -/
theorem Clear.absent (h : Clear transport outcome) (hread : read <+: transport ++ outcome.text) {word : Bytes}
    (hword : word ∈ [SUDO_OK_SENTINEL, NO_WORKING_DIRECTORY_MARKER])
    (hshort : read.length < transport.length + word.length) : first word read = none := by
  rcases hfirst : first word read with _ | pos
  · rfl
  · obtain ⟨rest, hrest⟩ := hread
    have hle := h word hword pos (hrest ▸ first_append hfirst)
    obtain ⟨before, after, rfl, rfl⟩ := first_eq_some hfirst
    rw [List.length_append, List.length_append] at hshort
    omega

theorem Clear.started {own : Bytes} (h : Clear transport (.started own)) :
    first SUDO_OK_SENTINEL (transport ++ SUDO_OK_SENTINEL ++ own) = some transport.length := by
  refine first_append_needle sentinel_ne_nil fun pos hpos => h _ (List.mem_cons_self ..) pos ?_
  rw [← hpos, List.append_assoc]
  rfl

theorem Clear.noWorkingDirectory (h : Clear transport .noWorkingDirectory) :
    first NO_WORKING_DIRECTORY_MARKER (transport ++ NO_WORKING_DIRECTORY_MARKER) = some transport.length := by
  have hfirst := @first_append_needle _ _ NO_WORKING_DIRECTORY_MARKER transport [] marker_ne_nil
  rw [List.append_nil] at hfirst
  exact hfirst fun pos hpos => h _ (by simp) pos hpos

/-- A missing directory's word holds no start's. -/
theorem Clear.unannounced (h : Clear transport .noWorkingDirectory) (hread : read <+: transport ++ NO_WORKING_DIRECTORY_MARKER) :
    first SUDO_OK_SENTINEL read = none := by
  obtain ⟨rest, hrest⟩ := hread
  rcases hfirst : first SUDO_OK_SENTINEL read with _ | pos
  · rfl
  · have hwhole : first SUDO_OK_SENTINEL (transport ++ NO_WORKING_DIRECTORY_MARKER) = some pos :=
      hrest ▸ first_append hfirst
    have hle := h _ (List.mem_cons_self ..) pos hwhole
    obtain ⟨before, after, heq, rfl⟩ := first_eq_some hwhole
    have hdrop := congrArg (List.drop transport.length) heq
    rw [List.drop_left, List.append_assoc, List.drop_append_of_le_length hle] at hdrop
    refine absurd ?_ ((first_eq_none sentinel_ne_nil).mp sentinel_not_infix_marker)
    exact ⟨before.drop transport.length, after, by rw [hdrop, List.append_assoc]⟩

theorem Hidden.overran (h : Hidden transport outcome read) : Overran read := h.2.2

/-- The limit cannot be passed too early where the whole report fits within it. -/
theorem Hidden.lt (h : Hidden transport outcome read) :
    TRANSPORT_STDERR_LIMIT + 1 < transport.length + NO_WORKING_DIRECTORY_MARKER.length := by
  have hlt := h.overran.lt
  have hshort := h.2.1
  omega

theorem Decided.later (h : Decided transport outcome read ended) (hread : read <+: read')
    (hended : ended = true → ended' = true) : Decided transport outcome read' ended' := by
  rcases h with ⟨hsome, hwhole⟩ | hover | hend
  · exact .inl ⟨hsome, hwhole.trans hread.length_le⟩
  · exact .inr (.inl (hover.of_prefix hread))
  · exact .inr (.inr (hended hend))

/-! ### The verdict of a call -/

theorem settleDescent_started {own : Bytes} (h : Clear transport (.started own))
    (hread : read <+: transport ++ (DescentOutcome.started own).text)
    (hended : ended = true → read = transport ++ (DescentOutcome.started own).text) :
    e.settleDescent read ended =
      if Decided transport (.started own) read ended then (DescentOutcome.started own).verdict e transport
      else .pending := by
  have hfirst := h.started
  have hread' : read <+: transport ++ SUDO_OK_SENTINEL ++ own := by
    rw [List.append_assoc]
    exact hread
  by_cases hwhole : transport.length + SUDO_OK_SENTINEL.length ≤ read.length
  · have hdecided : Decided transport (.started own) read ended := .inl ⟨fun h => (by cases h), hwhole⟩
    have hkept : read.take transport.length = transport := by
      refine (List.prefix_iff_eq_take.mp ?_).symm
      exact List.prefix_of_prefix_length_le (List.prefix_append _ _) hread (Nat.le_of_add_right_le hwhole)
    have hmarker : first NO_WORKING_DIRECTORY_MARKER (read.take transport.length) = none := by
      refine h.absent ((List.take_prefix ..).trans hread) (by simp) ?_
      have := List.length_pos_of_ne_nil marker_ne_nil
      rw [List.length_take]
      omega
    rw [if_pos hdecided, settleDescent_announced (first_within hfirst hread' hwhole sentinel_ne_nil) hmarker]
    by_cases hlimit : transport.length ≤ TRANSPORT_STDERR_LIMIT
    · simp [DescentOutcome.verdict, hlimit]
    · have hcap : read.take TRANSPORT_STDERR_LIMIT = transport.take TRANSPORT_STDERR_LIMIT := by
        rw [← hkept, List.take_take, Nat.min_eq_left (Nat.le_of_not_le hlimit)]
      simp [DescentOutcome.verdict, hlimit, hcap]
  · have hsentinel := first_eq_none_of_short hfirst hread' (Nat.not_le.mp hwhole)
    have hmarker : first NO_WORKING_DIRECTORY_MARKER read = none := by
      refine h.absent hread (by simp) ?_
      have : SUDO_OK_SENTINEL.length ≤ NO_WORKING_DIRECTORY_MARKER.length := by decide
      omega
    have hopen : ¬ ended = true := by
      intro hend
      refine hwhole ?_
      rw [hended hend, List.length_append, DescentOutcome.text, List.length_append]
      omega
    rw [settleDescent_silent hsentinel hmarker]
    by_cases hover : Overran read
    · have hdecided : Decided transport (.started own) read ended := .inr (.inl hover)
      have hlimit : ¬ transport.length ≤ TRANSPORT_STDERR_LIMIT := by
        have hbegins := partialSuffix_first hfirst hread' (Nat.not_le.mp hwhole)
        exact Nat.not_le.mpr (Nat.lt_of_lt_of_le hover hbegins)
      have hcap : read.take TRANSPORT_STDERR_LIMIT = transport.take TRANSPORT_STDERR_LIMIT := by
        rw [hover.take hread, List.take_append_of_le_length (Nat.le_of_not_le hlimit)]
      rw [if_pos hover, if_pos hdecided, hcap]
      simp [DescentOutcome.verdict, hlimit]
    · have hundecided : ¬ Decided transport (.started own) read ended := by
        rintro (⟨-, hlong⟩ | hover' | hend)
        · exact hwhole hlong
        · exact hover hover'
        · exact hopen hend
      rw [if_neg hover, if_neg hundecided, if_neg hopen]

theorem settleDescent_noWorkingDirectory (h : Clear transport .noWorkingDirectory)
    (hread : read <+: transport ++ DescentOutcome.noWorkingDirectory.text)
    (hended : ended = true → read = transport ++ DescentOutcome.noWorkingDirectory.text) :
    e.settleDescent read ended =
      if transport.length + NO_WORKING_DIRECTORY_MARKER.length ≤ read.length then
        DescentOutcome.noWorkingDirectory.verdict e transport
      else if Overran read then .refused (elevationRefusal (read.take TRANSPORT_STDERR_LIMIT) none e.host)
      else .pending := by
  have hsentinel := h.unannounced hread
  by_cases hwhole : transport.length + NO_WORKING_DIRECTORY_MARKER.length ≤ read.length
  · have hmarker := first_within h.noWorkingDirectory hread hwhole marker_ne_nil
    have hkept : read.take transport.length = transport := by
      refine (List.prefix_iff_eq_take.mp ?_).symm
      exact List.prefix_of_prefix_length_le (List.prefix_append _ _) hread (Nat.le_of_add_right_le hwhole)
    rw [if_pos hwhole, settleDescent_marked hsentinel hmarker, Nat.min_comm, ← List.take_take, hkept]
    rfl
  · have hmarker := first_eq_none_of_short h.noWorkingDirectory hread (Nat.not_le.mp hwhole)
    have hopen : ¬ ended = true := by
      intro hend
      refine hwhole ?_
      rw [hended hend, List.length_append]
      exact le_rfl
    rw [if_neg hwhole, settleDescent_silent hsentinel hmarker, if_neg hopen]

theorem settleDescent_nothing (h : Clear transport .nothing) (hread : read <+: transport)
    (hended : ended = true → read = transport) :
    e.settleDescent read ended =
      if Decided transport .nothing read ended then DescentOutcome.nothing.verdict e transport else .pending := by
  have hread' : read <+: transport ++ DescentOutcome.nothing.text := by
    rw [DescentOutcome.text, List.append_nil]
    exact hread
  have habsent {word : Bytes} (hword : word ∈ [SUDO_OK_SENTINEL, NO_WORKING_DIRECTORY_MARKER])
      (hne : word ≠ []) : first word read = none := by
    refine h.absent hread' hword ?_
    have := List.length_pos_of_ne_nil hne
    have := hread.length_le
    omega
  rw [settleDescent_silent (habsent (List.mem_cons_self ..) sentinel_ne_nil) (habsent (by simp) marker_ne_nil)]
  by_cases hover : Overran read
  · have hdecided : Decided transport .nothing read ended := .inr (.inl hover)
    rw [if_pos hover, if_pos hdecided, hover.take hread]
    simp [DescentOutcome.verdict, hover.of_prefix hread]
  · by_cases hend : ended = true
    · have hdecided : Decided transport .nothing read ended := .inr (.inr hend)
      have hsame := hended hend
      rw [if_neg hover, if_pos hend, if_pos hdecided]
      rw [hsame] at hover ⊢
      simp [DescentOutcome.verdict, hover]
    · have hundecided : ¬ Decided transport .nothing read ended := by
        rintro (⟨hsome, -⟩ | hover' | hend')
        · exact hsome rfl
        · exact hover hover'
        · exact hend hend'
      rw [if_neg hover, if_neg hend, if_neg hundecided]

/-- Whatever has been read, a call's verdict is one of three. -/
theorem settleDescent_call (h : Clear transport outcome) (hread : read <+: transport ++ outcome.text)
    (hended : ended = true → read = transport ++ outcome.text) :
    e.settleDescent read ended =
      if Hidden transport outcome read then .refused (elevationRefusal (read.take TRANSPORT_STDERR_LIMIT) none e.host)
      else if Decided transport outcome read ended then outcome.verdict e transport
      else .pending := by
  rcases outcome with own | _ | _
  · have hshown : ¬ Hidden transport (.started own) read := by
      rintro ⟨hout, -⟩
      cases hout
    rw [if_neg hshown, settleDescent_started h hread hended]
  · rw [settleDescent_noWorkingDirectory h hread hended]
    by_cases hwhole : transport.length + NO_WORKING_DIRECTORY_MARKER.length ≤ read.length
    · have hshown : ¬ Hidden transport .noWorkingDirectory read := by
        rintro ⟨-, hshort, -⟩
        omega
      have hdecided : Decided transport .noWorkingDirectory read ended := .inl ⟨fun h => (by cases h), hwhole⟩
      rw [if_pos hwhole, if_neg hshown, if_pos hdecided]
    · by_cases hover : Overran read
      · have hhidden : Hidden transport .noWorkingDirectory read := ⟨rfl, Nat.not_le.mp hwhole, hover⟩
        rw [if_neg hwhole, if_pos hover, if_pos hhidden]
      · have hundecided : ¬ Decided transport .noWorkingDirectory read ended := by
          rintro (⟨-, hlong⟩ | hover' | hend)
          · exact hwhole hlong
          · exact hover hover'
          · refine hwhole ?_
            rw [hended hend, List.length_append]
            exact le_rfl
        rw [if_neg hwhole, if_neg hover, if_neg fun hhidden => hover (Hidden.overran hhidden), if_neg hundecided]
  · have hshown : ¬ Hidden transport .nothing read := by
      rintro ⟨hout, -⟩
      cases hout
    rw [DescentOutcome.text, List.append_nil] at hread hended
    rw [if_neg hshown, settleDescent_nothing h hread hended]

/-! ### The calls of one stream -/

variable {pieces : List Bytes}

/-- No call is made on what passes the limit ahead of a missing directory's word. -/
def NeverHidden (transport : Bytes) (outcome : DescentOutcome) (read : Bytes) (pieces : List Bytes) : Prop :=
  ∀ n, ¬ Hidden transport outcome (read ++ (pieces.take n).flatten)

theorem NeverHidden.of_cons {piece : Bytes} (h : NeverHidden transport outcome read (piece :: pieces)) :
    NeverHidden transport outcome (read ++ piece) pieces := by
  intro n
  have hn := h (n + 1)
  rw [List.take_succ_cons, List.flatten_cons, ← List.append_assoc] at hn
  exact hn

theorem NeverHidden.start (h : NeverHidden transport outcome read pieces) : ¬ Hidden transport outcome read := by
  have hzero := h 0
  rw [List.take_zero, List.flatten_nil, List.append_nil] at hzero
  exact hzero

/-- The call at the end of the stream settles it. -/
theorem settleDescent_ended (h : Clear transport outcome) :
    e.settleDescent (transport ++ outcome.text) true = outcome.verdict e transport := by
  have hshown : ¬ Hidden transport outcome (transport ++ outcome.text) := by
    rintro ⟨rfl, hshort, -⟩
    rw [List.length_append] at hshort
    exact Nat.lt_irrefl _ hshort
  rw [settleDescent_call h List.prefix_rfl fun _ => rfl, if_neg hshown, if_pos (.inr (.inr rfl))]

/-- What is decided stays so. -/
theorem settleCalls_decided (h : Clear transport outcome) (hread : read ++ pieces.flatten = transport ++ outcome.text)
    (hshown : NeverHidden transport outcome read pieces) (hdecided : Decided transport outcome read false) :
    ∃ n, e.settleCalls read pieces = List.replicate (n + 1) (outcome.verdict e transport) := by
  induction pieces generalizing read with
  | nil =>
    rw [List.flatten_nil, List.append_nil] at hread
    refine ⟨0, ?_⟩
    rw [settleCalls, hread, settleDescent_ended h]
    rfl
  | cons piece pieces ih =>
    rw [List.flatten_cons, ← List.append_assoc] at hread
    have hlater : Decided transport outcome (read ++ piece) false := hdecided.later (List.prefix_append ..) id
    obtain ⟨n, hn⟩ := ih hread hshown.of_cons hlater
    refine ⟨n + 1, ?_⟩
    rw [settleCalls, hn, settleDescent_call h ⟨_, hread⟩ (fun hend => by cases hend), if_neg hshown.of_cons.start,
      if_pos hlater]
    rfl

/-- The verdicts are undecided up to some read, and the outcome's from there on. -/
theorem settleCalls_settles (h : Clear transport outcome) (hread : read ++ pieces.flatten = transport ++ outcome.text)
    (hshown : NeverHidden transport outcome read pieces) :
    ∃ waiting n, e.settleCalls read pieces =
      List.replicate waiting .pending ++ List.replicate (n + 1) (outcome.verdict e transport) := by
  induction pieces generalizing read with
  | nil =>
    rw [List.flatten_nil, List.append_nil] at hread
    refine ⟨0, 0, ?_⟩
    rw [settleCalls, hread, settleDescent_ended h]
    rfl
  | cons piece pieces ih =>
    rw [List.flatten_cons, ← List.append_assoc] at hread
    have hcall := @settleDescent_call e _ _ _ false h ⟨_, hread⟩ (fun hend => by cases hend)
    rw [if_neg hshown.of_cons.start] at hcall
    by_cases hdecided : Decided transport outcome (read ++ piece) false
    · obtain ⟨n, hn⟩ := @settleCalls_decided e _ _ _ _ h hread hshown.of_cons hdecided
      refine ⟨0, n + 1, ?_⟩
      rw [settleCalls, hn, hcall, if_pos hdecided]
      rfl
    · obtain ⟨waiting, n, hn⟩ := ih hread hshown.of_cons
      refine ⟨waiting + 1, n, ?_⟩
      rw [settleCalls, hn, hcall, if_neg hdecided]
      rfl

/-- A read that stops between a long text and a missing directory's word is refused, and the next one is not. -/
theorem settleCalls_hidden (h : Clear transport .noWorkingDirectory) (hover : Overran transport) :
    e.settleCalls [] [transport, NO_WORKING_DIRECTORY_MARKER] =
      [.refused (elevationRefusal (transport.take TRANSPORT_STDERR_LIMIT) none e.host),
        DescentOutcome.noWorkingDirectory.verdict e transport, DescentOutcome.noWorkingDirectory.verdict e transport] := by
  have hhidden : Hidden transport .noWorkingDirectory transport :=
    ⟨rfl, Nat.lt_add_of_pos_right (List.length_pos_of_ne_nil marker_ne_nil), hover⟩
  have hshort := @settleDescent_call e _ _ _ false h (List.prefix_append ..) (fun hend => by cases hend)
  rw [if_pos hhidden] at hshort
  have hwhole := @settleDescent_noWorkingDirectory e _ _ false h List.prefix_rfl (fun _ => rfl)
  have hlong : transport.length + NO_WORKING_DIRECTORY_MARKER.length ≤
      (transport ++ DescentOutcome.noWorkingDirectory.text).length := by
    rw [List.length_append]
    exact le_rfl
  rw [if_pos hlong] at hwhole
  have hended := @settleDescent_ended e _ _ h
  simp only [settleCalls, List.nil_append, hshort]
  exact congrArg₂ (fun v w => [_, v, w]) hwhole hended

/-- However the reads cut what a descent writes, the verdicts are undecided up to some read and the outcome's from there
on, unless a call is made on what passes the limit ahead of a missing directory's word: that call is refused. No read is
such a one where the report fits within the limit. -/
theorem settleDescent_settles (e : InDaemonExecutor) (transport : Bytes) (outcome : DescentOutcome)
    (h : Clear transport outcome) :
    (∀ read ended, read <+: transport ++ outcome.text → (ended = true → read = transport ++ outcome.text) →
      e.settleDescent read ended =
        if Hidden transport outcome read then .refused (elevationRefusal (read.take TRANSPORT_STDERR_LIMIT) none e.host)
        else if Decided transport outcome read ended then outcome.verdict e transport
        else .pending) ∧
    (∀ pieces, pieces.flatten = transport ++ outcome.text → NeverHidden transport outcome [] pieces →
      ∃ waiting n, e.settleCalls [] pieces =
        List.replicate waiting .pending ++ List.replicate (n + 1) (outcome.verdict e transport)) ∧
    (transport.length + NO_WORKING_DIRECTORY_MARKER.length ≤ TRANSPORT_STDERR_LIMIT + 1 →
      ∀ pieces, NeverHidden transport outcome [] pieces) := by
  refine ⟨fun read ended hread hended => settleDescent_call h hread hended, fun pieces hpieces hshown => ?_, ?_⟩
  · exact settleCalls_settles h hpieces hshown
  · intro hfits pieces n hhidden
    have := hhidden.lt
    omega

theorem clear_noted : Clear (asBytes "note\n") .noWorkingDirectory := by
  have hsentinel : first SUDO_OK_SENTINEL (asBytes "note\n" ++ DescentOutcome.noWorkingDirectory.text) = none := by
    decide +kernel
  have hmarker : first NO_WORKING_DIRECTORY_MARKER (asBytes "note\n" ++ DescentOutcome.noWorkingDirectory.text) =
      some 5 := by decide +kernel
  intro word hword pos hpos
  rcases List.mem_pair.mp hword with rfl | rfl
  · cases hsentinel.symm.trans hpos
  · rw [← Option.some.inj (hmarker.symm.trans hpos)]
    decide

theorem settleDescent_settles_noted : ∃ waiting n, InDaemonExecutor.settleCalls ⟨"mgmt"⟩ []
    [asBytes "not", asBytes "e\n__BOOTLER_NO_WORKING", asBytes "_DIRECTORY__"] =
      List.replicate waiting .pending ++ List.replicate (n + 1) (.noWorkingDirectory (lossyTrim (asBytes "note\n"))) := by
  have hsettles := settleDescent_settles ⟨"mgmt"⟩ (asBytes "note\n") .noWorkingDirectory clear_noted
  exact hsettles.2.1 _ (by decide) (hsettles.2.2 (by decide) _)

theorem clear_replicate (n : Nat) : Clear (List.replicate n 120) .noWorkingDirectory := by
  intro word hword pos hpos
  by_contra hlt
  obtain ⟨before, after, heq, rfl⟩ := first_eq_some hpos
  have hhead : ∃ rest, word = 95 :: rest := by
    rcases List.mem_pair.mp hword with rfl | rfl
    · exact ⟨_, rfl⟩
    · exact ⟨_, rfl⟩
  obtain ⟨rest, rfl⟩ := hhead
  have hget := congrArg (fun stream => stream[before.length]?) heq
  simp only [List.append_assoc, List.cons_append] at hget
  rw [List.getElem?_append_left (Nat.not_le.mp hlt), List.getElem?_append_right le_rfl, Nat.sub_self] at hget
  rw [List.getElem?_eq_getElem (Nat.not_le.mp hlt), List.getElem_replicate] at hget
  cases hget

/-- What is refused after one read is a missing directory after the next. -/
theorem settleDescent_hidden : ∃ (e : InDaemonExecutor) (transport : Bytes) (pieces : List Bytes),
    Clear transport .noWorkingDirectory ∧ pieces.flatten = transport ++ DescentOutcome.noWorkingDirectory.text ∧
    ∃ err reason, e.settleCalls [] pieces = [.refused err, .noWorkingDirectory reason, .noWorkingDirectory reason] := by
  have hclear := clear_replicate (TRANSPORT_STDERR_LIMIT + 1)
  have hover : Overran (List.replicate (TRANSPORT_STDERR_LIMIT + 1) 120) := by
    rw [Overran, partialSuffix_replicate, List.length_replicate]
    exact Nat.lt_succ_self _
  refine ⟨⟨"mgmt"⟩, _, [_, NO_WORKING_DIRECTORY_MARKER], hclear, ?_, _, _, settleCalls_hidden hclear hover⟩
  rw [List.flatten_cons, List.flatten_cons, List.flatten_nil, List.append_nil]
  rfl

end

end DeployCore
