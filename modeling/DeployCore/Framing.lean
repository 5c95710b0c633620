import DeployCore.Announcement
import DeployCore.RemoteVerdict
import DeployCore.Elevation

/-! # Whose a supervised run's standard error is (`src/executor/bounded.rs`)

The supervisor prints the sentinel before the command and may print its timeout marker after it, and the SSH wrapper
prints the exit-status line last. What has been read so far is split anew after each read: the transport's, the command's
own, and what may still turn out to be framing. -/

namespace DeployCore
open Occurs

/-- What the invocation writes on standard error around the command's bytes. -/
structure Framing where
  timeoutMarker : Option Bytes
  remoteCode : Bool

inductive Attributed
  | transport (length : Nat)
  | command (own pending : Nat)
  deriving DecidableEq

def Framing.direct : Framing := ⟨none, false⟩

/-- The digits in the largest exit status a shell reports. -/
def MAX_DIGITS : Nat := 3

def isStatusDigit (byte : UInt8) : Bool := 48 ≤ byte.toNat && byte.toNat ≤ 57

/-- Whether a text is the beginning of an exit-status line. -/
def isRemoteCodePrefix (tail : Bytes) (maxDigits : Nat) : Bool :=
  match tail with
  | [] => false
  | first :: rest =>
    if first ≠ 10 then false
    else if rest.length ≤ RC_MARKER.length then decide (rest <+: RC_MARKER)
    else if ¬ RC_MARKER <+: rest then false
    else
      let code := rest.drop RC_MARKER.length
      let digits := if code.getLast? = some 10 then code.dropLast else code
      !digits.isEmpty && decide (digits.length ≤ maxDigits) && digits.all isStatusDigit &&
        (digits.length == code.length || digits.length + 1 == code.length)

/-- How many of the last bytes are, or may grow into, the wrapper's exit-status line. -/
def remoteCodeSuffix (bytes : Bytes) : Nat :=
  Nat.findGreatest (fun len => isRemoteCodePrefix (bytes.drop (bytes.length - len)) MAX_DIGITS = true)
    (min bytes.length (1 + RC_MARKER.length + MAX_DIGITS + 1))

def Framing.attribute (f : Framing) (stderr : Bytes) : Attributed :=
  match f.timeoutMarker with
  | none => .command stderr.length 0
  | some marker =>
    match first SUDO_OK_SENTINEL stderr with
    | none => .transport stderr.length
    | some pos =>
      let tail := stderr.drop (pos + SUDO_OK_SENTINEL.length)
      let seen := (first marker tail).isSome
      let framing := if seen then marker.length else 0
      let pending := if seen then 0 else partialSuffix tail marker
      let pending := if f.remoteCode then max pending (remoteCodeSuffix tail) else pending
      .command (tail.length - (framing + pending)) pending

/-! ### The beginning of an exit-status line -/

section Line
variable {tail rest line bytes before : Bytes}

/-- An exit-status line of at most three digits. -/
def IsStatusLine (line : Bytes) : Prop :=
  ∃ digits : Bytes, digits ≠ [] ∧ digits.length ≤ MAX_DIGITS ∧ (∀ byte ∈ digits, isStatusDigit byte = true) ∧
    line = 10 :: (RC_MARKER ++ (digits ++ [10]))

theorem isStatusLine_statusLine {code : Nat} (h : code ≤ 255) : IsStatusLine (statusLine code) := by
  refine ⟨Decimal.write code, Decimal.write_ne_nil, ?_, ?_, ?_⟩
  · exact (Decimal.length_write_le_iff (by decide)).mpr (by rw [MAX_DIGITS]; omega)
  · intro byte hbyte
    have := Decimal.mem_write hbyte
    simp [isStatusDigit, this]
  · simp [statusLine]

theorem IsStatusLine.length_le (h : IsStatusLine line) : line.length ≤ 1 + RC_MARKER.length + MAX_DIGITS + 1 := by
  obtain ⟨digits, -, hshort, -, rfl⟩ := h
  simp only [List.length_cons, List.length_append, List.length_nil]
  omega

theorem notMem_digits {digits : Bytes} (h : ∀ byte ∈ digits, isStatusDigit byte = true) : (10 : UInt8) ∉ digits := by
  intro hmem
  exact absurd (h 10 hmem) (by decide)

/-- The only newlines of a line are its first byte and its last. -/
theorem IsStatusLine.body (h : IsStatusLine line) : ∃ body, line = 10 :: (body ++ [10]) ∧ (10 : UInt8) ∉ body ∧ body ≠ [] := by
  obtain ⟨digits, hne, -, hdigits, rfl⟩ := h
  refine ⟨RC_MARKER ++ digits, by simp, ?_, by simp [hne]⟩
  rw [List.mem_append, not_or]
  exact ⟨notMem_rc_marker, notMem_digits hdigits⟩

theorem isRemoteCodePrefix_of_prefix (hline : IsStatusLine line) (hne : tail ≠ []) (h : tail <+: line) :
    isRemoteCodePrefix tail MAX_DIGITS = true := by
  obtain ⟨digits, hdigits, hshort, hall, rfl⟩ := hline
  rcases tail with _ | ⟨byte, rest⟩
  · exact absurd rfl hne
  obtain ⟨rfl, hrest⟩ := List.cons_prefix_cons.mp h
  unfold isRemoteCodePrefix
  by_cases hlong : rest.length ≤ RC_MARKER.length
  · have hfront := List.prefix_of_prefix_length_le hrest (List.prefix_append _ _) hlong
    simp [hlong, hfront]
  · have hmarker : RC_MARKER <+: rest :=
      List.prefix_of_prefix_length_le (List.prefix_append _ _) hrest (Nat.le_of_not_le hlong)
    obtain ⟨code, rfl⟩ := hmarker
    have hcode : code <+: digits ++ [10] := (List.prefix_append_right_inj _).mp hrest
    have hnil : code ≠ [] := by
      rintro rfl
      simp at hlong
    rcases List.prefix_concat_iff.mp hcode with rfl | hcode
    · simp [hdigits, hshort, List.all_eq_true.mpr hall]
    · have hlast : code.getLast? ≠ some 10 := by
        intro heq
        exact notMem_digits hall (hcode.subset (List.mem_of_getLast? heq))
      have hwithin : code.all isStatusDigit = true := List.all_eq_true.mpr fun byte hbyte => hall byte (hcode.subset hbyte)
      have hcount : code.length ≤ MAX_DIGITS := hcode.length_le.trans hshort
      simp [hlast, hnil, hwithin, hcount]

theorem isRemoteCodePrefix_prefix (h : isRemoteCodePrefix tail MAX_DIGITS = true) :
    tail ≠ [] ∧ ∃ line, IsStatusLine line ∧ tail <+: line := by
  unfold isRemoteCodePrefix at h
  rcases tail with _ | ⟨byte, rest⟩
  · cases h
  refine ⟨List.cons_ne_nil _ _, ?_⟩
  by_cases hbyte : byte = 10
  · subst hbyte
    by_cases hlong : rest.length ≤ RC_MARKER.length
    · have hrest : rest <+: RC_MARKER := by simpa [hlong] using h
      have hzero : ∀ byte ∈ [(48 : UInt8)], isStatusDigit byte = true := List.forall_mem_singleton.mpr rfl
      have hline : IsStatusLine (10 :: (RC_MARKER ++ ([48] ++ [10]))) := ⟨[48], List.cons_ne_nil _ _, by decide, hzero, rfl⟩
      refine ⟨_, hline, ?_⟩
      exact List.cons_prefix_cons.mpr ⟨rfl, hrest.trans (List.prefix_append _ _)⟩
    · by_cases hmarker : RC_MARKER <+: rest
      · obtain ⟨code, rfl⟩ := hmarker
        have hlong' : ¬ (RC_MARKER ++ code).length ≤ RC_MARKER.length := hlong
        simp only [ne_eq, not_true_eq_false, if_false, if_neg hlong', List.prefix_append, List.drop_left, Bool.and_eq_true,
          Bool.not_eq_true', decide_eq_true_eq, List.all_eq_true] at h
        obtain ⟨⟨⟨hne, hshort⟩, hall⟩, -⟩ := h
        refine ⟨_, ⟨_, by simpa using hne, hshort, hall, rfl⟩, ?_⟩
        refine List.cons_prefix_cons.mpr ⟨rfl, (List.prefix_append_right_inj _).mpr ?_⟩
        split
        · next hlast =>
          rw [List.dropLast_append_getLast? 10 hlast]
        · exact List.prefix_append _ _
      · simp [hlong, hmarker] at h
  · simp [hbyte] at h

theorem remoteCodeSuffix_le : remoteCodeSuffix bytes ≤ min bytes.length (1 + RC_MARKER.length + MAX_DIGITS + 1) :=
  Nat.findGreatest_le _

/-- What the bytes end with that may be a line's beginning is counted. -/
theorem le_remoteCodeSuffix (hline : IsStatusLine line) (h : tail <+: line) : tail.length ≤ remoteCodeSuffix (before ++ tail) := by
  rcases List.eq_nil_or_concat tail with hnil | ⟨front, last, hconcat⟩
  · rw [hnil]
    exact Nat.zero_le _
  · have hne : tail ≠ [] := by
      rw [hconcat, List.concat_eq_append]
      simp
    refine Nat.le_findGreatest (le_min (by simp) (h.length_le.trans hline.length_le)) ?_
    rw [List.length_append, Nat.add_sub_cancel, List.drop_left]
    exact isRemoteCodePrefix_of_prefix hline hne h

theorem remoteCodeSuffix_spec (h : remoteCodeSuffix bytes ≠ 0) :
    ∃ line, IsStatusLine line ∧ bytes.drop (bytes.length - remoteCodeSuffix bytes) <+: line := by
  obtain ⟨-, hline⟩ := isRemoteCodePrefix_prefix (Nat.findGreatest_of_ne_zero (m := remoteCodeSuffix bytes) rfl h)
  exact hline

/-- A whole line at the end is all that is counted. -/
theorem remoteCodeSuffix_line (hline : IsStatusLine line) : remoteCodeSuffix (before ++ line) = line.length := by
  refine Nat.le_antisymm ?_ (le_remoteCodeSuffix hline List.prefix_rfl)
  by_contra hlt
  have hne : remoteCodeSuffix (before ++ line) ≠ 0 := by omega
  obtain ⟨line', hline', hbegins⟩ := remoteCodeSuffix_spec hne
  have hle := (@remoteCodeSuffix_le (before ++ line)).trans (min_le_left _ _)
  rw [List.length_append] at hle
  obtain ⟨body, rfl, -, hbody⟩ := hline.body
  obtain ⟨body', rfl, hnotMem, -⟩ := hline'.body
  rw [List.length_append, List.drop_append_of_le_length (by omega)] at hbegins
  have hahead : before.drop (before.length + (10 :: (body ++ [10])).length -
      remoteCodeSuffix (before ++ 10 :: (body ++ [10]))) ≠ [] := by
    rw [ne_eq, List.drop_eq_nil_iff]
    omega
  obtain ⟨byte, ahead, hcons⟩ := List.exists_cons_of_ne_nil hahead
  rw [hcons, List.cons_append] at hbegins
  obtain ⟨-, hrest⟩ := List.cons_prefix_cons.mp hbegins
  -- the second newline of what would be counted lies inside the line it would begin
  have hinside : ahead ++ [10] <+: body' := by
    have hfront : ahead ++ [10] <+: ahead ++ 10 :: (body ++ [10]) := ⟨body ++ [10], by simp⟩
    have hlength := hrest.length_le
    refine List.prefix_of_prefix_length_le (hfront.trans hrest) (List.prefix_append _ _) ?_
    have hpos := List.length_pos_of_ne_nil hbody
    simp only [List.length_append, List.length_cons, List.length_nil] at hlength ⊢
    omega
  exact hnotMem (hinside.subset (by simp))

end Line

/-! ### A supervised run's stream -/

/-- What a supervised run's standard error is made of. -/
structure SupervisedStderr where
  transport : Bytes
  own : Bytes
  timedOut : Bool
  code : Option Nat

namespace SupervisedStderr

/-- The framing behind the command's bytes. -/
def ending (r : SupervisedStderr) (marker : Bytes) : Bytes :=
  (if r.timedOut then marker else []) ++ r.code.elim [] statusLine

def stream (r : SupervisedStderr) (marker : Bytes) : Bytes :=
  r.transport ++ SUDO_OK_SENTINEL ++ (r.own ++ r.ending marker)

/-- The sentinel is the first, and an exit-status line is SSH's. -/
structure Framed (r : SupervisedStderr) (remoteCode : Bool) : Prop where
  first : first SUDO_OK_SENTINEL (r.transport ++ SUDO_OK_SENTINEL) = some r.transport.length
  code : ∀ code ∈ r.code, code ≤ 255 ∧ remoteCode = true

end SupervisedStderr

/-- A word no exit-status line holds any of whose bytes begin a line. -/
structure Marks (marker : Bytes) : Prop where
  newline : (10 : UInt8) ∉ marker
  long : 1 + RC_MARKER.length + MAX_DIGITS + 1 < marker.length

theorem timeoutMarker_marks (nonce : Vector UInt8 16) : Marks (timeoutMarker nonce) := by
  have hfixed : (10 : UInt8) ∉ asBytes "__BOOTLER_TIMEOUT_" ∧ (10 : UInt8) ∉ asBytes "__" ∧
      (asBytes "__BOOTLER_TIMEOUT_").length = 18 ∧ RC_MARKER.length = 15 := by decide +kernel
  obtain ⟨hbegins, hends, hlength, hmarker⟩ := hfixed
  constructor
  · intro h
    rw [timeoutMarker, List.mem_append, List.mem_append] at h
    rcases h with (h | h) | h
    · exact hbegins h
    · exact absurd (mem_hexOf h) (by decide)
    · exact hends h
  · rw [timeoutMarker, List.length_append, List.length_append, length_hexOf, hlength, hmarker, MAX_DIGITS,
      Vector.length_toList]
    omega

/-! ### What is attributed -/

section Attribution
variable {f : Framing} {r : SupervisedStderr} {marker read tail own bytes line : Bytes} {remote : Bool} {pos : Nat}

/-- How much of what follows the sentinel is a timeout marker seen whole. -/
def seenFraming (marker tail : Bytes) : Nat := if (first marker tail).isSome then marker.length else 0

/-- How much of it is left pending. -/
def pendingFraming (remote : Bool) (marker tail : Bytes) : Nat :=
  let arriving := if (first marker tail).isSome then 0 else partialSuffix tail marker
  if remote then max arriving (remoteCodeSuffix tail) else arriving

theorem attribute_transport (h : first SUDO_OK_SENTINEL read = none) :
    (Framing.mk (some marker) remote).attribute read = .transport read.length := by
  simp only [Framing.attribute, h]

theorem attribute_command (h : first SUDO_OK_SENTINEL read = some pos) (htail : read.drop (pos + SUDO_OK_SENTINEL.length) = tail) :
    (Framing.mk (some marker) remote).attribute read =
      .command (tail.length - (seenFraming marker tail + pendingFraming remote marker tail))
        (pendingFraming remote marker tail) := by
  simp only [Framing.attribute, h, htail]
  rfl

theorem Marks.ne_nil (h : Marks marker) : marker ≠ [] := by
  rintro rfl
  exact absurd h.long (Nat.not_lt_zero _)

theorem seenFraming_of_holds (h : Marks marker) (hholds : marker <:+: tail) : seenFraming marker tail = marker.length := by
  have hsome : (first marker tail).isSome = true := by
    rw [Option.isSome_iff_ne_none, ne_eq, first_eq_none h.ne_nil, not_not]
    exact hholds
  rw [seenFraming, if_pos hsome]

theorem le_pendingFraming_line (hline : IsStatusLine line) (h : bytes <+: line) :
    bytes.length ≤ pendingFraming true marker (own ++ bytes) := by
  simp only [pendingFraming, if_true]
  exact (le_remoteCodeSuffix hline h).trans (le_max_right _ _)

/-- A marker still arriving is left pending, unless one has been seen. -/
theorem le_pendingFraming_marker (h : bytes <+: marker) (hlt : bytes.length < marker.length) :
    bytes.length ≤ seenFraming marker (own ++ bytes) + pendingFraming remote marker (own ++ bytes) := by
  by_cases hseen : (first marker (own ++ bytes)).isSome = true
  · rw [seenFraming, if_pos hseen]
    omega
  · have hpartial : bytes.length ≤ partialSuffix (own ++ bytes) marker := by
      refine Nat.le_findGreatest (le_min (by simp) (by omega)) ?_
      rw [← List.prefix_iff_eq_take.mp h]
      exact List.suffix_append _ _
    have hpending : partialSuffix (own ++ bytes) marker ≤ pendingFraming remote marker (own ++ bytes) := by
      simp only [pendingFraming, if_neg hseen]
      split
      · exact le_max_left _ _
      · exact le_rfl
    omega

/-- What follows the command's bytes is seen or pending, however little of it has been read. -/
theorem framing_covers (hmarks : Marks marker) (hframed : r.Framed remote) (h : bytes <+: r.ending marker) :
    bytes.length ≤ seenFraming marker (own ++ bytes) + pendingFraming remote marker (own ++ bytes) := by
  have hline {bytes own : Bytes} (h : bytes <+: r.code.elim [] statusLine) :
      bytes.length ≤ pendingFraming remote marker (own ++ bytes) := by
    rcases hcode : r.code with _ | code
    · rw [hcode] at h
      rw [List.eq_nil_of_prefix_nil h]
      exact Nat.zero_le _
    · obtain ⟨hcode255, rfl⟩ := hframed.code code hcode
      rw [hcode] at h
      exact le_pendingFraming_line (isStatusLine_statusLine hcode255) h
  unfold SupervisedStderr.ending at h
  by_cases htimedOut : r.timedOut = true
  · rw [if_pos htimedOut] at h
    by_cases hlt : bytes.length < marker.length
    · exact le_pendingFraming_marker (List.prefix_of_prefix_length_le h (List.prefix_append _ _) (Nat.le_of_lt hlt)) hlt
    · obtain ⟨rest, rfl⟩ := List.prefix_of_prefix_length_le (List.prefix_append _ _) h (Nat.not_lt.mp hlt)
      have hinfix : marker <:+: own ++ (marker ++ rest) := ⟨own, rest, by simp⟩
      have hrest := @hline rest (own ++ marker) ((List.prefix_append_right_inj _).mp h)
      rw [List.append_assoc] at hrest
      rw [seenFraming_of_holds hmarks hinfix, List.length_append]
      omega
  · rw [if_neg htimedOut, List.nil_append] at h
    exact (hline h).trans (Nat.le_add_left _ _)

/-- What is pending behind a marker begins behind it: the marker is longer than any line, and has no newline. -/
theorem remoteCodeSuffix_behind {before after : Bytes} (hmarks : Marks marker) :
    remoteCodeSuffix (before ++ marker ++ after) ≤ after.length := by
  by_contra hlt
  have hne : remoteCodeSuffix (before ++ marker ++ after) ≠ 0 := by omega
  obtain ⟨line, hline, hbegins⟩ := remoteCodeSuffix_spec hne
  have hshort := (@remoteCodeSuffix_le (before ++ marker ++ after)).trans (min_le_right _ _)
  have hlong := hmarks.long
  generalize remoteCodeSuffix (before ++ marker ++ after) = k at hne hbegins hshort hlt
  obtain ⟨body, rfl, -, -⟩ := hline.body
  simp only [List.length_append] at hbegins
  have hahead : before.length ≤ before.length + marker.length + after.length - k := by omega
  rw [List.append_assoc, List.drop_append, List.drop_eq_nil_of_le hahead, List.nil_append,
    List.drop_append_of_le_length (by omega)] at hbegins
  have hinside : marker.drop (before.length + marker.length + after.length - k - before.length) ≠ [] := by
    rw [ne_eq, List.drop_eq_nil_iff]
    omega
  obtain ⟨byte, inside, hcons⟩ := List.exists_cons_of_ne_nil hinside
  rw [hcons, List.cons_append] at hbegins
  obtain ⟨rfl, -⟩ := List.cons_prefix_cons.mp hbegins
  exact hmarks.newline (List.mem_of_mem_drop (hcons ▸ List.mem_cons_self ..))

/-- A marker seen whole and what is pending behind it do not overlap. -/
theorem framing_le (hmarks : Marks marker) : seenFraming marker tail + pendingFraming remote marker tail ≤ tail.length := by
  rcases hfirst : first marker tail with _ | pos
  · have hsuffix := (@remoteCodeSuffix_le tail).trans (min_le_left _ _)
    have hpartial := (@partialSuffix_le _ _ marker tail).trans (min_le_left _ _)
    simp only [seenFraming, pendingFraming, hfirst, Option.isSome_none, Bool.false_eq_true, if_false]
    split <;> omega
  · obtain ⟨before, after, rfl, rfl⟩ := first_eq_some hfirst
    have hbehind := @remoteCodeSuffix_behind _ before after hmarks
    simp only [seenFraming, pendingFraming, hfirst, Option.isSome_some, if_true, Nat.zero_max, List.length_append]
    split <;> omega

/-- Of what has been read, no more is taken for the command's own than it has written, and all but a marker seen whole is
its own or pending. -/
theorem attribute_stream (hmarks : Marks marker) (hframed : r.Framed remote) (hread : read <+: r.stream marker) :
    (read.length < r.transport.length + SUDO_OK_SENTINEL.length →
      (Framing.mk (some marker) remote).attribute read = .transport read.length) ∧
    (r.transport.length + SUDO_OK_SENTINEL.length ≤ read.length → ∃ own pending,
      (Framing.mk (some marker) remote).attribute read = .command own pending ∧
      own ≤ min (read.length - (r.transport.length + SUDO_OK_SENTINEL.length)) r.own.length ∧
      own + pending + seenFraming marker (read.drop (r.transport.length + SUDO_OK_SENTINEL.length)) =
        read.length - (r.transport.length + SUDO_OK_SENTINEL.length)) := by
  have hfirst : first SUDO_OK_SENTINEL (r.stream marker) = some r.transport.length := first_append hframed.first
  constructor
  · intro hshort
    exact attribute_transport (first_eq_none_of_short hfirst hread hshort)
  · intro hlong
    have htail : read.drop (r.transport.length + SUDO_OK_SENTINEL.length) <+: r.own ++ r.ending marker := by
      have hdrop := hread.drop (r.transport.length + SUDO_OK_SENTINEL.length)
      rw [SupervisedStderr.stream, ← List.length_append, List.drop_left] at hdrop
      rwa [List.length_append] at hdrop
    have hattributed := @attribute_command marker read _ remote _ (first_within hfirst hread hlong sentinel_ne_nil) rfl
    have hlength := List.length_drop (i := r.transport.length + SUDO_OK_SENTINEL.length) (l := read)
    generalize read.drop (r.transport.length + SUDO_OK_SENTINEL.length) = tail at htail hattributed hlength
    have hwithin := @framing_le marker tail remote hmarks
    refine ⟨_, _, hattributed, ?_, by omega⟩
    rw [← hlength]
    rcases Nat.le_total tail.length r.own.length with hshort | hreached
    · omega
    · obtain ⟨bytes, rfl⟩ := List.prefix_of_prefix_length_le (List.prefix_append _ _) htail hreached
      have hbytes := (List.prefix_append_right_inj _).mp htail
      have hcovers := @framing_covers r marker r.own bytes remote hmarks hframed hbytes
      rw [List.length_append] at hwithin ⊢
      omega

/-- Where the stream ends on framing, all of the command's bytes are its own. -/
theorem attribute_whole (hmarks : Marks marker) (hframed : r.Framed remote)
    (hclear : ∀ pos, first marker (r.own ++ r.ending marker) = some pos → r.own.length ≤ pos)
    (hends : r.timedOut = true ∨ r.code ≠ none) : ∃ pending,
    (Framing.mk (some marker) remote).attribute (r.stream marker) = .command r.own.length pending := by
  have hfirst : first SUDO_OK_SENTINEL (r.stream marker) = some r.transport.length := first_append hframed.first
  have htail : (r.stream marker).drop (r.transport.length + SUDO_OK_SENTINEL.length) = r.own ++ r.ending marker := by
    rw [SupervisedStderr.stream, ← List.length_append, List.drop_left]
  refine ⟨pendingFraming remote marker (r.own ++ r.ending marker), ?_⟩
  rw [attribute_command hfirst htail]
  congr 1
  suffices hexact : seenFraming marker (r.own ++ r.ending marker) + pendingFraming remote marker (r.own ++ r.ending marker) =
      (r.ending marker).length by
    rw [hexact, List.length_append, Nat.add_sub_cancel]
  have hcovers := @framing_covers r marker r.own (r.ending marker) remote hmarks hframed List.prefix_rfl
  refine Nat.le_antisymm ?_ hcovers
  by_cases htimedOut : r.timedOut = true
  · have hending : r.ending marker = marker ++ r.code.elim [] statusLine := by
      rw [SupervisedStderr.ending, if_pos htimedOut]
    rw [hending, ← List.append_assoc]
    have hinfix : marker <:+: r.own ++ marker ++ r.code.elim [] statusLine := ⟨_, _, rfl⟩
    have hbehind := @remoteCodeSuffix_behind _ r.own (r.code.elim [] statusLine) hmarks
    have hsome : (first marker (r.own ++ marker ++ r.code.elim [] statusLine)).isSome = true := by
      rw [Option.isSome_iff_ne_none, ne_eq, first_eq_none hmarks.ne_nil, not_not]
      exact hinfix
    simp only [seenFraming, pendingFraming, if_pos hsome, Nat.zero_max, List.length_append]
    split <;> omega
  · obtain ⟨code, hcode⟩ := Option.ne_none_iff_exists'.mp (hends.resolve_left htimedOut)
    have hending : r.ending marker = statusLine code := by
      rw [SupervisedStderr.ending, if_neg htimedOut, List.nil_append, hcode]
      rfl
    rw [hending] at hclear ⊢
    have hline := isStatusLine_statusLine (hframed.code code hcode).1
    have hnone : first marker (r.own ++ statusLine code) = none := by
      rcases hmarker : first marker (r.own ++ statusLine code) with _ | pos
      · rfl
      · have hle := hclear pos hmarker
        obtain ⟨before, after, heq, rfl⟩ := first_eq_some hmarker
        have hlength := congrArg List.length heq
        simp only [List.length_append] at hlength
        have hshort := hline.length_le
        have hlong := hmarks.long
        omega
    have hpartial : partialSuffix (r.own ++ statusLine code) marker = 0 := by
      by_contra hpos
      obtain ⟨body, hbody, -, -⟩ := hline.body
      have hsuffix := @partialSuffix_suffix _ _ marker (r.own ++ statusLine code)
      have hlast : (r.own ++ statusLine code).getLast? = some 10 := by
        rw [hbody, ← List.cons_append, ← List.append_assoc, List.getLast?_concat]
      have hle := (@partialSuffix_le _ _ marker (r.own ++ statusLine code)).trans (min_le_right _ _)
      obtain ⟨before, hbefore⟩ := hsuffix
      rw [← hbefore, List.getLast?_append_of_ne_nil] at hlast
      · exact hmarks.newline (List.mem_of_mem_take (List.mem_of_getLast? hlast))
      · rw [ne_eq, List.take_eq_nil_iff, not_or]
        exact ⟨hpos, hmarks.ne_nil⟩
    simp only [seenFraming, pendingFraming, hnone, Option.isSome_none, Bool.false_eq_true, if_false, hpartial, Nat.zero_max,
      remoteCodeSuffix_line hline, Nat.zero_add]
    split
    · exact le_rfl
    · exact Nat.zero_le _

end Attribution

end DeployCore
