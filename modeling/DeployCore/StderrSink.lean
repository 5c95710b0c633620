import DeployCore.ElevationVerdict

/-! # What a channel keeps of its standard error (`src/executor/channel.rs`)

The pieces of a stream go into a sink that holds back its end until the stream ends. What comes out is what one reading of
the whole stream gives: the command's bytes up to their limit, and the code of the exit-status line at the very end. -/

namespace DeployCore

/-- What a stream leaves the command, where the end held back is read for an exit-status line. -/
def ownStderr (hold : Nat) (stream : Bytes) : Bytes :=
  let before := stream.length - hold
  match splitStatusLine (stream.drop before) with
  | some (cut, _) => stream.take (before + cut)
  | none => stream

/-- The stream ends on an exit-status line: the command's bytes, a newline where there is one, the marker, digits, and
a newline. -/
structure EndsOnLine (stream own newline text : Bytes) (code : Int) : Prop where
  stream : stream = own ++ newline ++ RC_MARKER ++ text ++ [10]
  newline : newline = [10] ∨ newline = [] ∧ own.getLast? ≠ some 10
  digits : ∀ byte ∈ text, 48 ≤ byte.toNat ∧ byte.toNat ≤ 57
  code : parseI32 text = some code

section Lines
variable {stream a b own newline text : Bytes} {code : Int} {cut : Nat}

/-- Where the digits of the line begin, and the marker that is the last. -/
theorem EndsOnLine.last (h : EndsOnLine stream own newline text code) :
    Occurs.last RC_MARKER (own ++ newline ++ RC_MARKER ++ text) = some (own.length + newline.length) := by
  have hlast := last_rc_marker h.code (.inl rfl) rc_marker_bytes.2.2.2.2.1
  rw [List.append_nil] at hlast
  have hbehind := Occurs.last_append (a := own ++ newline) hlast
  rw [List.length_append, Nat.add_zero] at hbehind
  rw [List.append_assoc (own ++ newline)]
  exact hbehind

theorem EndsOnLine.text_ne_nil (h : EndsOnLine stream own newline text code) : text ≠ [] := by
  rintro rfl
  cases h.code

/-- The byte ahead of the marker is a newline exactly where the line has one, and it is cut off with it. -/
theorem EndsOnLine.cut_eq (h : EndsOnLine stream own newline text code) {rest : Bytes} :
    (if 0 < own.length + newline.length ∧ (own ++ newline ++ rest)[own.length + newline.length - 1]? = some 10
      then own.length + newline.length - 1 else own.length + newline.length) = own.length := by
  rcases h.newline with rfl | ⟨rfl, hown⟩
  · rw [if_pos]
    · rfl
    · simp
  · rw [if_neg]
    · rfl
    · rintro ⟨hpos, hbyte⟩
      refine hown ?_
      rw [List.length_nil, Nat.add_zero] at hpos hbyte
      rw [List.append_nil, List.getElem?_append_left (by omega)] at hbyte
      rw [List.getLast?_eq_getElem?]
      exact hbyte

theorem splitStatusLine_of_line (h : EndsOnLine stream own newline text code) :
    splitStatusLine stream = some (own.length, code) := by
  have hdigits : (own ++ newline ++ RC_MARKER ++ text).drop (own.length + newline.length + RC_MARKER.length) = text := by
    rw [← List.length_append, ← List.length_append, List.drop_left]
  have hcut := @EndsOnLine.cut_eq _ _ _ _ _ h (RC_MARKER ++ text)
  rw [← List.append_assoc] at hcut
  rw [h.stream]
  simp only [splitStatusLine, List.getLast?_concat, List.dropLast_concat, h.last, guard, if_true, Option.pure_def,
    Option.bind_eq_bind, Option.bind_some, hdigits, if_pos (And.intro h.text_ne_nil h.digits), h.code, hcut]

theorem line_of_splitStatusLine (h : splitStatusLine stream = some (cut, code)) :
    ∃ own newline text, EndsOnLine stream own newline text code ∧ cut = own.length := by
  obtain ⟨⟨⟩, hguard, h'⟩ := Option.bind_eq_some_iff.mp h
  obtain ⟨pos, hpos, h'⟩ := Option.bind_eq_some_iff.mp h'
  obtain ⟨⟨⟩, hdigits, h'⟩ := Option.bind_eq_some_iff.mp h'
  obtain ⟨c, hc, h'⟩ := Option.bind_eq_some_iff.mp h'
  obtain ⟨-, rfl⟩ := Prod.mk.inj (Option.some.inj h')
  obtain ⟨before, text, hbody, rfl⟩ := Occurs.last_eq_some hpos
  have hlast : stream.getLast? = some 10 := by
    by_contra hne
    simp [guard, hne] at hguard
  have hdrop : stream.dropLast.drop (before.length + RC_MARKER.length) = text := by
    rw [hbody, ← List.length_append, List.drop_left]
  rw [hdrop] at hc hdigits
  have hall : ∀ byte ∈ text, 48 ≤ byte.toNat ∧ byte.toNat ≤ 57 := by
    by_contra hne
    simp [guard, hne] at hdigits
  have hstream : stream = before ++ RC_MARKER ++ text ++ [10] := by
    rw [← hbody]
    exact (List.dropLast_append_getLast? 10 hlast).symm
  have hline : ∃ own newline, EndsOnLine stream own newline text c := by
    rcases List.eq_nil_or_concat before with rfl | ⟨own, byte, rfl⟩
    · exact ⟨[], [], hstream, .inr ⟨rfl, fun h => (by cases h)⟩, hall, hc⟩
    · by_cases hbyte : byte = 10
      · subst hbyte
        exact ⟨own, [10], by simpa using hstream, .inl rfl, hall, hc⟩
      · refine ⟨own ++ [byte], [], by simpa using hstream, .inr ⟨rfl, ?_⟩, hall, hc⟩
        rw [List.getLast?_concat]
        intro heq
        exact hbyte (Option.some.inj heq)
  obtain ⟨own, newline, hline⟩ := hline
  have hcut := (splitStatusLine_of_line hline).symm.trans h
  exact ⟨own, newline, text, hline, (Prod.mk.inj (Option.some.inj hcut)).1.symm⟩

/-- The line at the end of a text is at the end of a longer one; the newline ahead of it may be what was added. -/
theorem EndsOnLine.append (h : EndsOnLine b own newline text code) :
    ∃ own' newline', EndsOnLine (a ++ b) own' newline' text code := by
  obtain ⟨rfl, hnewline, hdigits, hcode⟩ := h
  rcases hnewline with rfl | ⟨rfl, hown⟩
  · exact ⟨a ++ own, [10], by simp, .inl rfl, hdigits, hcode⟩
  · rcases List.eq_nil_or_concat own with rfl | ⟨own, byte, rfl⟩
    · rcases List.eq_nil_or_concat a with rfl | ⟨a, byte, rfl⟩
      · exact ⟨[], [], by simp, .inr ⟨rfl, hown⟩, hdigits, hcode⟩
      · by_cases hbyte : byte = 10
        · subst hbyte
          exact ⟨a, [10], by simp, .inl rfl, hdigits, hcode⟩
        · refine ⟨a ++ [byte], [], by simp, .inr ⟨rfl, ?_⟩, hdigits, hcode⟩
          rw [List.getLast?_concat]
          intro heq
          exact hbyte (Option.some.inj heq)
    · refine ⟨a ++ (own ++ [byte]), [], by simp, .inr ⟨rfl, ?_⟩, hdigits, hcode⟩
      rw [← List.append_assoc, List.getLast?_concat]
      rw [List.concat_eq_append, List.getLast?_concat] at hown
      exact hown

/-- A line that fits in the end of a stream is a line there, behind what is left of the command's bytes. -/
theorem EndsOnLine.drop {hold : Nat} (h : EndsOnLine stream own newline text code)
    (hfits : newline.length + RC_MARKER.length + text.length + 1 ≤ hold) :
    EndsOnLine (stream.drop (stream.length - hold)) (own.drop (stream.length - hold)) newline text code := by
  obtain ⟨rfl, hnewline, hdigits, hcode⟩ := h
  have hle : (own ++ newline ++ RC_MARKER ++ text ++ [10]).length - hold ≤ own.length := by
    simp only [List.length_append, List.length_singleton]
    omega
  refine ⟨?_, ?_, hdigits, hcode⟩
  · simp only [List.append_assoc]
    rw [List.append_assoc, List.append_assoc, List.append_assoc] at hle
    rw [List.drop_append_of_le_length hle]
  · rcases hnewline with rfl | ⟨rfl, hown⟩
    · exact .inl rfl
    · refine .inr ⟨rfl, ?_⟩
      rw [List.getLast?_drop]
      split
      · exact fun h => by cases h
      · exact hown

end Lines

/-! ### The sink -/

section Pieces
variable {s : Sink} {own bytes stream : Bytes} {pieces : List Bytes} {code : Int} {ended : Bool} {max hold : Nat}

/-- The sink keeps the front of the bytes that are the command's, and knows whether there were more. -/
structure Sink.Keeps (s : Sink) (own : Bytes) : Prop where
  kept : s.kept = own.take s.max
  truncated : s.truncated = decide (s.max < own.length)

theorem Sink.keepBytes_keeps (h : s.Keeps own) (bytes : Bytes) : (s.keepBytes bytes).Keeps (own ++ bytes) := by
  obtain ⟨hkept, htruncated⟩ := h
  have hroom : s.max - s.kept.length = s.max - own.length := by
    rw [hkept, List.length_take]
    omega
  constructor
  · rw [keepBytes, hroom, hkept, List.take_append]
  · simp only [keepBytes, hroom, htruncated, List.length_append]
    by_cases hover : s.max < own.length
    · simp [hover, Nat.lt_add_right _ hover]
    · simp only [hover, decide_false, Bool.false_or, decide_eq_decide]
      omega

/-- Of the stream so far, the command's bytes and then the end held back. -/
structure Sink.Given (s : Sink) (own stream : Bytes) : Prop where
  whole : own ++ s.held = stream
  held : s.held.length = min s.hold stream.length
  keeps : s.Keeps own

theorem Sink.new_given : (Sink.new max hold).Given [] [] := by
  refine ⟨rfl, (Nat.min_zero _).symm, List.take_nil.symm, rfl⟩

@[simp] theorem Sink.hold_push : (s.push bytes).hold = s.hold := by
  unfold push
  dsimp only
  split_ifs <;> rfl

theorem Sink.push_over (hhold : s.hold ≠ 0) (h : 0 < (s.held ++ bytes).length - s.hold) :
    s.push bytes = { s.keepBytes ((s.held ++ bytes).take ((s.held ++ bytes).length - s.hold)) with
      held := (s.held ++ bytes).drop ((s.held ++ bytes).length - s.hold) } := by
  simp only [push, if_neg hhold, if_pos h]

theorem Sink.push_within (hhold : s.hold ≠ 0) (h : ¬ 0 < (s.held ++ bytes).length - s.hold) :
    s.push bytes = { s with held := s.held ++ bytes } := by
  simp only [push, if_neg hhold, if_neg h]

theorem Sink.push_given (h : s.Given own stream) (bytes : Bytes) : ∃ own', (s.push bytes).Given own' (stream ++ bytes) := by
  obtain ⟨hwhole, hheld, hkeeps⟩ := h
  by_cases hhold : s.hold = 0
  · have hnil : s.held = [] := by
      rw [hhold, Nat.zero_min] at hheld
      exact List.eq_nil_of_length_eq_zero hheld
    refine ⟨own ++ bytes, ?_, ?_, ?_⟩
    · rw [← hwhole, push, if_pos hhold, keepBytes, hnil, List.append_nil, List.append_nil]
    · rw [hold_push, hhold, Nat.zero_min, push, if_pos hhold, keepBytes, hnil, List.length_nil]
    · rw [push, if_pos hhold]
      exact keepBytes_keeps hkeeps bytes
  · have hlength := congrArg List.length hwhole
    rw [List.length_append] at hlength
    by_cases hexcess : 0 < (s.held ++ bytes).length - s.hold
    · have hkept := keepBytes_keeps hkeeps ((s.held ++ bytes).take ((s.held ++ bytes).length - s.hold))
      rw [push_over hhold hexcess]
      refine ⟨_, ?_, ?_, hkept.kept, hkept.truncated⟩
      · rw [List.append_assoc, List.take_append_drop, ← List.append_assoc, hwhole]
      · rw [List.length_append] at hexcess
        rw [List.length_drop, List.length_append, List.length_append]
        show _ = min s.hold _
        omega
    · rw [push_within hhold hexcess]
      refine ⟨own, ?_, ?_, hkeeps.kept, hkeeps.truncated⟩
      · rw [← List.append_assoc, hwhole]
      · rw [List.length_append] at hexcess
        rw [List.length_append, List.length_append]
        show _ = min s.hold _
        omega

theorem Sink.pieces_given (h : s.Given own stream) :
    ∃ own', (pieces.foldl Sink.push s).Given own' (stream ++ pieces.flatten) := by
  induction pieces generalizing s own stream with
  | nil => exact ⟨own, by simpa using h⟩
  | cons piece pieces ih =>
    obtain ⟨own', h'⟩ := push_given h piece
    obtain ⟨own'', h''⟩ := ih h'
    refine ⟨own'', ?_⟩
    rw [List.foldl_cons, List.flatten_cons, ← List.append_assoc]
    exact h''

theorem Sink.pieces_hold : (pieces.foldl Sink.push s).hold = s.hold := by
  induction pieces generalizing s with
  | nil => rfl
  | cons piece pieces ih => rw [List.foldl_cons, ih, hold_push]

theorem Sink.pieces_max : (pieces.foldl Sink.push s).max = s.max := by
  induction pieces generalizing s with
  | nil => rfl
  | cons piece pieces ih =>
    rw [List.foldl_cons, ih]
    unfold push keepBytes
    dsimp only
    split_ifs <;> rfl

/-- What is held back settles by how it ends. -/
theorem Sink.finish_given (h : s.Given own stream) :
    (s.finish ended).stderr = (ownStderr s.hold stream).take s.max ∧
      (s.finish ended).truncated = decide (s.max < (ownStderr s.hold stream).length) ∧
      (s.finish ended).remoteCode = (splitStatusLine (stream.drop (stream.length - s.hold))).map Prod.snd := by
  obtain ⟨rfl, hheld, hkeeps⟩ := h
  have hbefore : (own ++ s.held).length - s.hold = own.length := by
    rw [List.length_append] at hheld ⊢
    omega
  have hown : ownStderr s.hold (own ++ s.held) =
      match splitStatusLine s.held with
      | some (cut, _) => own ++ s.held.take cut
      | none => own ++ s.held := by
    rw [ownStderr, hbefore, List.drop_left]
    rcases hline : splitStatusLine s.held with _ | ⟨cut, code⟩
    · rfl
    · exact List.take_length_add_append cut
  rw [hown, hbefore, List.drop_left]
  rcases hline : splitStatusLine s.held with _ | ⟨cut, code⟩
  · have hkept := keepBytes_keeps hkeeps s.held
    simp only [finish, hline]
    exact ⟨hkept.kept, hkept.truncated, rfl⟩
  · have hkept := keepBytes_keeps hkeeps (s.held.take cut)
    simp only [finish, hline]
    exact ⟨hkept.kept, hkept.truncated, rfl⟩

theorem Sink.finish_pieces :
    let drained := (pieces.foldl Sink.push (.new max hold)).finish ended
    let stream := pieces.flatten
    drained.stderr = (ownStderr hold stream).take max ∧
      drained.truncated = decide (max < (ownStderr hold stream).length) ∧
      drained.remoteCode = (splitStatusLine (stream.drop (stream.length - hold))).map Prod.snd := by
  obtain ⟨own, hgiven⟩ := @pieces_given _ _ _ pieces (@new_given max hold)
  have hfinish := @finish_given _ _ _ ended hgiven
  rw [pieces_hold, pieces_max] at hfinish
  exact hfinish

end Pieces

/-! ### The other two readers -/

section Engines
variable {stream before transport own newline text : Bytes} {code : Int} {ssh : SshExecutor} {status : ProcessStatus}
  {stdout : Bytes}

theorem EndsOnLine.behind (h : EndsOnLine stream own newline text code) (hbefore : before.getLast? ≠ some 10) :
    EndsOnLine (before ++ stream) (before ++ own) newline text code := by
  obtain ⟨rfl, hnewline, hdigits, hcode⟩ := h
  refine ⟨by simp only [List.append_assoc], ?_, hdigits, hcode⟩
  rcases hnewline with rfl | ⟨rfl, hown⟩
  · exact .inl rfl
  · refine .inr ⟨rfl, ?_⟩
    rcases List.eq_nil_or_concat own with rfl | ⟨own, byte, rfl⟩
    · rw [List.append_nil]
      exact hbefore
    · rw [List.concat_eq_append, List.getLast?_concat] at hown
      rw [List.concat_eq_append, ← List.append_assoc, List.getLast?_concat]
      exact hown

theorem settleRemoteCode_line {host : String} (h : EndsOnLine stream own newline text code) :
    settleRemoteCode host ⟨status, stdout, stream⟩ = .ok ⟨some code, stdout, own⟩ := by
  have hfront := @extractRemoteCode_front _ [10] _ h.code (.inr rfl) not_infix_newline
  have hread := extractRemoteCode_append (a := own ++ newline) hfront
  have hstream : own ++ newline ++ (RC_MARKER ++ text ++ [10]) = stream := by
    rw [h.stream]
    simp only [List.append_assoc]
  have hcut := @EndsOnLine.cut_eq _ _ _ _ _ h (RC_MARKER ++ text ++ [10])
  rw [hstream] at hread hcut
  rw [List.length_append, Nat.add_zero] at hread
  simp only [settleRemoteCode, hread, hcut]
  rw [h.stream, List.append_assoc, List.append_assoc, List.append_assoc, List.take_left]

theorem sentinel_ends : SUDO_OK_SENTINEL.getLast? ≠ some 10 := by
  decide +kernel

theorem first_sentinel : Occurs.first SUDO_OK_SENTINEL ([] ++ SUDO_OK_SENTINEL) = some 0 := by
  decide +kernel

theorem dropTransport_first
    (h : Occurs.first SUDO_OK_SENTINEL (transport ++ SUDO_OK_SENTINEL) = some transport.length) :
    dropTransport (transport ++ SUDO_OK_SENTINEL ++ stream) = SUDO_OK_SENTINEL ++ stream := by
  simp only [dropTransport, Occurs.first_append h]
  rw [List.append_assoc, List.drop_left]

/-- What `run` reads of a stream that ends on a line. -/
theorem run_line (h : EndsOnLine stream own newline text code) :
    ssh.run false status stdout stream = .ok ⟨some code, stdout, own⟩ ∧
      (Occurs.first SUDO_OK_SENTINEL (transport ++ SUDO_OK_SENTINEL) = some transport.length →
        ssh.run true status stdout (transport ++ SUDO_OK_SENTINEL ++ stream) = .ok ⟨some code, stdout, own⟩) := by
  constructor
  · rw [SshExecutor.run, settleRemoteCode_line h]
    rfl
  · intro hfirst
    have hends : (transport ++ SUDO_OK_SENTINEL).getLast? ≠ some 10 := by
      have hsentinel := sentinel_ends
      rw [List.getLast?_append]
      rcases hlast : SUDO_OK_SENTINEL.getLast? with _ | byte
      · cases List.getLast?_eq_none_iff.mp hlast
      · rw [hlast] at hsentinel
        exact hsentinel
    rw [SshExecutor.run, settleRemoteCode_line (h.behind hends), Checks.ok_bind, if_pos rfl,
      classifyElevation_started hfirst]

/-- What the bounded engine reads of it, behind the sentinel of a run's start. -/
theorem settleBounded_line (h : EndsOnLine stream own newline text code) (elevated : Bool)
    (hfirst : Occurs.first SUDO_OK_SENTINEL (transport ++ SUDO_OK_SENTINEL) = some transport.length) :
    ssh.settleBounded elevated ⟨status, stdout, dropTransport (transport ++ SUDO_OK_SENTINEL ++ stream)⟩ =
      .ok ⟨some code, stdout, own⟩ := by
  rw [SshExecutor.settleBounded, dropTransport_first hfirst, settleRemoteCode_line (h.behind sentinel_ends), Checks.ok_bind]
  rcases elevated with _ | _
  · have htaken := @takeSudoSentinel_first [] own first_sentinel
    rw [List.nil_append] at htaken
    rw [if_neg (by decide), htaken]
  · have hclassified := @classifyElevation_started [] own (some code) stdout (some ssh.auth) ssh.host first_sentinel
    rw [List.nil_append] at hclassified
    rw [if_pos rfl, hclassified]

theorem runWithInput_line {elevated : Bool} {command : String} {limits : RunLimits} {marker : Bytes}
    (h : EndsOnLine stream own newline text code)
    (hfirst : Occurs.first SUDO_OK_SENTINEL (transport ++ SUDO_OK_SENTINEL) = some transport.length)
    (hmarker : holds (transport ++ SUDO_OK_SENTINEL ++ stream) marker = false)
    (hstdout : stdout.length ≤ limits.maxStdout) (hstderr : own.length ≤ limits.maxStderr) :
    ssh.runWithInput elevated command limits marker status stdout (transport ++ SUDO_OK_SENTINEL ++ stream) =
      .ok ⟨some code, stdout, own⟩ := by
  rw [runWithInput_eq hmarker, settleBounded_line h elevated hfirst]
  simp only [Except.mapError, Checks.ok_bind, RunLimits.hold, if_neg (Nat.not_lt.mpr hstdout),
    if_neg (Nat.not_lt.mpr hstderr)]

end Engines

/-! ### One reading of the whole stream -/

section Verdict
variable {stream own newline text : Bytes} {code : Int} {hold : Nat}

/-- The end held back is read for a line exactly where the stream ends on one whose marker lies in it. -/
theorem splitStatusLine_held :
    (splitStatusLine (stream.drop (stream.length - hold))).map Prod.snd = some code ↔
      ∃ own newline text, EndsOnLine stream own newline text code ∧ RC_MARKER.length + text.length + 1 ≤ hold := by
  constructor
  · intro h
    obtain ⟨⟨cut, code'⟩, hsplit, rfl⟩ := Option.map_eq_some_iff.mp h
    obtain ⟨own, newline, text, hline, -⟩ := line_of_splitStatusLine hsplit
    obtain ⟨own', newline', hline'⟩ := @EndsOnLine.append (stream.take (stream.length - hold)) _ _ _ _ _ hline
    rw [List.take_append_drop] at hline'
    refine ⟨own', newline', text, hline', ?_⟩
    have hlength := congrArg List.length hline.stream
    simp only [List.length_drop, List.length_append, List.length_singleton] at hlength
    omega
  · rintro ⟨own, newline, text, hline, hfits⟩
    by_cases hnewline : newline.length + RC_MARKER.length + text.length + 1 ≤ hold
    · rw [splitStatusLine_of_line (hline.drop hnewline)]
      rfl
    · obtain ⟨rfl, hahead, hdigits, hcode⟩ := hline
      have hone : newline.length = 1 := by
        rcases hahead with rfl | ⟨rfl, -⟩
        · rfl
        · rw [List.length_nil] at hnewline
          omega
      have hbefore : (own ++ newline ++ RC_MARKER ++ text ++ [10]).length - hold = (own ++ newline).length := by
        simp only [List.length_append, List.length_singleton]
        omega
      have hwindow : EndsOnLine (RC_MARKER ++ text ++ [10]) [] [] text code :=
        ⟨rfl, .inr ⟨rfl, fun h => by cases h⟩, hdigits, hcode⟩
      rw [hbefore, List.append_assoc (own ++ newline), List.append_assoc (own ++ newline), List.drop_left,
        splitStatusLine_of_line hwindow]
      rfl

/-- A line that lies in the end held back is taken off whole. -/
theorem ownStderr_line (h : EndsOnLine stream own newline text code)
    (hfits : newline.length + RC_MARKER.length + text.length + 1 ≤ hold) : ownStderr hold stream = own := by
  have hlength := congrArg List.length h.stream
  simp only [List.length_append, List.length_singleton] at hlength
  have hcut : stream.length - hold + (own.drop (stream.length - hold)).length = own.length := by
    rw [List.length_drop]
    omega
  simp only [ownStderr, splitStatusLine_of_line (h.drop hfits), hcut]
  rw [h.stream, List.append_assoc, List.append_assoc, List.append_assoc, List.take_left]

theorem ownStderr_none (h : splitStatusLine (stream.drop (stream.length - hold)) = none) : ownStderr hold stream = stream := by
  simp only [ownStderr, h]

/-- However a stream is cut, a channel keeps the front of what one reading of the whole leaves the command, and reads the
code of the line its last bytes end on. Where the stream ends on a line, the other two readers read that code as well, and
leave the bytes ahead of the line. -/
theorem channelSink_reads (max : Nat) (pieces : List Bytes) (ended : Bool) :
    let stream := pieces.flatten
    let drained := (pieces.foldl Sink.push (.new max STATUS_HOLD)).finish ended
    (drained.stderr = (ownStderr STATUS_HOLD stream).take max ∧
      drained.truncated = decide (max < (ownStderr STATUS_HOLD stream).length)) ∧
    (drained.remoteCode = none → ownStderr STATUS_HOLD stream = stream) ∧
    (∀ code, drained.remoteCode = some code ↔
      ∃ own newline text, EndsOnLine stream own newline text code ∧ RC_MARKER.length + text.length + 1 ≤ STATUS_HOLD) ∧
    ∀ own newline text code, EndsOnLine stream own newline text code →
      (newline.length + RC_MARKER.length + text.length + 1 ≤ STATUS_HOLD → ownStderr STATUS_HOLD stream = own) ∧
      ∀ (ssh : SshExecutor) status stdout, ssh.run false status stdout stream = .ok ⟨some code, stdout, own⟩ ∧
        ∀ transport, Occurs.first SUDO_OK_SENTINEL (transport ++ SUDO_OK_SENTINEL) = some transport.length →
          ssh.run true status stdout (transport ++ SUDO_OK_SENTINEL ++ stream) = .ok ⟨some code, stdout, own⟩ ∧
          ∀ elevated command (limits : RunLimits) marker,
            holds (transport ++ SUDO_OK_SENTINEL ++ stream) marker = false → stdout.length ≤ limits.maxStdout →
            own.length ≤ limits.maxStderr →
            ssh.runWithInput elevated command limits marker status stdout (transport ++ SUDO_OK_SENTINEL ++ stream) =
              .ok ⟨some code, stdout, own⟩ := by
  intro stream drained
  obtain ⟨hkept, htruncated, hcode⟩ := @Sink.finish_pieces pieces ended max STATUS_HOLD
  refine ⟨⟨hkept, htruncated⟩, ?_, ?_, ?_⟩
  · intro hnone
    rw [hcode, Option.map_eq_none_iff] at hnone
    exact ownStderr_none hnone
  · intro code
    rw [hcode]
    exact splitStatusLine_held
  · intro own newline text code hline
    refine ⟨ownStderr_line hline, fun ssh status stdout => ⟨(@run_line _ [] _ _ _ _ ssh status stdout hline).1, ?_⟩⟩
    intro transport hfirst
    refine ⟨(run_line hline).2 hfirst, ?_⟩
    intro elevated command limits marker hmarker hstdout hstderr
    exact runWithInput_line hline hfirst hmarker hstdout hstderr

/-- The wrapper's own line is one. -/
theorem endsOnLine_statusLine {n : Nat} (h : n < 2 ^ 31) : EndsOnLine (own ++ statusLine n) own [10] (Decimal.write n) n := by
  refine ⟨?_, .inl rfl, fun byte hbyte => Decimal.mem_write hbyte, parseI32_write h⟩
  simp [statusLine]

theorem channelSink_reads_own :
    (([asBytes "own", statusLine 7].foldl Sink.push (.new 2 STATUS_HOLD)).finish true).stderr =
      (asBytes "own").take 2 ∧
      (([asBytes "own", statusLine 7].foldl Sink.push (.new 2 STATUS_HOLD)).finish true).remoteCode = some 7 := by
  obtain ⟨⟨hkept, -⟩, -, hcode, hread⟩ := channelSink_reads 2 [asBytes "own", statusLine 7] true
  have hpieces : [asBytes "own", statusLine 7].flatten = asBytes "own" ++ statusLine 7 := by
    rw [List.flatten_cons, List.flatten_cons, List.flatten_nil, List.append_nil]
  simp only [hpieces] at hkept hcode hread
  have hline : EndsOnLine (asBytes "own" ++ statusLine 7) (asBytes "own") [10] (Decimal.write 7) 7 :=
    endsOnLine_statusLine (by decide)
  refine ⟨?_, (hcode 7).mpr ⟨_, _, _, hline, by decide +kernel⟩⟩
  rw [hkept, (hread _ _ _ _ hline).1 (by decide +kernel)]

/-- The wrapper's line with more behind it: `run` reads its code, and a channel none. -/
theorem channelSink_trailing : ∃ pieces : List Bytes,
    ((pieces.foldl Sink.push (.new 64 STATUS_HOLD)).finish true).remoteCode = none ∧
      ∃ out, (SshExecutor.mk "host" .nonInteractive).run false (some 0) [] pieces.flatten = .ok out ∧
        out.code = some 5 := by
  refine ⟨[asBytes "own", statusLine 5, asBytes "Connection closed.\n"], by decide +kernel, ?_⟩
  have hread : extractRemoteCode [asBytes "own", statusLine 5, asBytes "Connection closed.\n"].flatten = some (4, 5) := by
    decide +kernel
  exact run_operator hread

end Verdict

end DeployCore
