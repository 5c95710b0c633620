import DeployCore.Lib.Checks
import DeployCore.RemoteStatus

/-! # Which exit statuses were delivered -/

namespace DeployCore

/-- The line the wrapper prints after the command, its last act. -/
def statusLine (code : Nat) : Bytes := 10 :: RC_MARKER ++ Decimal.write code ++ [10]

/-- The wrapper's line reached this end whole: `ssh` exited successfully and its standard error ends in the line. -/
def LineDelivered (status : ProcessStatus) (stderr : Bytes) (code : Nat) : Prop :=
  status.success = true ∧ code ≤ 255 ∧ ∃ own, stderr = own ++ statusLine code

/-- Behind the last marker stands a number, up to the end of its line or of the text. -/
def ReadsAsStatus (stderr : Bytes) : Prop :=
  ∃ own text rest code, stderr = own ++ RC_MARKER ++ text ++ rest ∧ parseI32 text = some code ∧
    (rest = [] ∨ rest.head? = some 10) ∧ ¬ RC_MARKER <:+: rest

section Markers

/-- The bytes that tell the marker from what stands around it. -/
theorem rc_marker_bytes : RC_MARKER ≠ [] ∧ RC_MARKER = RC_MARKER.dropLast ++ [58] ∧ (10 : UInt8) ∉ RC_MARKER ∧
    (83 : UInt8) ∉ RC_MARKER ∧ ¬RC_MARKER <:+: [] ∧ ¬RC_MARKER <:+: [10] ∧ (83 : UInt8) ∈ SUDO_OK_SENTINEL := by
  decide +kernel

theorem rc_marker_ne_nil : RC_MARKER ≠ [] := rc_marker_bytes.1

theorem rc_marker_colon : RC_MARKER = RC_MARKER.dropLast ++ [58] := rc_marker_bytes.2.1

theorem notMem_rc_marker : (10 : UInt8) ∉ RC_MARKER := rc_marker_bytes.2.2.1

theorem not_infix_newline : ¬RC_MARKER <:+: [10] := rc_marker_bytes.2.2.2.2.2.1

theorem mem_sudo_ok_sentinel : (83 : UInt8) ∈ SUDO_OK_SENTINEL := rc_marker_bytes.2.2.2.2.2.2

variable {text rest a b : Bytes} {code : Int} {pos : Nat}

/-- What a number is read from is digits and a sign. -/
theorem parseI32_bytes (h : parseI32 text = some code) : (10 : UInt8) ∉ text ∧ (58 : UInt8) ∉ text := by
  have hdigits {bound n : Nat} {digits : Bytes} (h : Decimal.read bound 0 digits = some n) :
      (10 : UInt8) ∉ digits ∧ (58 : UInt8) ∉ digits := by
    constructor <;> intro hmem <;> exact absurd (Decimal.digits_of_read h _ hmem) (by decide)
  unfold parseI32 at h
  split at h
  · cases h
  · cases h
  · cases h
  · obtain ⟨n, hn, -⟩ := Option.map_eq_some_iff.mp h
    simpa using hdigits hn
  · obtain ⟨n, hn, -⟩ := Option.map_eq_some_iff.mp h
    simpa using hdigits hn
  · obtain ⟨n, hn, -⟩ := Option.map_eq_some_iff.mp h
    exact hdigits hn

theorem last_rc_marker (htext : parseI32 text = some code) (hrest : rest = [] ∨ rest.head? = some 10)
    (hnot : ¬ RC_MARKER <:+: rest) : Occurs.last RC_MARKER (RC_MARKER ++ text ++ rest) = some 0 := by
  obtain ⟨-, hcolon⟩ := parseI32_bytes htext
  have hfront : ¬ RC_MARKER <:+: RC_MARKER.tail ++ text := by
    rw [rc_marker_colon]
    exact Occurs.not_infix_tail hcolon
  rw [List.append_assoc]
  refine Occurs.last_front rc_marker_ne_nil fun h => ?_
  rw [← List.append_assoc] at h
  rcases hrest with rfl | hhead
  · rw [List.append_nil] at h
    exact hfront h
  · obtain ⟨after, rfl⟩ := List.head?_eq_some_iff.mp hhead
    rcases Occurs.infix_append_cons notMem_rc_marker h with h | h
    · exact hfront h
    · exact hnot (h.trans (List.suffix_cons ..).isInfix)

theorem extractRemoteCode_append (h : extractRemoteCode b = some (pos, code)) :
    extractRemoteCode (a ++ b) = some (a.length + pos, code) := by
  obtain ⟨p, hp, h⟩ := Option.bind_eq_some_iff.mp h
  obtain ⟨c, hc, h⟩ := Option.bind_eq_some_iff.mp h
  obtain ⟨rfl, rfl⟩ := Prod.mk.inj (Option.some.inj h)
  have hdrop : (a ++ b).drop (a.length + p + RC_MARKER.length) = b.drop (p + RC_MARKER.length) := by
    rw [Nat.add_assoc, ← List.drop_drop, List.drop_left]
  simp only [extractRemoteCode, Occurs.last_append hp, Option.bind_eq_bind, Option.bind_some, hdrop, hc]

/-- A number behind the marker, where no marker follows, is what is read. -/
theorem extractRemoteCode_front (htext : parseI32 text = some code) (hrest : rest = [] ∨ rest.head? = some 10)
    (hnot : ¬ RC_MARKER <:+: rest) : extractRemoteCode (RC_MARKER ++ text ++ rest) = some (0, code) := by
  have hbefore : ∀ byte ∈ text, decide (byte ≠ 10) = true := fun byte hbyte =>
    decide_eq_true fun heq => (parseI32_bytes htext).1 (heq ▸ hbyte)
  have hafter : rest.takeWhile (· ≠ 10) = [] := by
    rcases hrest with rfl | hhead
    · rfl
    · obtain ⟨after, rfl⟩ := List.head?_eq_some_iff.mp hhead
      rfl
  have hline : (text ++ rest).takeWhile (· ≠ 10) = text := by
    rw [List.takeWhile_append_of_pos hbefore, hafter, List.append_nil]
  have hdrop : (RC_MARKER ++ text ++ rest).drop (0 + RC_MARKER.length) = text ++ rest := by
    rw [Nat.zero_add, List.append_assoc, List.drop_left]
  simp only [extractRemoteCode, last_rc_marker htext hrest hnot, Option.bind_eq_bind, Option.bind_some, hdrop, hline,
    htext]

theorem extractRemoteCode_isSome {stderr : Bytes} :
    (∃ pos code, extractRemoteCode stderr = some (pos, code)) ↔ ReadsAsStatus stderr := by
  constructor
  · rintro ⟨pos, code, h⟩
    obtain ⟨p, hp, h⟩ := Option.bind_eq_some_iff.mp h
    obtain ⟨c, hc, -⟩ := Option.bind_eq_some_iff.mp h
    obtain ⟨own, post, rfl, rfl⟩ := Occurs.last_eq_some hp
    have hdrop : (own ++ RC_MARKER ++ post).drop (own.length + RC_MARKER.length) = post := by
      rw [← List.length_append, List.drop_left]
    rw [hdrop] at hc
    have hsplit : post.takeWhile (· ≠ 10) ++ post.dropWhile (· ≠ 10) = post := List.takeWhile_append_dropWhile
    refine ⟨own, post.takeWhile (· ≠ 10), post.dropWhile (· ≠ 10), c, ?_, hc, ?_, fun hinfix => ?_⟩
    · rw [List.append_assoc _ _ (post.dropWhile _), hsplit]
    · cases hrest : post.dropWhile (· ≠ 10) with
      | nil => exact .inl rfl
      | cons byte rest =>
        have hne : post.dropWhile (· ≠ 10) ≠ [] := hrest ▸ List.cons_ne_nil byte rest
        have hbyte := List.head_dropWhile_not _ hne
        simp only [hrest, List.head_cons, decide_eq_false_iff_not, not_not] at hbyte
        exact .inr (congrArg some hbyte)
    · cases hq : Occurs.last RC_MARKER (post.dropWhile (· ≠ 10)) with
      | none => exact (Occurs.last_eq_none rc_marker_ne_nil).mp hq hinfix
      | some q =>
        have hlater := Occurs.last_append (a := own ++ RC_MARKER ++ post.takeWhile (· ≠ 10)) hq
        rw [List.append_assoc _ _ (post.dropWhile _), hsplit, hp, List.length_append, List.length_append] at hlater
        have hpos : 0 < RC_MARKER.length := List.length_pos_iff.mpr rc_marker_ne_nil
        have := Option.some.inj hlater
        omega
  · rintro ⟨own, text, rest, code, rfl, htext, hrest, hnot⟩
    have hfront := extractRemoteCode_append (a := own) (extractRemoteCode_front htext hrest hnot)
    rw [← List.append_assoc, ← List.append_assoc] at hfront
    exact ⟨_, code, hfront⟩

/-- The number on the wrapper's line. -/
theorem parseI32_write {n : Nat} (h : n < 2 ^ 31) : parseI32 (Decimal.write n) = some (n : Int) := by
  have hread : (Decimal.read (2 ^ 31) 0 (Decimal.write n)).map Int.ofNat = some (n : Int) := by
    rw [Decimal.read_write h]
    rfl
  cases hw : Decimal.write n with
  | nil => exact absurd hw Decimal.write_ne_nil
  | cons byte rest =>
    have hbyte := Decimal.mem_write (hw ▸ List.mem_cons_self .. : byte ∈ Decimal.write n)
    rw [hw] at hread
    unfold parseI32
    split
    · next heq => cases heq
    · next heq =>
      obtain ⟨rfl, -⟩ := List.cons.inj heq
      exact absurd hbyte (by decide)
    · next heq =>
      obtain ⟨rfl, -⟩ := List.cons.inj heq
      exact absurd hbyte (by decide)
    · next heq =>
      obtain ⟨rfl, -⟩ := List.cons.inj heq
      exact absurd hbyte (by decide)
    · next heq =>
      obtain ⟨rfl, -⟩ := List.cons.inj heq
      exact absurd hbyte (by decide)
    · exact hread

theorem extractRemoteCode_statusLine {own : Bytes} {code : Nat} (h : code ≤ 255) :
    extractRemoteCode (own ++ statusLine code) = some (own.length + 1, (code : Int)) := by
  have htext := parseI32_write (n := code) (by omega)
  have hfront := @extractRemoteCode_front _ [10] _ htext (.inr rfl) not_infix_newline
  have hline := extractRemoteCode_append (a := own ++ [10]) hfront
  rw [List.length_append, List.length_singleton, List.append_assoc own] at hline
  exact hline

end Markers

/-! ### The three readers -/

section Readers
variable {status : ProcessStatus} {stdout stderr : Bytes} {ssh : SshExecutor}

theorem settleRemoteCode_none {host : String} {output : CommandOutput} (h : extractRemoteCode output.stderr = none) :
    settleRemoteCode host output = .error (transportFailure host output.stderr) := by
  simp only [settleRemoteCode, h]

theorem settleRemoteCode_some {host : String} {output : CommandOutput} {pos : Nat} {code : Int}
    (h : extractRemoteCode output.stderr = some (pos, code)) :
    ∃ stderr, settleRemoteCode host output = .ok { output with code := some code, stderr } ∧
      stderr.length ≤ output.stderr.length := by
  simp only [settleRemoteCode, h]
  exact ⟨_, rfl, List.length_take_le' ..⟩

theorem notMem_statusLine {code : Nat} : (83 : UInt8) ∉ statusLine code := by
  simp only [statusLine, List.mem_append, List.mem_cons, List.not_mem_nil, or_false, not_or]
  refine ⟨⟨⟨by decide, rc_marker_bytes.2.2.2.1⟩, fun h => ?_⟩, by decide⟩
  exact absurd (Decimal.mem_write h) (by decide)

/-- The sentinel does not lie in the wrapper's line, so dropping what precedes it leaves the line. -/
theorem dropTransport_statusLine {own : Bytes} {code : Nat} :
    ∃ own', dropTransport (own ++ statusLine code) = own' ++ statusLine code := by
  cases hfirst : Occurs.first SUDO_OK_SENTINEL (own ++ statusLine code) with
  | none => exact ⟨own, by simp only [dropTransport, hfirst]⟩
  | some pos =>
    have hpos : pos ≤ own.length := by
      obtain ⟨before, after, heq, rfl⟩ := Occurs.first_eq_some hfirst
      by_contra hlt
      rw [List.append_assoc] at heq
      rcases List.append_eq_append_iff.mp heq with ⟨more, -, hline⟩ | ⟨more, hown, -⟩
      · refine @notMem_statusLine code ?_
        rw [hline]
        exact List.mem_append_right _ (List.mem_append_left _ mem_sudo_ok_sentinel)
      · rw [hown, List.length_append] at hlt
        omega
    refine ⟨own.drop pos, ?_⟩
    simp only [dropTransport, hfirst]
    rw [List.drop_append_of_le_length hpos]

theorem dropTransport_suffix : ∃ before, stderr = before ++ dropTransport stderr := by
  cases hfirst : Occurs.first SUDO_OK_SENTINEL stderr with
  | none => exact ⟨[], by simp only [dropTransport, hfirst, List.nil_append]⟩
  | some pos => exact ⟨stderr.take pos, by simp only [dropTransport, hfirst, List.take_append_drop]⟩

/-- A text without a readable marker has none in what the transport leaves of it. -/
theorem extractRemoteCode_dropTransport (h : extractRemoteCode stderr = none) :
    extractRemoteCode (dropTransport stderr) = none := by
  obtain ⟨before, hbefore⟩ := @dropTransport_suffix stderr
  cases hdrop : extractRemoteCode (dropTransport stderr) with
  | none => rfl
  | some found =>
    rw [hbefore, extractRemoteCode_append hdrop] at h
    cases h

/-! ### The channel's window -/

/-- What a sink holds back is the end of what it was given, as much of it as its hold. -/
theorem Sink.held_push {s : Sink} {bytes before : Bytes} (hhold : 0 < s.hold)
    (hs : s.held = before.drop (before.length - s.hold)) :
    (s.push bytes).held = (before ++ bytes).drop ((before ++ bytes).length - s.hold) ∧ (s.push bytes).hold = s.hold := by
  have hdrop : (before ++ bytes).drop ((before ++ bytes).length - s.hold) =
      (s.held ++ bytes).drop ((s.held ++ bytes).length - s.hold) := by
    rw [hs, ← List.drop_append_of_le_length (Nat.sub_le ..), List.drop_drop]
    congr 1
    simp only [List.length_drop, List.length_append]
    omega
  rw [hdrop]
  by_cases hexcess : 0 < (s.held ++ bytes).length - s.hold
  · simp only [push, if_neg hhold.ne', if_pos hexcess]
    exact ⟨trivial, rfl⟩
  · simp only [push, if_neg hhold.ne', if_neg hexcess, and_true]
    rw [Nat.eq_zero_of_not_pos hexcess, List.drop_zero]

theorem Sink.held_pieces {s : Sink} {pieces : List Bytes} {before : Bytes} (hhold : 0 < s.hold)
    (hs : s.held = before.drop (before.length - s.hold)) :
    (pieces.foldl Sink.push s).held = (before ++ pieces.flatten).drop ((before ++ pieces.flatten).length - s.hold) := by
  induction pieces generalizing s before with
  | nil => simpa using hs
  | cons piece pieces ih =>
    obtain ⟨hheld, hsame⟩ := @Sink.held_push s piece before hhold hs
    have := ih (hsame ▸ hhold) (hsame ▸ hheld)
    rw [List.foldl_cons, List.flatten_cons, ← List.append_assoc, this, hsame]

/-- A status line at the end of a text is a readable marker in it. -/
theorem extractRemoteCode_of_split {tail : Bytes} {cut : Nat} {code : Int} (h : splitStatusLine tail = some (cut, code)) :
    ∃ pos, extractRemoteCode tail = some (pos, code) := by
  obtain ⟨⟨⟩, hguard, h⟩ := Option.bind_eq_some_iff.mp h
  obtain ⟨pos, hpos, h⟩ := Option.bind_eq_some_iff.mp h
  obtain ⟨-, -, h⟩ := Option.bind_eq_some_iff.mp h
  obtain ⟨c, hc, h⟩ := Option.bind_eq_some_iff.mp h
  obtain ⟨-, rfl⟩ := Prod.mk.inj (Option.some.inj h)
  obtain ⟨own, digits, hbody, rfl⟩ := Occurs.last_eq_some hpos
  have hlast : tail.getLast? = some 10 := by
    by_contra hne
    simp [guard, hne] at hguard
  have hdigits : tail.dropLast.drop (own.length + RC_MARKER.length) = digits := by
    rw [hbody, ← List.length_append, List.drop_left]
  rw [hdigits] at hc
  have hline := @extractRemoteCode_front _ [10] _ hc (.inr rfl) not_infix_newline
  have hfront := extractRemoteCode_append (a := own) hline
  have htail : own ++ (RC_MARKER ++ digits ++ [10]) = tail := by
    rw [← List.append_assoc, ← List.append_assoc, ← hbody]
    exact List.dropLast_append_getLast? 10 hlast
  rw [htail] at hfront
  exact ⟨_, hfront⟩

theorem splitStatusLine_statusLine {own : Bytes} {code : Nat} (h : code ≤ 255) :
    ∃ cut, splitStatusLine (own ++ statusLine code) = some (cut, (code : Int)) := by
  have htext := parseI32_write (n := code) (by omega)
  have hbody : own ++ statusLine code = own ++ [10] ++ (RC_MARKER ++ Decimal.write code) ++ [10] := by
    simp only [statusLine, List.append_assoc, List.cons_append, List.nil_append]
  have hlast := last_rc_marker htext (.inl rfl) rc_marker_bytes.2.2.2.2.1
  rw [List.append_nil] at hlast
  have hpos := Occurs.last_append (a := own ++ [10]) hlast
  have hdigits : (own ++ [10] ++ (RC_MARKER ++ Decimal.write code)).drop
      ((own ++ [10]).length + 0 + RC_MARKER.length) = Decimal.write code := by
    rw [← List.append_assoc, Nat.add_zero, ← List.length_append, List.drop_left]
  have hguard : Decimal.write code ≠ [] ∧ ∀ byte ∈ Decimal.write code, 48 ≤ byte.toNat ∧ byte.toNat ≤ 57 :=
    ⟨Decimal.write_ne_nil, fun _ => Decimal.mem_write⟩
  rw [hbody]
  simp only [splitStatusLine, List.getLast?_concat, List.dropLast_concat, hpos, guard, if_pos, Option.pure_def,
    Option.bind_eq_bind, Option.bind_some, hdigits, if_pos hguard, htext]
  exact ⟨_, rfl⟩

theorem Sink.remoteCode_finish {s : Sink} {ended : Bool} :
    (s.finish ended).remoteCode = (splitStatusLine s.held).map Prod.snd := by
  cases h : splitStatusLine s.held <;> simp only [finish, h] <;> rfl

theorem channelWait_code {program host : String} {drained : Drained} {code : Int} :
    (∃ exit, channelWait program (some host) status drained = .ok exit ∧ exit.code = some code) ↔
      status.success = true ∧ drained.remoteCode = some code := by
  cases hremote : drained.remoteCode with
  | none => simp [channelWait, hremote]
  | some found => by_cases hstatus : status.success = true <;> simp [channelWait, hremote, hstatus]

/-- The code a channel reports is that of the status line at the end of its window. -/
theorem channelExit_code {program host : String} {max : Nat} {pieces : List Bytes} {ended : Bool} {code : Int} :
    (∃ exit, channelExit program host max status pieces ended = .ok exit ∧ exit.code = some code) ↔
      status.success = true ∧
      ∃ cut, splitStatusLine (pieces.flatten.drop (pieces.flatten.length - STATUS_HOLD)) = some (cut, code) := by
  have hhold : (Sink.new max STATUS_HOLD).hold = STATUS_HOLD := rfl
  have hheld := @Sink.held_pieces (.new max STATUS_HOLD) pieces [] (by rw [hhold]; decide) rfl
  rw [List.nil_append, hhold] at hheld
  rw [channelExit, channelWait_code, Sink.remoteCode_finish, hheld]
  simp only [Option.map_eq_some_iff, Prod.exists, exists_eq_right]

theorem classifyElevation_code {output out : CommandOutput} {auth : Option SudoAuth} {host : String}
    (h : classifyElevation output auth host = .ok out) : out.code = output.code := by
  unfold classifyElevation at h
  split at h
  · exact (Except.ok.inj h) ▸ rfl
  · cases h

theorem run_unread {elevated : Bool} (h : extractRemoteCode stderr = none) :
    ssh.run elevated status stdout stderr = .error (transportFailure ssh.host stderr) := by
  simp only [SshExecutor.run, @settleRemoteCode_none ssh.host ⟨status, stdout, stderr⟩ h]
  rfl

theorem run_read {elevated : Bool} {pos : Nat} {code : Int} {out : CommandOutput}
    (h : extractRemoteCode stderr = some (pos, code)) (hrun : ssh.run elevated status stdout stderr = .ok out) :
    out.code = some code := by
  obtain ⟨own, hsettle, -⟩ := @settleRemoteCode_some ssh.host ⟨status, stdout, stderr⟩ _ _ h
  simp only [SshExecutor.run, hsettle] at hrun
  cases elevated with
  | true => exact classifyElevation_code hrun
  | false => exact (Except.ok.inj hrun) ▸ rfl

theorem run_operator {pos : Nat} {code : Int} (h : extractRemoteCode stderr = some (pos, code)) :
    ∃ out, ssh.run false status stdout stderr = .ok out ∧ out.code = some code := by
  obtain ⟨own, hsettle, -⟩ := @settleRemoteCode_some ssh.host ⟨status, stdout, stderr⟩ _ _ h
  exact ⟨⟨some code, stdout, own⟩, by simp only [SshExecutor.run, hsettle]; rfl, rfl⟩

theorem settleBounded_code {elevated : Bool} {output out : CommandOutput} {pos : Nat} {code : Int}
    (h : extractRemoteCode output.stderr = some (pos, code)) (hsettled : ssh.settleBounded elevated output = .ok out) :
    out.code = some code := by
  obtain ⟨own, hsettle, -⟩ := @settleRemoteCode_some ssh.host _ _ _ h
  simp only [SshExecutor.settleBounded, hsettle] at hsettled
  cases elevated with
  | true => exact classifyElevation_code hsettled
  | false => exact (Except.ok.inj hsettled) ▸ rfl

theorem settleBounded_operator {output : CommandOutput} {pos : Nat} {code : Int}
    (h : extractRemoteCode output.stderr = some (pos, code)) :
    ∃ own, ssh.settleBounded false output = .ok ⟨some code, output.stdout, own⟩ ∧
      own.length ≤ output.stderr.length := by
  obtain ⟨own, hsettle, hle⟩ := @settleRemoteCode_some ssh.host _ _ _ h
  refine ⟨(takeSudoSentinel own).1, by simp only [SshExecutor.settleBounded, hsettle]; rfl, le_trans ?_ hle⟩
  unfold takeSudoSentinel
  split
  · exact List.length_drop ▸ Nat.sub_le ..
  · exact le_rfl

variable {command : String} {limits : RunLimits} {marker : Bytes} {elevated : Bool} {out : CommandOutput}

theorem runWithInput_eq (h : holds stderr marker = false) :
    ssh.runWithInput elevated command limits marker status stdout stderr = (do
      let output ← (ssh.settleBounded elevated ⟨status, stdout, dropTransport stderr⟩).mapError .executor
      limits.hold command output) := by
  simp only [SshExecutor.runWithInput, finish, finishOutput, h, Bool.false_eq_true, if_false]

theorem runWithInput_timedOut (h : holds stderr marker = true) :
    ssh.runWithInput elevated command limits marker status stdout stderr = .error (.timedOut command limits.timeout) := by
  simp only [SshExecutor.runWithInput, finish, finishOutput, h, if_true]

theorem RunLimits.hold_ok {output : CommandOutput} (h : limits.hold command output = .ok out) : out = output := by
  unfold RunLimits.hold at h
  split at h
  · cases h
  split at h
  · cases h
  · exact (Except.ok.inj h).symm

theorem runWithInput_lost (h : extractRemoteCode stderr = none) (hmarker : holds stderr marker = false) :
    ssh.runWithInput elevated command limits marker status stdout stderr =
      .error (.executor (transportFailure ssh.host (dropTransport stderr))) := by
  have hnone := @settleRemoteCode_none ssh.host ⟨status, stdout, dropTransport stderr⟩ (extractRemoteCode_dropTransport h)
  rw [runWithInput_eq hmarker]
  simp only [SshExecutor.settleBounded, hnone]
  rfl

theorem runWithInput_code {pos : Nat} {code : Int} (h : extractRemoteCode (dropTransport stderr) = some (pos, code))
    (hrun : ssh.runWithInput elevated command limits marker status stdout stderr = .ok out) : out.code = some code := by
  cases hmarker : holds stderr marker with
  | true =>
    rw [runWithInput_timedOut hmarker] at hrun
    cases hrun
  | false =>
    rw [runWithInput_eq hmarker] at hrun
    obtain ⟨output, hsettled, hlimits⟩ := Checks.bind_ok hrun
    obtain rfl := RunLimits.hold_ok hlimits
    exact settleBounded_code h (Checks.mapError_ok.mp hsettled)

/-- Within its limits `run_with_input` reports what it reads. -/
theorem runWithInput_operator {pos : Nat} {code : Int} (h : extractRemoteCode (dropTransport stderr) = some (pos, code))
    (hmarker : holds stderr marker = false) (hstdout : stdout.length ≤ limits.maxStdout)
    (hstderr : stderr.length ≤ limits.maxStderr) :
    ∃ out, ssh.runWithInput false command limits marker status stdout stderr = .ok out ∧ out.code = some code := by
  obtain ⟨own, hsettled, hle⟩ := @settleBounded_operator ssh ⟨status, stdout, dropTransport stderr⟩ _ _ h
  obtain ⟨before, hbefore⟩ := @dropTransport_suffix stderr
  have hwithin : own.length ≤ limits.maxStderr := by
    have := congrArg List.length hbefore
    rw [List.length_append] at this
    simp only at hle
    omega
  refine ⟨⟨some code, stdout, own⟩, ?_, rfl⟩
  rw [runWithInput_eq hmarker, hsettled]
  simp only [Except.mapError, Checks.ok_bind, RunLimits.hold, if_neg (Nat.not_lt.mpr hstdout),
    if_neg (Nat.not_lt.mpr hwithin)]

/-- What `run` and `run_with_input` are to make of an exit status and a standard error: a code only where the
wrapper's line was delivered, a transport failure where it was not (but for a run past its own deadline), and the
same as a channel's wait. -/
structure SettlesSoundly (status : ProcessStatus) (stderr : Bytes) : Prop where
  run_code : ∀ (ssh : SshExecutor) elevated stdout out, ssh.run elevated status stdout stderr = .ok out →
    ∃ code, LineDelivered status stderr code ∧ out.code = some (code : Int)
  run_lost : (∀ code, ¬ LineDelivered status stderr code) → ∀ (ssh : SshExecutor) elevated stdout,
    ssh.run elevated status stdout stderr = .error (transportFailure ssh.host stderr)
  input_code : ∀ (ssh : SshExecutor) elevated command limits marker stdout out,
    ssh.runWithInput elevated command limits marker status stdout stderr = .ok out →
    ∃ code, LineDelivered status stderr code ∧ out.code = some (code : Int)
  input_lost : (∀ code, ¬ LineDelivered status stderr code) → ∀ (ssh : SshExecutor) elevated command limits marker stdout,
    holds stderr marker = false →
    ssh.runWithInput elevated command limits marker status stdout stderr =
      .error (.executor (transportFailure ssh.host (dropTransport stderr)))
  agree : ∀ (ssh : SshExecutor) command (limits : RunLimits) marker (stdout : Bytes) program max (pieces : List Bytes)
    ended (code : Int), stdout.length ≤ limits.maxStdout → stderr.length ≤ limits.maxStderr →
    holds stderr marker = false → pieces.flatten = stderr →
    ((∃ out, ssh.run false status stdout stderr = .ok out ∧ out.code = some code) ↔
      ∃ exit, channelExit program ssh.host max status pieces ended = .ok exit ∧ exit.code = some code) ∧
    ((∃ out, ssh.runWithInput false command limits marker status stdout stderr = .ok out ∧ out.code = some code) ↔
      ∃ exit, channelExit program ssh.host max status pieces ended = .ok exit ∧ exit.code = some code)

/-- A line of at most 255 lies in the window a channel holds back. -/
theorem splitStatusLine_window {own : Bytes} {code : Nat} (h : code ≤ 255) :
    ∃ cut, splitStatusLine ((own ++ statusLine code).drop ((own ++ statusLine code).length - STATUS_HOLD)) =
      some (cut, (code : Int)) := by
  have hlines : ∀ code < 256, (statusLine code).length ≤ STATUS_HOLD := by decide +kernel
  have hline := hlines code (by omega)
  rw [List.drop_append_of_le_length (by rw [List.length_append]; omega)]
  exact splitStatusLine_statusLine h

theorem SettlesSoundly.of_delivered {code : Nat} (h : LineDelivered status stderr code) : SettlesSoundly status stderr := by
  obtain ⟨hstatus, hle, own, rfl⟩ := id h
  obtain ⟨own', hown'⟩ := @dropTransport_statusLine own code
  have hread := @extractRemoteCode_statusLine own code hle
  have hbounded := @extractRemoteCode_statusLine own' code hle
  rw [← hown'] at hbounded
  refine ⟨fun ssh elevated stdout out hrun => ⟨code, h, run_read hread hrun⟩, fun hlost => absurd h (hlost code),
    fun ssh elevated command limits marker stdout out hrun => ⟨code, h, runWithInput_code hbounded hrun⟩,
    fun hlost => absurd h (hlost code), ?_⟩
  intro ssh command limits marker stdout program max pieces ended found hstdout hstderr hmarker hpieces
  have hchannel : (∃ exit, channelExit program ssh.host max status pieces ended = .ok exit ∧ exit.code = some found) ↔
      found = code := by
    obtain ⟨cut, hcut⟩ := @splitStatusLine_window own code hle
    rw [channelExit_code, hpieces, hcut]
    simp [hstatus, eq_comm]
  constructor
  · rw [hchannel]
    obtain ⟨out, hout, hcode⟩ := @run_operator status stdout _ ssh _ _ hread
    rw [hout]
    simp [hcode, eq_comm]
  · rw [hchannel]
    obtain ⟨out, hout, hcode⟩ := @runWithInput_operator status stdout _ ssh command limits marker _ _ hbounded hmarker
      hstdout hstderr
    rw [hout]
    simp [hcode, eq_comm]

theorem SettlesSoundly.of_unread (h : ¬ ReadsAsStatus stderr) : SettlesSoundly status stderr := by
  have hnone : extractRemoteCode stderr = none := by
    cases hread : extractRemoteCode stderr with
    | none => rfl
    | some found => exact absurd (extractRemoteCode_isSome.mp ⟨found.1, found.2, hread⟩) h
  refine ⟨fun ssh elevated stdout out hrun => ?_, fun _ ssh elevated stdout => run_unread hnone,
    fun ssh elevated command limits marker stdout out hrun => ?_,
    fun _ ssh elevated command limits marker stdout hmarker => runWithInput_lost hnone hmarker, ?_⟩
  · rw [run_unread hnone] at hrun
    cases hrun
  · cases hmarker : holds stderr marker with
    | true =>
      rw [runWithInput_timedOut hmarker] at hrun
      cases hrun
    | false =>
      rw [runWithInput_lost hnone hmarker] at hrun
      cases hrun
  · intro ssh command limits marker stdout program max pieces ended found _ _ hmarker hpieces
    have hchannel : ¬ ∃ exit, channelExit program ssh.host max status pieces ended = .ok exit ∧ exit.code = some found := by
      rw [channelExit_code, hpieces]
      rintro ⟨-, cut, hcut⟩
      obtain ⟨pos, hpos⟩ := extractRemoteCode_of_split hcut
      have hwhole := extractRemoteCode_append (a := stderr.take (stderr.length - STATUS_HOLD)) hpos
      rw [List.take_append_drop, hnone] at hwhole
      cases hwhole
    refine ⟨iff_of_false ?_ hchannel, iff_of_false ?_ hchannel⟩
    · rintro ⟨out, hrun, -⟩
      rw [run_unread hnone] at hrun
      cases hrun
    · rintro ⟨out, hrun, -⟩
      rw [runWithInput_lost hnone hmarker] at hrun
      cases hrun

/-- `run` and `run_with_input` settle a status and a standard error soundly exactly when the wrapper's line was
delivered or nothing in the standard error reads as one. -/
theorem remoteStatus_sound :
    SettlesSoundly status stderr ↔ (∃ code, LineDelivered status stderr code) ∨ ¬ ReadsAsStatus stderr := by
  constructor
  · intro h
    by_contra hnot
    obtain ⟨hlost, hreads⟩ := not_or.mp hnot
    obtain ⟨pos, code, hcode⟩ := extractRemoteCode_isSome.mpr (not_not.mp hreads)
    obtain ⟨out, hrun, -⟩ := @run_operator status [] stderr ⟨"", .nonInteractive⟩ _ _ hcode
    rw [h.run_lost (not_exists.mp hlost)] at hrun
    cases hrun
  · rintro (⟨code, h⟩ | h)
    · exact .of_delivered h
    · exact .of_unread h

/-- The command wrote the line itself, and the connection broke. -/
def imitatedStderr : Bytes := statusLine 0 ++ asBytes "client_loop: send disconnect: Broken pipe\x0D\n"

theorem remoteStatus_imitated : ¬ ∀ status stderr, SettlesSoundly status stderr := by
  intro h
  obtain ⟨code, ⟨hstatus, -⟩, -⟩ := (h (some 255) imitatedStderr).run_code ⟨"host", .nonInteractive⟩ false []
    ⟨some 0, [], []⟩ (by decide +kernel)
  exact absurd hstatus (by decide)

end Readers

end DeployCore
