import DeployCore.RemoteVerdict

/-! # What an elevated run leaves of its standard error

The transport's text ends with the sentinel, and over SSH the command's own bytes end at the wrapper's line: what lies
between the two is the command's, whatever it holds. -/

namespace DeployCore

section
variable {transport own trailing : Bytes} {code : Nat}

/-- Behind the wrapper's line stands no other, so the last marker is the line's. -/
theorem extractRemoteCode_trailed (hcode : code < 2 ^ 31) (htrailing : ¬ RC_MARKER <:+: trailing) :
    extractRemoteCode (own ++ statusLine code ++ trailing) = some (own.length + 1, (code : Int)) := by
  have hrest : ¬ RC_MARKER <:+: 10 :: trailing := by
    intro h
    have h : RC_MARKER <:+: [] ++ 10 :: trailing := h
    rcases Occurs.infix_append_cons notMem_rc_marker h with h | h
    · exact rc_marker_bytes.2.2.2.2.1 h
    · exact htrailing h
  have hfront := @extractRemoteCode_front _ (10 :: trailing) _ (parseI32_write hcode) (.inr rfl) hrest
  have hline := extractRemoteCode_append (a := own ++ [10]) hfront
  rw [List.length_append, List.length_singleton] at hline
  simpa [statusLine] using hline

/-- The wrapper's line is cut off, with the newline ahead of it and all that follows it. -/
theorem settleRemoteCode_trailed {host : String} {status : ProcessStatus} {stdout : Bytes} (hcode : code < 2 ^ 31)
    (htrailing : ¬ RC_MARKER <:+: trailing) :
    settleRemoteCode host ⟨status, stdout, own ++ statusLine code ++ trailing⟩ = .ok ⟨some (code : Int), stdout, own⟩ := by
  have hbefore : (own ++ statusLine code ++ trailing)[own.length + 1 - 1]? = some 10 := by
    simp [statusLine, List.append_assoc]
  simp only [settleRemoteCode, extractRemoteCode_trailed hcode htrailing]
  rw [if_pos ⟨Nat.succ_pos _, hbefore⟩, Nat.add_sub_cancel, List.append_assoc, List.take_left]

theorem takeSudoSentinel_first (h : Occurs.first SUDO_OK_SENTINEL (transport ++ SUDO_OK_SENTINEL) = some transport.length) :
    takeSudoSentinel (transport ++ SUDO_OK_SENTINEL ++ own) = (own, true) := by
  simp only [takeSudoSentinel, Occurs.first_append h]
  rw [← List.length_append, List.drop_left]

theorem takeSudoSentinel_absent (h : ¬ SUDO_OK_SENTINEL <:+: own) : takeSudoSentinel own = (own, false) := by
  have hne : SUDO_OK_SENTINEL ≠ [] := List.ne_nil_of_mem mem_sudo_ok_sentinel
  simp only [takeSudoSentinel, (Occurs.first_eq_none hne).mpr h]

theorem classifyElevation_started {status : ProcessStatus} {stdout : Bytes} {auth : Option SudoAuth} {host : String}
    (h : Occurs.first SUDO_OK_SENTINEL (transport ++ SUDO_OK_SENTINEL) = some transport.length) :
    classifyElevation ⟨status, stdout, transport ++ SUDO_OK_SENTINEL ++ own⟩ auth host = .ok ⟨status, stdout, own⟩ := by
  simp only [classifyElevation, takeSudoSentinel_first h]

theorem classifyElevation_absent {output : CommandOutput} {auth : Option SudoAuth} {host : String}
    (h : ¬ SUDO_OK_SENTINEL <:+: output.stderr) :
    classifyElevation output auth host = .error (elevationRefusal output.stderr auth host) := by
  simp only [classifyElevation, takeSudoSentinel_absent h]

/-- What settling leaves of a standard error is a front of it. -/
theorem settleRemoteCode_kept {host : String} {output settled : CommandOutput}
    (h : settleRemoteCode host output = .ok settled) : settled.stderr <+: output.stderr := by
  rcases hread : extractRemoteCode output.stderr with _ | ⟨pos, code⟩
  · rw [settleRemoteCode_none hread] at h
    cases h
  · simp only [settleRemoteCode, hread, Except.ok.injEq] at h
    rw [← h]
    exact List.take_prefix _ _

/-- An elevated command is given exactly its own bytes and code, over SSH and on the local machine; without the sentinel
its run is an elevation refusal, and no output at all. -/
theorem elevatedStderr_settles (ssh : SshExecutor) (status : ProcessStatus) (stdout : Bytes) :
    (∀ transport own trailing code, code < 2 ^ 31 → ¬ RC_MARKER <:+: trailing →
      Occurs.first SUDO_OK_SENTINEL (transport ++ SUDO_OK_SENTINEL) = some transport.length →
      ssh.run true status stdout (transport ++ SUDO_OK_SENTINEL ++ own ++ statusLine code ++ trailing) =
        .ok ⟨some (code : Int), stdout, own⟩) ∧
    (∀ transport trailing code, code < 2 ^ 31 → ¬ RC_MARKER <:+: trailing → ¬ SUDO_OK_SENTINEL <:+: transport →
      ssh.run true status stdout (transport ++ statusLine code ++ trailing) =
        .error (elevationRefusal transport (some ssh.auth) ssh.host)) ∧
    (∀ stderr, ¬ SUDO_OK_SENTINEL <:+: stderr → ∀ out, ssh.run true status stdout stderr ≠ .ok out) ∧
    (∀ transport own auth host,
      Occurs.first SUDO_OK_SENTINEL (transport ++ SUDO_OK_SENTINEL) = some transport.length →
      classifyElevation ⟨status, stdout, transport ++ SUDO_OK_SENTINEL ++ own⟩ auth host = .ok ⟨status, stdout, own⟩) ∧
    ∀ output auth host, ¬ SUDO_OK_SENTINEL <:+: output.stderr →
      classifyElevation output auth host = .error (elevationRefusal output.stderr auth host) := by
  refine ⟨?_, ?_, ?_, fun _ _ _ _ h => classifyElevation_started h, fun _ _ _ h => classifyElevation_absent h⟩
  · intro transport own trailing code hcode htrailing hfirst
    rw [SshExecutor.run, settleRemoteCode_trailed hcode htrailing, Checks.ok_bind, if_pos rfl,
      classifyElevation_started hfirst]
  · intro transport trailing code hcode htrailing habsent
    rw [SshExecutor.run, settleRemoteCode_trailed hcode htrailing, Checks.ok_bind, if_pos rfl,
      classifyElevation_absent habsent]
  · intro stderr habsent out hrun
    obtain ⟨settled, hsettled, hout⟩ := Checks.bind_ok hrun
    have hinfix := (settleRemoteCode_kept hsettled).isInfix
    rw [if_pos rfl, classifyElevation_absent fun h => habsent (h.trans hinfix)] at hout
    cases hout

/-- A command's text that holds the sentinel and an exit-status line of its own. -/
def imitatingOwn : Bytes := SUDO_OK_SENTINEL ++ statusLine 0 ++ RC_MARKER

theorem elevatedStderr_settles_imitating :
    (SshExecutor.mk "host" .nonInteractive).run true (some 0) []
      (asBytes "banner\n" ++ SUDO_OK_SENTINEL ++ imitatingOwn ++ statusLine 7 ++ asBytes "Connection closed.\n") =
      .ok ⟨some 7, [], imitatingOwn⟩ :=
  (elevatedStderr_settles ⟨"host", .nonInteractive⟩ (some 0) []).1 _ imitatingOwn _ 7 (by decide) (by decide +kernel)
    (by decide +kernel)

end

end DeployCore
