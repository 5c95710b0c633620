import DeployCore.DiskBudget

/-! # The budget as a ledger

Every move of a holder does one of four things to the counters and to what the holder has of them: nothing, a
grant, the report of one, or a give-back. What the counters say of all holders together follows from these alone,
for any order of moves. -/

namespace DeployCore

/-- What a move does to the counters, to what its holder has of them and to the count it has yet to report. -/
inductive Counts (b : BudgetState) : Nat → Option Nat → BudgetState → Nat → Option Nat → Prop
  | nothing {held : Nat} {unreported : Option Nat} : Counts b held unreported b held unreported
  | took {held n : Nat} (h : n ≤ b.limit - b.used) :
    Counts b held none (b.withUsed (b.used + n)) (held + n) (some (b.used + n))
  | reported {held count : Nat} : Counts b held (some count) (b.fetchMax count) held none
  | gave {held n : Nat} (h : n ≤ held) : Counts b held none (b.fetchSub n) (held - n) none

section Counters
variable {b b' : BudgetState} {held held' n want : Nat} {unreported unreported' : Option Nat} {c : Charge}

@[simp] theorem BudgetState.limit_withUsed : (b.withUsed n).limit = b.limit := rfl
@[simp] theorem BudgetState.used_withUsed : (b.withUsed n).used = n := rfl
@[simp] theorem BudgetState.highWater_withUsed : (b.withUsed n).highWater = b.highWater := rfl

theorem BudgetState.used_fetchSub (h : n ≤ b.used) (hlt : b.used < 2 ^ 64) : (b.fetchSub n).used + n = b.used :=
  wrappingSub_add h hlt

@[simp] theorem BudgetState.limit_fetchSub : (b.fetchSub n).limit = b.limit := limit_withUsed
@[simp] theorem BudgetState.highWater_fetchSub : (b.fetchSub n).highWater = b.highWater := highWater_withUsed
@[simp] theorem BudgetState.limit_fetchMax : (b.fetchMax n).limit = b.limit := rfl
@[simp] theorem BudgetState.used_fetchMax : (b.fetchMax n).used = b.used := rfl

/-- A move changes the count by exactly what it changes of its holder, and never past the limit. -/
theorem Counts.used (h : Counts b held unreported b' held' unreported') (hheld : held ≤ b.used)
    (hle : b.used ≤ b.limit) (hlt : b.limit < 2 ^ 64) :
    b'.used + held = b.used + held' ∧ b'.used ≤ b.limit ∧ b'.limit = b.limit := by
  cases h with
  | nothing => exact ⟨rfl, hle, rfl⟩
  | took h =>
    rw [BudgetState.used_withUsed]
    exact ⟨by omega, by omega, BudgetState.limit_withUsed⟩
  | reported => exact ⟨rfl, hle, rfl⟩
  | gave h =>
    have hsub := BudgetState.used_fetchSub (h.trans hheld) (hle.trans_lt hlt)
    exact ⟨by omega, by omega, BudgetState.limit_fetchSub⟩

/-- A count that was to be reported is reported or passed by one that is, or still to be reported. -/
theorem Counts.reports (h : Counts b held unreported b' held' unreported') {count : Nat}
    (hcount : count = b.highWater ∨ unreported = some count) :
    ∃ count', (count' = b'.highWater ∨ unreported' = some count') ∧ count ≤ count' := by
  cases h with
  | nothing => exact ⟨count, hcount, le_rfl⟩
  | took =>
    rcases hcount with rfl | hcount
    · exact ⟨_, .inl rfl, le_rfl⟩
    · cases hcount
  | reported =>
    refine ⟨_, .inl rfl, ?_⟩
    rcases hcount with rfl | hcount
    · exact le_max_left ..
    · obtain rfl := Option.some.inj hcount
      exact le_max_right ..
  | gave =>
    rcases hcount with rfl | hcount
    · exact ⟨_, .inl BudgetState.highWater_fetchSub.symm, le_rfl⟩
    · cases hcount

/-- A count to be reported is the present one, or was to be reported before. -/
theorem Counts.told (h : Counts b held unreported b' held' unreported') {count : Nat}
    (hcount : count = b'.highWater ∨ unreported' = some count) :
    (count = b.highWater ∨ unreported = some count) ∨ count = b'.used := by
  cases h with
  | nothing => exact .inl hcount
  | took =>
    rcases hcount with rfl | hcount
    · exact .inl (.inl rfl)
    · exact .inr (Option.some.inj hcount).symm
  | reported =>
    rcases hcount with rfl | hcount
    · rcases max_choice b.highWater _ with hmax | hmax
      · exact .inl (.inl hmax)
      · exact .inl (.inr (congrArg some hmax.symm))
    · cases hcount
  | gave =>
    rcases hcount with rfl | hcount
    · exact .inl (.inl BudgetState.highWater_fetchSub)
    · cases hcount

/-- A count past the one before is to be reported. -/
theorem Counts.rises (h : Counts b held unreported b' held' unreported') (hheld : held ≤ b.used)
    (hlt : b.used < 2 ^ 64) : b'.used ≤ b.used ∨ unreported' = some b'.used := by
  cases h with
  | nothing => exact .inl le_rfl
  | took => exact .inr rfl
  | reported => exact .inl le_rfl
  | gave h =>
    have := BudgetState.used_fetchSub (h.trans hheld) hlt
    exact .inl (by omega)

theorem Charge.grow_cases :
    Charge.grow b want = (none, b) ∨
    ∃ n, n ≤ want ∧ n ≤ b.limit - b.used ∧
      Charge.grow b want = (some ⟨n, b.used + n⟩, (b.withUsed (b.used + n))) := by
  by_cases h : 0 < min want (b.limit - b.used)
  · refine .inr ⟨_, min_le_left .., min_le_right .., ?_⟩
    simp only [Charge.grow, BudgetState.tryUpdate, if_pos h]
  · simp only [Charge.grow, BudgetState.tryUpdate, if_neg h, true_or]

theorem Charge.shrink_eq (h : n ≤ c.bytes) : c.shrink b n = (⟨c.bytes - n⟩, b.fetchSub n) := by
  simp only [Charge.shrink, min_eq_left h]

end Counters

/-- What a writer counts is what its file holds, and its charge is that and whatever is reserved ahead of it. -/
def WriterPhase.Sound (w : SnapshotWriter) : WriterPhase → Prop
  | .ready _ => w.charge.bytes = w.len
  | .growing buf grant => w.charge.bytes = w.len ∧ grant.granted ≤ buf.length
  | .charged buf granted => w.charge.bytes = w.len + granted ∧ granted ≤ buf.length
  | .unsettled granted result =>
    SnapshotWriter.written result ≤ granted ∧
    w.charge.bytes + SnapshotWriter.written result = w.len + granted

structure SnapshotWriter.Counted (w : SnapshotWriter) : Prop where
  file : w.file = some w.hasher
  len : w.len = w.hasher.length

structure RetainedBytes.Counted (sha256 : Bytes → Bytes) (r : RetainedBytes) : Prop where
  len : r.len = r.file.length
  sha256 : r.sha256 = sha256 r.file
  charge : r.charge.bytes = r.len

def Holder.Sound (sha256 : Bytes → Bytes) : Holder → Prop
  | .writer w phase => w.Counted ∧ phase.Sound w
  | .retained r => r.Counted sha256
  | .charge .. => True
  | .gone _ => True

section Moves
variable {sha256 : Bytes → Bytes} {b b' : BudgetState} {m : BudgetMove} {holder holder' : Holder}
  {w : SnapshotWriter}

/-- A chunk that is charged for never overflows the length. -/
theorem SnapshotWriter.writeCharged_ok {chunk : Bytes} {written : Nat} (h : w.Counted)
    (hwritten : written ≤ chunk.length) (hlt : w.len + written < 2 ^ 64) :
    w.writeCharged chunk (.ok written) =
      (.ok written, { w with
        file := some (w.hasher ++ chunk.take written)
        hasher := w.hasher ++ chunk.take written
        len := w.len + written }) := by
  simp only [writeCharged, h.file, if_pos hwritten, if_pos hlt]

theorem SnapshotWriter.writeCharged_error {chunk : Bytes} {e : WriteFault} (h : w.Counted) :
    w.writeCharged chunk (.error e) = (.error e, w) := by
  simp only [writeCharged, h.file]

theorem SnapshotWriter.Counted.append {bytes : Bytes} (h : w.Counted) :
    ({ w with
        file := some (w.hasher ++ bytes)
        hasher := w.hasher ++ bytes
        len := w.len + bytes.length } : SnapshotWriter).Counted :=
  ⟨rfl, by simp only [List.length_append, h.len]⟩

theorem SnapshotWriter.Counted.charge {c : Charge} (h : w.Counted) : ({ w with charge := c } : SnapshotWriter).Counted :=
  ⟨h.file, h.len⟩

/-- A finished snapshot is what its writer counted. -/
theorem SnapshotWriter.finish_ok {answers : FinishAnswers} {r : RetainedBytes} (h : w.Counted)
    (hr : w.finish sha256 answers = .ok r) : r = ⟨w.hasher, w.len, sha256 w.hasher, w.charge⟩ := by
  obtain ⟨_ | _, _ | _, _ | ⟨_ | _, _ | actual⟩, _ | _⟩ := answers <;>
    simp only [finish, h.file, bind, Except.bind, Except.mapError, reduceCtorEq, Bool.not_true, Bool.not_false,
      if_true, if_false, Bool.false_eq_true] at hr
  split at hr
  · cases hr
  · exact (Except.ok.inj hr).symm

/-- The moves of a bare charge. -/
theorem Charge.act_counts {c : Charge} {growing : Option Grant}
    (h : (Holder.charge c growing).act sha256 m b = some (b', holder')) :
    Counts b (Holder.charge c growing).held (Holder.charge c growing).unreported b' holder'.held holder'.unreported ∧
      holder'.Sound sha256 := by
  rcases growing with - | grant
  · cases m with
    | grow want =>
      rcases @Charge.grow_cases b want with hgrow | ⟨n, -, hle, hgrow⟩ <;>
        · simp only [Holder.act, hgrow] at h
          obtain ⟨rfl, rfl⟩ := Prod.mk.inj (Option.some.inj h)
          exact ⟨by first | exact .nothing | exact .took hle, trivial⟩
    | shrink bytes =>
      obtain ⟨rfl, rfl⟩ := Prod.mk.inj (Option.some.inj h)
      exact ⟨.gave (min_le_right bytes c.bytes), trivial⟩
    | drop =>
      obtain ⟨rfl, rfl⟩ := Prod.mk.inj (Option.some.inj h)
      have hgave := @Counts.gave b c.bytes c.bytes le_rfl
      rw [Nat.sub_self] at hgave
      exact ⟨hgave, trivial⟩
    | _ => cases h
  · cases m with
    | grown =>
      obtain ⟨rfl, rfl⟩ := Prod.mk.inj (Option.some.inj h)
      exact ⟨.reported, trivial⟩
    | _ => cases h

/-- The moves of a writer that is inside a write. -/
theorem SnapshotWriter.act_counts {phase : WriterPhase} (hphase : ∀ last, phase ≠ .ready last)
    (hs : (Holder.writer w phase).Sound sha256) (hlt : w.charge.bytes < 2 ^ 64)
    (h : (Holder.writer w phase).act sha256 m b = some (b', holder')) :
    Counts b (Holder.writer w phase).held (Holder.writer w phase).unreported b' holder'.held holder'.unreported ∧
      holder'.Sound sha256 := by
  obtain ⟨hw, hs⟩ := hs
  cases phase with
  | ready last => exact absurd rfl (hphase last)
  | growing buf grant =>
    obtain ⟨hcharge, hle⟩ := hs
    cases m with
    | grown =>
      obtain ⟨rfl, rfl⟩ := Prod.mk.inj (Option.some.inj h)
      refine ⟨.reported, hw.charge, ?_, hle⟩
      show w.charge.bytes + grant.granted = w.len + grant.granted
      rw [hcharge]
    | _ => cases h
  | charged buf granted =>
    obtain ⟨hcharge, hle⟩ := hs
    cases m with
    | writeCharged answer =>
      have hlen : (buf.take granted).length = granted := List.length_take_of_le hle
      rcases answer with e | written
      · simp only [Holder.act, FileAnswers, if_true, writeCharged_error hw] at h
        obtain ⟨rfl, rfl⟩ := Prod.mk.inj (Option.some.inj h)
        exact ⟨.nothing, hw, Nat.zero_le _, hcharge⟩
      · by_cases hwritten : written ≤ granted
        · have hfits : written ≤ (buf.take granted).length := hwritten.trans_eq hlen.symm
          simp only [Holder.act, FileAnswers, decide_eq_true hfits, if_true,
            writeCharged_ok hw hfits (by omega)] at h
          obtain ⟨rfl, rfl⟩ := Prod.mk.inj (Option.some.inj h)
          have hcounted := @SnapshotWriter.Counted.append w ((buf.take granted).take written) hw
          rw [List.length_take_of_le hfits] at hcounted
          refine ⟨.nothing, hcounted, hwritten, ?_⟩
          show w.charge.bytes + written = w.len + written + granted
          omega
        · rw [← hlen] at hwritten
          simp only [Holder.act, FileAnswers, decide_eq_false hwritten, Bool.false_eq_true, if_false] at h
          cases h
    | _ => cases h
  | unsettled granted result =>
    obtain ⟨hle, hcharge⟩ := hs
    cases m with
    | settle =>
      have hshrink : granted - written result ≤ w.charge.bytes := by omega
      simp only [Holder.act, settle, Charge.shrink_eq hshrink] at h
      obtain ⟨rfl, rfl⟩ := Prod.mk.inj (Option.some.inj h)
      refine ⟨.gave hshrink, hw.charge, ?_⟩
      show w.charge.bytes - (granted - written result) = w.len
      omega
    | _ => cases h

/-- The moves of a writer between two writes. -/
theorem SnapshotWriter.ready_counts {last : Option (Except SnapshotWriteError Nat)}
    (hs : (Holder.writer w (.ready last)).Sound sha256)
    (h : (Holder.writer w (.ready last)).act sha256 m b = some (b', holder')) :
    Counts b w.charge.bytes none b' holder'.held holder'.unreported ∧ holder'.Sound sha256 := by
  obtain ⟨hw, hcharge⟩ := hs
  have hdrop := @Counts.gave b w.charge.bytes w.charge.bytes le_rfl
  rw [Nat.sub_self] at hdrop
  cases m with
  | write buf =>
    by_cases hbuf : buf = []
    · simp only [Holder.act, if_pos hbuf] at h
      obtain ⟨rfl, rfl⟩ := Prod.mk.inj (Option.some.inj h)
      exact ⟨.nothing, hw, hcharge⟩
    · rcases @Charge.grow_cases b buf.length with hgrow | ⟨n, hn, hle, hgrow⟩
      · simp only [Holder.act, if_neg hbuf, hgrow] at h
        obtain ⟨rfl, rfl⟩ := Prod.mk.inj (Option.some.inj h)
        exact ⟨.nothing, hw, hcharge⟩
      · simp only [Holder.act, if_neg hbuf, hgrow] at h
        obtain ⟨rfl, rfl⟩ := Prod.mk.inj (Option.some.inj h)
        exact ⟨.took hle, hw, hcharge, hn⟩
  | finish answers =>
    rcases hfinish : w.finish sha256 answers with e | r
    · simp only [Holder.act, hfinish] at h
      obtain ⟨rfl, rfl⟩ := Prod.mk.inj (Option.some.inj h)
      exact ⟨hdrop, trivial⟩
    · simp only [Holder.act, hfinish] at h
      obtain ⟨rfl, rfl⟩ := Prod.mk.inj (Option.some.inj h)
      obtain rfl := finish_ok hw hfinish
      exact ⟨.nothing, hw.len, rfl, hcharge⟩
  | drop =>
    obtain ⟨rfl, rfl⟩ := Prod.mk.inj (Option.some.inj h)
    exact ⟨hdrop, trivial⟩
  | _ => cases h

/-- A move does one of the four things to the counters, and leaves its holder sound. -/
theorem Holder.act_counts (hs : holder.Sound sha256) (hlt : holder.held < 2 ^ 64)
    (h : holder.act sha256 m b = some (b', holder')) :
    Counts b holder.held holder.unreported b' holder'.held holder'.unreported ∧ holder'.Sound sha256 := by
  cases holder with
  | charge c growing => exact Charge.act_counts h
  | writer w phase =>
    by_cases hphase : ∀ last, phase ≠ .ready last
    · refine SnapshotWriter.act_counts hphase hs (lt_of_le_of_lt ?_ hlt) h
      cases phase <;> simp [Holder.held]
    · obtain ⟨last, rfl⟩ := not_forall_not.mp hphase
      exact SnapshotWriter.ready_counts hs h
  | retained r =>
    cases m with
    | drop =>
      obtain ⟨rfl, rfl⟩ := Prod.mk.inj (Option.some.inj h)
      have hdrop := @Counts.gave b r.charge.bytes r.charge.bytes le_rfl
      rw [Nat.sub_self] at hdrop
      exact ⟨hdrop, trivial⟩
    | _ => cases h
  | gone error => cases m <;> cases h

end Moves

theorem Account.act_counts {sha256 : Bytes → Bytes} {b b' : BudgetState} {m : BudgetMove} {a a' : Account}
    (hs : a.holder.Sound sha256) (hlt : a.holder.held < 2 ^ 64) (h : a.act sha256 m b = some (b', a')) :
    Counts b a.holder.held a.holder.unreported b' a'.holder.held a'.holder.unreported ∧ a'.holder.Sound sha256 ∧
      a'.taken = a.taken + (b'.used - b.used) ∧ a'.given = a.given + (b.used - b'.used) := by
  obtain ⟨⟨b', holder'⟩, hholder, h⟩ := Option.map_eq_some_iff.mp h
  obtain ⟨rfl, rfl⟩ := Prod.mk.inj h
  obtain ⟨hcounts, hsound⟩ := Holder.act_counts hs hlt hholder
  exact ⟨hcounts, hsound, rfl, rfl⟩

/-- A count that the high-water mark holds, or that a holder has yet to report to it. -/
def Reports (p : Pool.State BudgetState Account) (count : Nat) : Prop :=
  count = p.shared.highWater ∨ ∃ a ∈ p.agents, a.holder.unreported = some count

/-- What the counters say of the holders and of the states the budget has passed through. -/
structure Accounted (sha256 : Bytes → Bytes) (limit : Nat) (visited : List (Pool.State BudgetState Account))
    (p : Pool.State BudgetState Account) : Prop where
  mem : p ∈ visited
  limit_eq : p.shared.limit = limit
  used_eq : p.shared.used = p.total (·.holder.held)
  used_le : p.shared.used ≤ limit
  passed : ∀ count, Reports p count → ∃ q ∈ visited, q.shared.used = count
  peak : ∀ q ∈ visited, ∃ count, Reports p count ∧ q.shared.used ≤ count
  sound : ∀ a ∈ p.agents, a.holder.Sound sha256
  settled : ∀ a ∈ p.agents, a.taken = a.given + a.holder.held

section Runs
variable {sha256 : Bytes → Bytes} {limit : Nat} {visited : List (Pool.State BudgetState Account)}
  {p p' : Pool.State BudgetState Account}

theorem Accounted.new : Accounted sha256 limit [⟨DiskBudget.new limit, []⟩] ⟨DiskBudget.new limit, []⟩ where
  mem := List.mem_singleton_self _
  limit_eq := rfl
  used_eq := rfl
  used_le := Nat.zero_le _
  passed := by
    rintro count (rfl | ⟨a, ha, -⟩)
    · exact ⟨_, List.mem_singleton_self _, rfl⟩
    · exact absurd ha List.not_mem_nil
  peak := by
    intro q hq
    obtain rfl := List.mem_singleton.mp hq
    exact ⟨0, .inl rfl, le_rfl⟩
  sound := fun _ ha => absurd ha List.not_mem_nil
  settled := fun _ ha => absurd ha List.not_mem_nil

/-- What holds of an account that has just been opened. -/
theorem BudgetUser.opens_new (user : BudgetUser) :
    user.opens.holder.held = 0 ∧ user.opens.holder.unreported = none ∧ user.opens.holder.Sound sha256 ∧
      user.opens.taken = user.opens.given + user.opens.holder.held := by
  cases user with
  | charge => exact ⟨rfl, rfl, trivial, rfl⟩
  | writer path => exact ⟨rfl, rfl, ⟨⟨rfl, rfl⟩, rfl⟩, rfl⟩

theorem Accounted.join (h : Accounted sha256 limit visited p) (user : BudgetUser) :
    Accounted sha256 limit (p.join user.opens :: visited) (p.join user.opens) := by
  obtain ⟨hheld, hunreported, hsound, hsettled⟩ := @BudgetUser.opens_new sha256 user
  have hreports {count : Nat} : Reports (p.join user.opens) count ↔ Reports p count := by
    refine or_congr_right ⟨?_, ?_⟩
    · rintro ⟨a, ha, hcount⟩
      rcases Pool.State.mem_join.mp ha with ha | rfl
      · exact ⟨a, ha, hcount⟩
      · rw [hunreported] at hcount
        cases hcount
    · rintro ⟨a, ha, hcount⟩
      exact ⟨a, Pool.State.mem_join.mpr (.inl ha), hcount⟩
  refine ⟨List.mem_cons_self .., h.limit_eq, ?_, h.used_le, fun count hcount => ?_, fun q hq => ?_, fun a ha => ?_, fun a ha => ?_⟩
  · rw [Pool.State.total_join, hheld, Nat.add_zero]
    exact h.used_eq
  · obtain ⟨q, hq, hused⟩ := h.passed count (hreports.mp hcount)
    exact ⟨q, List.mem_cons_of_mem _ hq, hused⟩
  · rcases List.mem_cons.mp hq with rfl | hq
    · obtain ⟨count, hcount, hle⟩ := h.peak p h.mem
      exact ⟨count, hreports.mpr hcount, hle⟩
    · obtain ⟨count, hcount, hle⟩ := h.peak q hq
      exact ⟨count, hreports.mpr hcount, hle⟩
  · rcases Pool.State.mem_join.mp ha with ha | rfl
    · exact h.sound a ha
    · exact hsound
  · rcases Pool.State.mem_join.mp ha with ha | rfl
    · exact h.settled a ha
    · exact hsettled

theorem Accounted.moved {i : Nat} {a : Account} {m : BudgetMove} {b' : BudgetState} {a' : Account}
    (h : Accounted sha256 limit visited p) (hlimit : limit < 2 ^ 64) (ha : p.agents[i]? = some a)
    (hact : a.act sha256 m p.shared = some (b', a')) :
    Accounted sha256 limit (p.moved i b' a' :: visited) (p.moved i b' a') := by
  have hmem : a ∈ p.agents := List.mem_of_getElem? ha
  have hheld : a.holder.held ≤ p.shared.used := h.used_eq ▸ @Pool.State.le_total _ _ p (·.holder.held) i a ha
  have hle : p.shared.used ≤ p.shared.limit := h.limit_eq.symm ▸ h.used_le
  have hlt : p.shared.limit < 2 ^ 64 := h.limit_eq.symm ▸ hlimit
  obtain ⟨hcounts, hsound, htaken, hgiven⟩ := Account.act_counts (h.sound a hmem) (by omega) hact
  obtain ⟨hused, hwithin, hsame⟩ := hcounts.used hheld hle hlt
  have hkept {count : Nat} (hcount : Reports p count) : ∃ count', Reports (p.moved i b' a') count' ∧ count ≤ count' := by
    rcases hcount with hcount | ⟨c, hc, hcount⟩
    · obtain ⟨count', hcount' | hcount', hle⟩ := hcounts.reports (.inl hcount)
      · exact ⟨count', .inl hcount', hle⟩
      · exact ⟨count', .inr ⟨_, Pool.State.moved_mem ha, hcount'⟩, hle⟩
    · rcases Pool.State.mem_moved_of_mem ha hc with rfl | hc
      · obtain ⟨count', hcount' | hcount', hle⟩ := hcounts.reports (.inr hcount)
        · exact ⟨count', .inl hcount', hle⟩
        · exact ⟨count', .inr ⟨_, Pool.State.moved_mem ha, hcount'⟩, hle⟩
      · exact ⟨count, .inr ⟨c, hc, hcount⟩, le_rfl⟩
  refine ⟨List.mem_cons_self .., hsame.trans h.limit_eq, ?_, h.limit_eq ▸ hwithin, fun count hcount => ?_,
    fun q hq => ?_, fun c hc => ?_, fun c hc => ?_⟩
  · have htotal := @Pool.State.total_moved _ _ p (·.holder.held) i b' a a' ha
    have := h.used_eq
    show b'.used = _
    omega
  · have hpast : Reports p count ∨ count = b'.used := by
      rcases hcount with hcount | ⟨c, hc, hcount⟩
      · exact (hcounts.told (.inl hcount)).imp_left (Or.imp_right fun hcount => ⟨a, hmem, hcount⟩)
      · rcases Pool.State.mem_moved hc with hc | rfl
        · exact .inl (.inr ⟨c, hc, hcount⟩)
        · exact (hcounts.told (.inr hcount)).imp_left (Or.imp_right fun hcount => ⟨a, hmem, hcount⟩)
    rcases hpast with hcount | rfl
    · obtain ⟨q, hq, hused⟩ := h.passed count hcount
      exact ⟨q, List.mem_cons_of_mem _ hq, hused⟩
    · exact ⟨_, List.mem_cons_self .., rfl⟩
  · have hbelow {used : Nat} (hused : ∃ count, Reports p count ∧ used ≤ count) :
        ∃ count, Reports (p.moved i b' a') count ∧ used ≤ count := by
      obtain ⟨count, hcount, hle⟩ := hused
      obtain ⟨count', hcount', hle'⟩ := hkept hcount
      exact ⟨count', hcount', hle.trans hle'⟩
    rcases List.mem_cons.mp hq with rfl | hq
    · rcases hcounts.rises hheld (by omega) with hrises | hrises
      · obtain ⟨count, hcount, hle⟩ := h.peak p h.mem
        exact hbelow ⟨count, hcount, hrises.trans hle⟩
      · exact ⟨b'.used, .inr ⟨_, Pool.State.moved_mem ha, hrises⟩, le_rfl⟩
    · exact hbelow (h.peak q hq)
  · rcases Pool.State.mem_moved hc with hc | rfl
    · exact h.sound c hc
    · exact hsound
  · rcases Pool.State.mem_moved hc with hc | rfl
    · exact h.settled c hc
    · have := h.settled a hmem
      omega

theorem Accounted.of_passes (hlimit : limit < 2 ^ 64)
    (h : Pool.Passes (budgetHolders sha256) ⟨DiskBudget.new limit, []⟩ visited p) :
    Accounted sha256 limit visited p := by
  induction h with
  | start => exact .new
  | step h e hs ih =>
    rcases Pool.System.step_cases hs with ⟨user, -, rfl⟩ | ⟨i, m, a, b', a', -, ha, hact, rfl⟩
    · exact ih.join user
    · exact ih.moved hlimit ha hact

theorem WriterPhase.Sound.len_le {w : SnapshotWriter} {phase : WriterPhase} (h : phase.Sound w) :
    w.len ≤ w.charge.bytes := by
  cases phase with
  | ready last => exact h.ge
  | growing buf grant => exact h.1.ge
  | charged buf granted => exact h.1.symm ▸ Nat.le_add_right ..
  | unsettled granted result =>
    obtain ⟨hle, hcharge⟩ := h
    omega

/-- In any order of the steps of any charges and writers, the count is what they all hold, within the limit and no
less than what any of them may give back; the high-water mark is a count the budget had, and the highest when no
`grow` is between its two updates; a writer's digest and length are of the bytes that landed, and between two writes
so is its charge; and what is dropped, or fails to finish, has given back all it took. -/
theorem diskBudget_accounts (hlimit : limit < 2 ^ 64)
    (h : Pool.Passes (budgetHolders sha256) ⟨DiskBudget.new limit, []⟩ visited p) :
    p.shared.used = p.total (·.holder.held) ∧ p.shared.used ≤ limit ∧
    (∀ a ∈ p.agents, a.holder.held ≤ p.shared.used) ∧
    (∃ q ∈ visited, q.shared.used = p.shared.highWater) ∧
    ((∀ a ∈ p.agents, a.holder.unreported = none) → ∀ q ∈ visited, q.shared.used ≤ p.shared.highWater) ∧
    (∀ a ∈ p.agents, ∀ w phase, a.holder = .writer w phase →
      w.file = some w.hasher ∧ w.len = w.hasher.length ∧ w.len ≤ w.charge.bytes ∧
      ∀ last, phase = .ready last → w.charge.bytes = w.len) ∧
    (∀ a ∈ p.agents, ∀ r, a.holder = .retained r →
      r.charge.bytes = r.file.length ∧ r.len = r.file.length ∧ r.sha256 = sha256 r.file) ∧
    ∀ a ∈ p.agents, a.taken = a.given + a.holder.held ∧ ∀ e, a.holder = .gone e → a.taken = a.given := by
  have hp := Accounted.of_passes hlimit h
  refine ⟨hp.used_eq, hp.used_le, fun a ha => ?_, hp.passed _ (.inl rfl), fun hreported q hq => ?_,
    fun a ha w phase hw => ?_, fun a ha r hr => ?_, fun a ha => ⟨hp.settled a ha, fun e he => ?_⟩⟩
  · obtain ⟨i, hi⟩ := List.mem_iff_getElem?.mp ha
    exact hp.used_eq ▸ @Pool.State.le_total _ _ p (·.holder.held) i a hi
  · obtain ⟨count, rfl | ⟨a, ha, hcount⟩, hle⟩ := hp.peak q hq
    · exact hle
    · rw [hreported a ha] at hcount
      cases hcount
  · have hsound := hp.sound a ha
    rw [hw] at hsound
    obtain ⟨hcounted, hphase⟩ := hsound
    refine ⟨hcounted.file, hcounted.len, hphase.len_le, ?_⟩
    rintro last rfl
    exact hphase
  · have hsound := hp.sound a ha
    rw [hr] at hsound
    exact ⟨hsound.charge.trans hsound.len, hsound.len, hsound.sha256⟩
  · have hsettled := hp.settled a ha
    rwa [he] at hsettled

/-- Two writers on ten bytes: one has written three of its four bytes and is refused the rest, the other is still
to write its seven. -/
def sharedBudget : List (Pool.Event BudgetUser BudgetMove) :=
  [.acts 0 (.write [3]), .acts 1 .grown, .acts 0 .settle, .acts 1 (.write [4, 5, 6, 7, 8, 9, 10, 11]),
    .acts 0 (.writeCharged (.ok 3)), .acts 0 .grown, .acts 0 (.write [0, 1, 2, 3]), .joins (.writer "b"),
    .joins (.writer "a")]

theorem diskBudget_accounts_sharedBudget :
    (((budgetHolders fun _ => []).run ⟨DiskBudget.new 10, []⟩ sharedBudget).map fun r => r.2.shared.used) = some 10 ∧
    ∀ r, (budgetHolders fun _ => []).run ⟨DiskBudget.new 10, []⟩ sharedBudget = some r →
      r.2.shared.used = r.2.total (·.holder.held) ∧ r.2.shared.used ≤ 10 := by
  refine ⟨by with_unfolding_all rfl, fun r hr => ?_⟩
  obtain ⟨hused, hle, -⟩ := diskBudget_accounts (by decide) (Pool.Passes.of_run hr)
  exact ⟨hused, hle⟩

/-- Between the two updates of a `grow` the high-water mark is behind, and a charged chunk is not yet written. -/
theorem diskBudget_grow_between :
    ¬ (∀ sha256 limit visited p, limit < 2 ^ 64 →
      Pool.Passes (budgetHolders sha256) ⟨DiskBudget.new limit, []⟩ visited p →
      ∀ q ∈ visited, q.shared.used ≤ p.shared.highWater) ∧
    ¬ ∀ sha256 limit visited p, limit < 2 ^ 64 →
      Pool.Passes (budgetHolders sha256) ⟨DiskBudget.new limit, []⟩ visited p →
      ∀ a ∈ p.agents, ∀ w phase, a.holder = .writer w phase → w.charge.bytes = w.len := by
  constructor
  · intro h
    have hrun := @Pool.Passes.of_run _ _ _ _ (budgetHolders fun _ => []) _ ⟨DiskBudget.new 1, []⟩ _
      [.acts 0 (.grow 1), .joins .charge] rfl
    exact absurd (h _ 1 _ _ (by decide) hrun _ (List.mem_cons_self ..)) (by decide)
  · intro h
    have hrun := @Pool.Passes.of_run _ _ _ _ (budgetHolders fun _ => []) _ ⟨DiskBudget.new 1, []⟩ _
      [.acts 0 .grown, .acts 0 (.write [0]), .joins (.writer "")] rfl
    exact absurd (h _ 1 _ _ (by decide) hrun _ (List.mem_cons_self ..) _ _ rfl) (by decide)

end Runs

end DeployCore
