import DeployCore.BudgetLedger
import DeployCore.ReadBounded

/-! # A snapshot of a source (`src/retain.rs`)

`snapshot_from` copies a source into a new snapshot under a maximum length and the disk budget. The source and the
storage are any machines that answer requests; a call still retrying interruptions when `fuel` runs out has no outcome
yet. What the source gives is counted as it is put into the caller's buffer. -/

namespace DeployCore

/-- What `snapshot_from` fails with. -/
inductive SnapshotError
  | sourceTooLong (maxLen : Nat)
  | readSource (source : ReadError)
  /-- "source reported more bytes than it was asked for". -/
  | overread
  | createSnapshot (path : String) (source : IoError)
  | writer (error : RetentionError)

/-- What the operating system answers for the snapshot file: to its creation, to each write, and to the system calls of
`finish` when it holds so many bytes. -/
structure Storage (τ : Type) where
  create : Except IoError Unit
  write : τ → Bytes → Except WriteFault Nat × τ
  finish : τ → Nat → FinishAnswers

/-- A copy under way, with the bytes taken from the source so far. -/
structure Copying (σ τ : Type) where
  source : σ
  storage : τ
  writer : SnapshotWriter
  budget : BudgetState
  taken : Nat

/-- How a copy ended, unless it has not yet, with the budget it leaves. -/
structure Snapshotted where
  outcome : Option (Except SnapshotError RetainedBytes)
  budget : BudgetState
  taken : Nat

/-- `io::ErrorKind::WriteZero`, which no system call reports. -/
def WRITE_ZERO : IoError := .os (.other 256)

section Copy
variable {σ τ : Type}

/-- `read_source`. -/
def readSource (answers : Answers σ) : Nat → σ → Nat → Option (Except ReadError Bytes) × σ
  | 0, source, _ => (none, source)
  | fuel + 1, source, len =>
    match answers source len with
    | (.ok bytes, source) => (some (.ok bytes), source)
    | (.interrupted, source) => readSource answers fuel source len
    | (.error err, source) => (some (.error err), source)

namespace Copying

/-- `SnapshotWriter::write`, its steps taken one after the other. -/
def write (os : Storage τ) (c : Copying σ τ) (buf : Bytes) : Except SnapshotWriteError Nat × Copying σ τ :=
  if buf = [] then (.ok 0, c)
  else
    match Charge.grow c.budget buf.length with
    | (none, budget) => (.error (.retention (.budgetExceeded budget.limit)), { c with budget })
    | (some grant, budget) =>
      let (charge, budget) := c.writer.charge.grown budget grant
      let (answer, storage) := os.write c.storage (buf.take grant.granted)
      let (result, writer) := { c.writer with charge }.writeCharged (buf.take grant.granted) answer
      let (answer, writer, budget) := writer.settle budget grant.granted result
      (answer, { c with storage, writer, budget })

/-- `Write::write_all`. -/
def writeAll (os : Storage τ) : Nat → Copying σ τ → Bytes → Option (Except RetentionError Unit) × Copying σ τ
  | 0, c, _ => (none, c)
  | fuel + 1, c, buf =>
    if buf = [] then (some (.ok ()), c)
    else
      match c.write os buf with
      | (.ok 0, c) => (some (.error (c.writer.fail .writeSnapshot WRITE_ZERO)), c)
      | (.ok (n + 1), c) => writeAll os fuel c (buf.drop (n + 1))
      | (.error .interrupted, c) => writeAll os fuel c buf
      | (.error (.retention e), c) => (some (.error e), c)

def read (answers : Answers σ) (fuel : Nat) (c : Copying σ τ) (len : Nat) :
    Option (Except ReadError Bytes) × Copying σ τ :=
  match readSource answers fuel c.source len with
  | (some (.ok bytes), source) => (some (.ok bytes), { c with source, taken := c.taken + min bytes.length len })
  | (reply, source) => (reply, { c with source })

/-- The return: on an error the writer is dropped, and its charge with it. -/
def ends (c : Copying σ τ) : Except SnapshotError RetainedBytes → Snapshotted
  | .ok bytes => ⟨some (.ok bytes), c.budget, c.taken⟩
  | .error e => ⟨some (.error e), c.writer.charge.drop c.budget, c.taken⟩

def finish (sha256 : Bytes → Bytes) (os : Storage τ) (c : Copying σ τ) : Snapshotted :=
  c.ends ((c.writer.finish sha256 (os.finish c.storage (c.writer.file.getD []).length)).mapError .writer)

/-- A copy that has not ended. -/
def goesOn (c : Copying σ τ) : Snapshotted := ⟨none, c.budget, c.taken⟩

end Copying

variable (sha256 : Bytes → Bytes) (answers : Answers σ) (os : Storage τ) (copyBuffer : ℕ+) (maxLen : Nat)

/-- The loop, `total` bytes into the source. -/
def snapshotLoop : Nat → Copying σ τ → Nat → Snapshotted
  | 0, c, _ => c.goesOn
  | fuel + 1, c, total =>
    let remaining := maxLen - total
    if remaining = 0 then
      match c.read answers fuel 1 with
      | (none, c) => c.goesOn
      | (some (.error e), c) => c.ends (.error (.readSource e))
      | (some (.ok []), c) => c.finish sha256 os
      | (some (.ok (_ :: _)), c) => c.ends (.error (.sourceTooLong maxLen))
    else
      let want := min remaining copyBuffer
      match c.read answers fuel want with
      | (none, c) => c.goesOn
      | (some (.error e), c) => c.ends (.error (.readSource e))
      | (some (.ok []), c) => c.finish sha256 os
      | (some (.ok (byte :: bytes)), c) =>
        if want < (byte :: bytes).length then c.ends (.error .overread)
        else
          match c.writeAll os fuel (byte :: bytes) with
          | (none, c) => c.goesOn
          | (some (.error e), c) => c.ends (.error (.writer e))
          | (some (.ok ()), c) => snapshotLoop fuel c (total + (byte :: bytes).length)

def snapshotFrom (fuel : Nat) (source : σ) (storage : τ) (budget : BudgetState) (path : String) : Snapshotted :=
  match os.create with
  | .error e => ⟨some (.error (.createSnapshot path e)), budget, 0⟩
  | .ok () =>
    snapshotLoop sha256 answers os copyBuffer maxLen fuel
      ⟨source, storage, ⟨path, some [], [], 0, ⟨0⟩⟩, budget, 0⟩ 0

end Copy

/-! ## One write -/

namespace Copying
variable {σ τ : Type} {b : BudgetState} {c : Copying σ τ} {os : Storage τ} {done buf : Bytes}

/-- What a copy has charged is its own, and all that the budget has more than at the start. -/
structure Held (b : BudgetState) (c : Copying σ τ) : Prop where
  limit : c.budget.limit = b.limit
  used : c.budget.used = b.used + c.writer.charge.bytes
  le : c.budget.used ≤ b.limit

/-- The copy holds `done`, charged to the byte. -/
structure Copied (b : BudgetState) (done : Bytes) (c : Copying σ τ) : Prop where
  held : c.Held b
  counted : c.writer.Counted
  hasher : c.writer.hasher = done
  charge : c.writer.charge.bytes = done.length

theorem Copied.len (h : c.Copied b done) : c.writer.len = done.length := by
  rw [h.counted.len, h.hasher]

theorem Held.dropped (h : c.Held b) (hlt : b.limit < 2 ^ 64) :
    (c.writer.charge.drop c.budget).used = b.used ∧ (c.writer.charge.drop c.budget).limit = b.limit := by
  have hused := h.used
  have hsub := BudgetState.used_fetchSub (b := c.budget) (n := c.writer.charge.bytes) (by omega) (h.le.trans_lt hlt)
  exact ⟨Nat.add_right_cancel (hsub.trans hused), BudgetState.limit_fetchSub.trans h.limit⟩

/-- Where nothing of the budget is left, the write is refused. -/
theorem write_full (h : c.Copied b done) (hbuf : buf ≠ []) (hfull : b.limit = b.used + done.length) :
    c.write os buf = (.error (.retention (.budgetExceeded b.limit)), c) := by
  have hused := h.held.used
  have hlimit := h.held.limit
  have hcharge := h.charge
  have hgrow : Charge.grow c.budget buf.length = (none, c.budget) := by
    rw [Charge.grow, BudgetState.tryUpdate]
    simp only [if_neg (show ¬0 < min buf.length (c.budget.limit - c.budget.used) by omega)]
  rw [write, if_neg hbuf, hgrow]
  simp only [hlimit]

/-- The writer and the budget between the grant and the write. -/
theorem grow_room {want granted : Nat} (hgranted : granted = min want (b.limit - b.used)) (hpos : 0 < granted) :
    Charge.grow b want = (some ⟨granted, b.used + granted⟩, b.withUsed (b.used + granted)) := by
  subst hgranted
  rw [Charge.grow, BudgetState.tryUpdate]
  simp only [if_pos hpos]

/-- What a write comes to once its result is settled. -/
def settled (w : SnapshotWriter) : Except WriteFault Nat → Except SnapshotWriteError Nat
  | .ok n => .ok n
  | .error .interrupted => .error .interrupted
  | .error (.other e) => .error (.retention (w.fail .writeSnapshot e))

theorem settle_eq {w : SnapshotWriter} {granted : Nat} {result : Except WriteFault Nat} {budget : BudgetState}
    (h : granted - SnapshotWriter.written result ≤ w.charge.bytes) :
    w.settle budget granted result =
      (settled w result, { w with charge := ⟨w.charge.bytes - (granted - SnapshotWriter.written result)⟩ },
        budget.fetchSub (granted - SnapshotWriter.written result)) := by
  rcases result with (_ | e) | n <;> simp only [SnapshotWriter.settle, Charge.shrink_eq h, settled]

/-- The result of a charged write, the writer and the charge it leaves with its grant. -/
structure Charged (b : BudgetState) (done buf : Bytes) (granted : Nat) (answer result : Except WriteFault Nat)
    (w : SnapshotWriter) : Prop where
  charge : w.charge.bytes = done.length + granted
  outcome : (∃ n ≤ granted, answer = .ok n ∧ result = .ok n ∧ w.Counted ∧ w.hasher = done ++ buf.take n) ∨
    (answer = .error .interrupted ∧ result = .error .interrupted ∧ w.Counted ∧ w.hasher = done) ∨
    ((∀ n ≤ granted, answer ≠ .ok n) ∧ answer ≠ .error .interrupted ∧ ∃ e, result = .error (.other e))

theorem writeCharged_charged {granted : Nat} {answer : Except WriteFault Nat} (h : c.Copied b done)
    (hgranted : granted ≤ buf.length) (hlt : done.length + granted < 2 ^ 64) :
    Charged b done buf granted answer
      ({ c.writer with charge := ⟨c.writer.charge.bytes + granted⟩ }.writeCharged (buf.take granted) answer).1
      ({ c.writer with charge := ⟨c.writer.charge.bytes + granted⟩ }.writeCharged (buf.take granted) answer).2 := by
  have hcounted : ({ c.writer with charge := ⟨c.writer.charge.bytes + granted⟩ } : SnapshotWriter).Counted :=
    h.counted.charge
  have hlen : c.writer.len = done.length := h.len
  have htake : (buf.take granted).length = granted := List.length_take_of_le hgranted
  have hcharge : c.writer.charge.bytes + granted = done.length + granted := by rw [h.charge]
  rcases answer with (_ | e) | n
  · rw [SnapshotWriter.writeCharged_error hcounted]
    exact ⟨hcharge, .inr (.inl ⟨rfl, rfl, hcounted, h.hasher⟩)⟩
  · rw [SnapshotWriter.writeCharged_error hcounted]
    exact ⟨hcharge, .inr (.inr ⟨by simp, by simp, e, rfl⟩)⟩
  · by_cases hn : n ≤ granted
    · rw [SnapshotWriter.writeCharged_ok hcounted (by omega) (by show c.writer.len + n < _; omega)]
      refine ⟨hcharge, .inl ⟨n, hn, rfl, rfl, ?_, ?_⟩⟩
      · have hwritten : ((buf.take granted).take n).length = n := List.length_take_of_le (by omega)
        have := @SnapshotWriter.Counted.append _ ((buf.take granted).take n) hcounted
        rwa [hwritten] at this
      · show c.writer.hasher ++ (buf.take granted).take n = _
        rw [h.hasher, List.take_take, Nat.min_eq_left hn]
    · have hover : ¬n ≤ (buf.take granted).length := by omega
      have hfile : c.writer.file = some c.writer.hasher := h.counted.file
      simp only [SnapshotWriter.writeCharged, hfile, if_neg hover]
      refine ⟨hcharge, .inr (.inr ⟨fun m hm he => ?_, by simp, _, rfl⟩)⟩
      cases he
      exact hn hm

/-- A write where something of the budget is left: what lands is charged, and nothing else stays so. -/
theorem write_room {granted : Nat} {answer : Except WriteFault Nat} {storage : τ} (hlt : b.limit < 2 ^ 64)
    (h : c.Copied b done) (hgranted : granted = min buf.length (b.limit - (b.used + done.length))) (hpos : 0 < granted)
    (hanswer : os.write c.storage (buf.take granted) = (answer, storage)) :
    ∃ r c', c.write os buf = (r, c') ∧ c'.source = c.source ∧ c'.taken = c.taken ∧ c'.storage = storage ∧
      ((∃ n ≤ granted, answer = .ok n ∧ r = .ok n ∧ c'.Copied b (done ++ buf.take n)) ∨
        (answer = .error .interrupted ∧ r = .error .interrupted ∧ c'.Copied b done) ∨
        ((∀ n ≤ granted, answer ≠ .ok n) ∧ answer ≠ .error .interrupted ∧
          (∃ e, r = .error (.retention (c'.writer.fail .writeSnapshot e))) ∧ c'.Held b)) := by
  have hused : c.budget.used = b.used + done.length := by rw [h.held.used, h.charge]
  have hlimit := h.held.limit
  have hbuf : buf ≠ [] := by
    rintro rfl
    simp at hgranted
    omega
  have hgrow := @grow_room c.budget buf.length granted (by rw [hlimit, hused]; exact hgranted) hpos
  have hcharged := @writeCharged_charged _ _ b c done buf granted answer h (by omega) (by omega)
  obtain ⟨result, w, hw⟩ : ∃ result w,
      ({ c.writer with charge := ⟨c.writer.charge.bytes + granted⟩ } : SnapshotWriter).writeCharged (buf.take granted) answer =
        (result, w) := ⟨_, _, rfl⟩
  rw [hw] at hcharged
  have hsettle : granted - SnapshotWriter.written result ≤ w.charge.bytes := by
    rw [hcharged.charge]
    omega
  obtain ⟨k, hk⟩ : ∃ k, granted - SnapshotWriter.written result = k := ⟨_, rfl⟩
  obtain ⟨budget, hbudget⟩ : ∃ budget,
    (c.budget.withUsed (c.budget.used + granted)).fetchMax (c.budget.used + granted) = budget := ⟨_, rfl⟩
  have hwrite : c.write os buf = (settled w result,
      { c with storage, writer := { w with charge := ⟨w.charge.bytes - k⟩ }, budget := budget.fetchSub k }) := by
    rw [write, if_neg hbuf, hgrow]
    simp only [Charge.grown, hanswer, hw, hbudget, settle_eq hsettle, hk]
  have hbefore : budget.used = b.used + done.length + granted ∧ budget.limit = b.limit := by
    rw [← hbudget, BudgetState.used_fetchMax, BudgetState.limit_fetchMax, BudgetState.used_withUsed,
      BudgetState.limit_withUsed, hused]
    exact ⟨rfl, hlimit⟩
  have hsub : (budget.fetchSub k).used + k = budget.used := BudgetState.used_fetchSub (by omega) (by omega)
  have hheld : Held b { c with storage, writer := { w with charge := ⟨w.charge.bytes - k⟩ }, budget := budget.fetchSub k } := by
    refine ⟨BudgetState.limit_fetchSub.trans hbefore.2, ?_, ?_⟩
    · show (budget.fetchSub k).used = b.used + (w.charge.bytes - k)
      have hcharge : w.charge.bytes = done.length + granted := hcharged.charge
      omega
    · show (budget.fetchSub k).used ≤ b.limit
      omega
  refine ⟨_, _, hwrite, rfl, rfl, rfl, ?_⟩
  rcases hcharged.outcome with ⟨n, hn, rfl, rfl, hcounted, hhasher⟩ | ⟨rfl, rfl, hcounted, hhasher⟩ | ⟨hnone, hgiven, e, rfl⟩
  · refine .inl ⟨n, hn, rfl, rfl, hheld, hcounted.charge, hhasher, ?_⟩
    have hwritten : (buf.take n).length = n := List.length_take_of_le (by omega)
    have hleft : granted - n = k := hk
    show w.charge.bytes - k = (done ++ buf.take n).length
    rw [hcharged.charge, List.length_append, hwritten]
    omega
  · refine .inr (.inl ⟨rfl, rfl, hheld, hcounted.charge, hhasher, ?_⟩)
    have hleft : granted = k := hk
    show w.charge.bytes - k = done.length
    rw [hcharged.charge]
    omega
  · exact .inr (.inr ⟨hnone, hgiven, ⟨e, rfl⟩, hheld⟩)

/-! ## `write_all` -/

/-- How a `write_all` left the copy. -/
def Written (b : BudgetState) (done buf : Bytes) (c' : Copying σ τ) : Option (Except RetentionError Unit) → Prop
  | none => True
  | some (.ok ()) => c'.Copied b (done ++ buf) ∧ b.used + done.length + buf.length ≤ b.limit
  | some (.error e) => c'.Held b ∧ ∀ limit, e = .budgetExceeded limit → b.limit < b.used + done.length + buf.length

theorem written_append {c' : Copying σ τ} {n : Nat} {r : Option (Except RetentionError Unit)} (hn : n ≤ buf.length) :
    Written b (done ++ buf.take n) (buf.drop n) c' r ↔ Written b done buf c' r := by
  have hlen : (done ++ buf.take n).length + (buf.drop n).length = done.length + buf.length := by
    rw [List.length_append, List.length_take_of_le hn, List.length_drop]
    omega
  have hsplit : done ++ buf.take n ++ buf.drop n = done ++ buf := by rw [List.append_assoc, List.take_append_drop]
  rcases r with _ | e | u
  · exact Iff.rfl
  · simp only [Written, Nat.add_assoc, hlen]
  · simp only [Written, Nat.add_assoc, hlen, hsplit]

theorem writeAll_written (hlt : b.limit < 2 ^ 64) (fuel : Nat) (h : c.Copied b done) :
    ∃ r c', c.writeAll os fuel buf = (r, c') ∧ c'.source = c.source ∧ c'.taken = c.taken ∧ Written b done buf c' r := by
  induction fuel generalizing c done buf with
  | zero => exact ⟨none, c, rfl, rfl, rfl, trivial⟩
  | succ fuel ih =>
    have hle : b.used + done.length ≤ b.limit := by
      rw [← h.charge, ← h.held.used]
      exact h.held.le
    by_cases hbuf : buf = []
    · subst hbuf
      exact ⟨some (.ok ()), c, by rw [writeAll, if_pos rfl], rfl, rfl, by rw [List.append_nil]; exact h, by simpa using hle⟩
    have hpos : 0 < buf.length := List.length_pos_iff.mpr hbuf
    rcases hle.eq_or_lt with hfull | hroom
    · refine ⟨some (.error (.budgetExceeded b.limit)), c, ?_, rfl, rfl, h.held, fun _ _ => by omega⟩
      rw [writeAll, if_neg hbuf, write_full h hbuf hfull.symm]
    obtain ⟨r, c', hwrite, hsource, htaken, -, hcases⟩ := @write_room _ _ b c os done buf
      (min buf.length (b.limit - (b.used + done.length))) _ _ hlt h rfl (by omega) (Prod.eta _).symm
    rw [writeAll, if_neg hbuf, hwrite]
    rcases hcases with ⟨n, hn, -, rfl, hcopied⟩ | ⟨-, rfl, hcopied⟩ | ⟨-, -, ⟨e, rfl⟩, hheld⟩
    · cases n with
      | zero =>
        exact ⟨_, _, rfl, hsource, htaken, hcopied.held, fun _ he => by cases he⟩
      | succ n =>
        obtain ⟨r, c'', hrest, hsource', htaken', hwritten⟩ := @ih c' _ (buf.drop (n + 1)) hcopied
        exact ⟨r, c'', hrest, hsource'.trans hsource, htaken'.trans htaken, (written_append (by omega)).mp hwritten⟩
    · obtain ⟨r, c'', hrest, hsource', htaken', hwritten⟩ := @ih c' done buf hcopied
      exact ⟨r, c'', hrest, hsource'.trans hsource, htaken'.trans htaken, hwritten⟩
    · exact ⟨_, _, rfl, hsource, htaken, hheld, fun _ he => by cases he⟩

/-! ## Storage that does not fail -/

/-- What storage that is asked again after every interruption answers a write in the end. -/
inductive StoreSettles (os : Storage τ) : τ → Bytes → Nat → τ → Prop
  | ok {storage storage' chunk n} (h : os.write storage chunk = (.ok n, storage')) : StoreSettles os storage chunk n storage'
  | retry {storage storage₁ storage' chunk n} (h : os.write storage chunk = (.error .interrupted, storage₁))
    (hretried : StoreSettles os storage₁ chunk n storage') : StoreSettles os storage chunk n storage'

/-- Storage in a state of which `good` holds takes something of every chunk in the end, and reports a whole file. -/
structure Healthy (os : Storage τ) (good : τ → Prop) : Prop where
  create : os.create = .ok ()
  write : ∀ storage chunk, good storage → chunk ≠ [] →
    ∃ n storage', StoreSettles os storage chunk n storage' ∧ 0 < n ∧ n ≤ chunk.length ∧ good storage'
  finish : ∀ storage len, good storage → os.finish storage len = ⟨.ok (), .ok (), .ok (true, .ok len), .ok ()⟩

variable {good : τ → Prop}

/-- A write that is retried lands something. -/
theorem writeAll_step {granted n : Nat} {storage : τ} (hlt : b.limit < 2 ^ 64) (h : c.Copied b done)
    (hgranted : granted = min buf.length (b.limit - (b.used + done.length))) (hpos : 0 < granted)
    (hstore : StoreSettles os c.storage (buf.take granted) n storage) (hn : 0 < n) (hle : n ≤ granted) :
    ∃ (k : Nat) (c' : Copying σ τ), c'.source = c.source ∧ c'.taken = c.taken ∧ c'.storage = storage ∧
      c'.Copied b (done ++ buf.take n) ∧ ∀ fuel, c.writeAll os (fuel + k) buf = c'.writeAll os fuel (buf.drop n) := by
  have hbuf : buf ≠ [] := by
    rintro rfl
    simp at hgranted
    omega
  generalize hst : c.storage = st at hstore
  generalize hchunk : buf.take granted = chunk at hstore
  induction hstore generalizing c with
  | @ok _ storage' _ n hanswer =>
    have hcall : os.write c.storage (buf.take granted) = (.ok n, storage') := by rw [hst, hchunk, hanswer]
    obtain ⟨r, c', hwrite, hsource, htaken, hstorage, hcases⟩ := write_room hlt h hgranted hpos hcall
    rcases hcases with ⟨m, hm, he, rfl, hcopied⟩ | ⟨he, -, -⟩ | ⟨hnone, -⟩
    · cases he
      refine ⟨1, c', hsource, htaken, hstorage, hcopied, fun fuel => ?_⟩
      obtain ⟨m, rfl⟩ := Nat.exists_eq_add_of_lt hn
      rw [writeAll, if_neg hbuf, hwrite]
    · cases he
    · exact absurd rfl (hnone _ hle)
  | @retry _ storage₁ _ _ _ hanswer _ ih =>
    have hcall : os.write c.storage (buf.take granted) = (.error .interrupted, storage₁) := by rw [hst, hchunk, hanswer]
    obtain ⟨r, c', hwrite, hsource, htaken, hstorage, hcases⟩ := write_room hlt h hgranted hpos hcall
    rcases hcases with ⟨m, hm, he, -⟩ | ⟨-, rfl, hcopied⟩ | ⟨-, hgiven, -⟩
    · cases he
    · obtain ⟨k, c'', hsource', htaken', hstorage', hcopied', hrest⟩ := ih hcopied hn hle hstorage hchunk
      refine ⟨k + 1, c'', hsource'.trans hsource, htaken'.trans htaken, hstorage', hcopied', fun fuel => ?_⟩
      rw [← Nat.add_assoc, writeAll, if_neg hbuf, hwrite]
      exact hrest fuel
    · exact absurd rfl hgiven

/-- Where the budget covers the bytes, healthy storage takes them all. -/
theorem writeAll_healthy (hos : Healthy os good) (hlt : b.limit < 2 ^ 64) (h : c.Copied b done) (hgood : good c.storage)
    (hroom : b.used + done.length + buf.length ≤ b.limit) :
    ∃ (n : Nat) (c' : Copying σ τ), c'.source = c.source ∧ c'.taken = c.taken ∧ good c'.storage ∧
      c'.Copied b (done ++ buf) ∧ ∀ fuel ≥ n, c.writeAll os fuel buf = (some (.ok ()), c') := by
  induction hlen : buf.length using Nat.strong_induction_on generalizing c done buf with
  | _ len ih =>
    by_cases hbuf : buf = []
    · subst hbuf
      refine ⟨1, c, rfl, rfl, hgood, by rw [List.append_nil]; exact h, fun fuel hfuel => ?_⟩
      obtain ⟨m, rfl⟩ : ∃ m, fuel = m + 1 := ⟨fuel - 1, by omega⟩
      rw [writeAll, if_pos rfl]
    have hpos : 0 < buf.length := List.length_pos_iff.mpr hbuf
    have hgranted : buf.length = min buf.length (b.limit - (b.used + done.length)) := by omega
    obtain ⟨n, storage, hstore, hn, hle, hgood'⟩ := hos.write c.storage (buf.take buf.length) hgood (by simpa using hbuf)
    rw [List.length_take, Nat.min_self] at hle
    obtain ⟨k, c', hsource, htaken, hstorage, hcopied, hstep⟩ := writeAll_step hlt h hgranted hpos hstore hn hle
    have htake : (buf.take n).length = n := List.length_take_of_le hle
    obtain ⟨m, c'', hsource', htaken', hgood'', hcopied', hrest⟩ :=
      @ih (buf.length - n) (by omega) c' (done ++ buf.take n) (buf.drop n) hcopied (hstorage ▸ hgood')
        (by rw [List.length_append, htake, List.length_drop]; omega) List.length_drop
    refine ⟨m + k, c'', hsource'.trans hsource, htaken'.trans htaken, hgood'', ?_, fun fuel hfuel => ?_⟩
    · rwa [List.append_assoc, List.take_append_drop] at hcopied'
    · obtain ⟨f, rfl⟩ : ∃ f, fuel = f + k := ⟨fuel - k, by omega⟩
      rw [hstep, hrest f (by omega)]

end Copying

/-! ## One read -/

section Read
variable {σ τ : Type} {answers : Answers σ} {source source' : σ} {content : Bytes} {ending : Ending} {len fuel : Nat}
  {reply : Except ReadError Bytes}

theorem readSource_of_settles (h : SettlesTo answers len source reply source') {result : Except ReadError Bytes} {s : σ}
    (hread : readSource answers fuel source len = (some result, s)) : result = reply ∧ s = source' := by
  induction h generalizing fuel with
  | ok h | error h =>
    cases fuel with
    | zero => cases hread
    | succ fuel =>
      rw [readSource, h] at hread
      cases hread
      exact ⟨rfl, rfl⟩
  | retry h _ ih =>
    cases fuel with
    | zero => cases hread
    | succ fuel =>
      rw [readSource, h] at hread
      exact ih hread

theorem exists_readSource (h : SettlesTo answers len source reply source') :
    ∃ n, ∀ fuel ≥ n, readSource answers fuel source len = (some reply, source') := by
  have hsucc {fuel n : Nat} (hfuel : fuel ≥ n + 1) : ∃ m, fuel = m + 1 ∧ n ≤ m := ⟨fuel - 1, by omega, by omega⟩
  induction h with
  | ok h | error h =>
    refine ⟨1, fun fuel hfuel => ?_⟩
    obtain ⟨m, rfl, -⟩ := hsucc hfuel
    rw [readSource, h]
  | retry h _ ih =>
    obtain ⟨n, ih⟩ := ih
    refine ⟨n + 1, fun fuel hfuel => ?_⟩
    obtain ⟨m, rfl, hm⟩ := hsucc hfuel
    rw [readSource, h]
    exact ih m hm

/-- What a source that holds `content` answers a request with. -/
inductive Answered (answers : Answers σ) (content : Bytes) (ending : Ending) (len : Nat) : Except ReadError Bytes → σ → Prop
  | clean {s} (h : content = []) (hend : ending = .clean) : Answered answers content ending len (.ok []) s
  | fault {err s} (h : content = []) (hend : ending = .fault err) : Answered answers content ending len (.error err) s
  | overlong {bytes s} (h : content = []) (hend : ending = .overlong) (hlen : len < bytes.length) :
    Answered answers content ending len (.ok bytes) s
  | chunk {n s} (hpos : 0 < n) (hlen : n ≤ len) (hn : n ≤ content.length)
    (hrest : Streams answers s (content.drop n) ending) : Answered answers content ending len (.ok (content.take n)) s

/-- Every source that holds something settles each request so. -/
theorem streams_settles (h : Streams answers source content ending) (hmore : ending = .more → content ≠ []) (hlen : 0 < len) :
    ∃ reply s, SettlesTo answers len source reply s ∧ Answered answers content ending len reply s := by
  cases h with
  | clean next hclean => exact ⟨_, _, hclean len hlen, .clean rfl rfl⟩
  | fault next hfault => exact ⟨_, _, hfault len hlen, .fault rfl rfl⟩
  | overlong next hover => exact ⟨_, _, (hover len hlen).2, .overlong rfl rfl (hover len hlen).1⟩
  | more => exact absurd rfl (hmore rfl)
  | chunk size next hsize hchunk hnext =>
    obtain ⟨hpos, hle, hcontent⟩ := hsize len hlen
    exact ⟨_, _, hchunk len hlen, .chunk hpos hle hcontent (hnext len hlen)⟩

end Read

/-! ## The whole copy -/

/-- Whether a source has a byte beyond `maxLen`. One that reports more than it was asked for has. -/
def Beyond (whole : Bytes) (ending : Ending) (maxLen : Nat) : Prop :=
  maxLen < whole.length ∨ (whole.length = maxLen ∧ ending = .overlong)

/-- What is promised of a snapshot of a source that holds `whole`, however far it has come. -/
structure Snapshots (sha256 : Bytes → Bytes) (b : BudgetState) (maxLen : Nat) (whole : Bytes) (ending : Ending)
    (s : Snapshotted) : Prop where
  taken : s.taken ≤ maxLen + 1
  retained : ∀ r, s.outcome = some (.ok r) →
    (ending = .clean ∧ whole.length ≤ maxLen ∧ b.used + whole.length ≤ b.limit) ∧
      r = ⟨whole, whole.length, sha256 whole, ⟨whole.length⟩⟩ ∧ s.budget.used = b.used + whole.length
  tooLong : ∀ m, s.outcome = some (.error (.sourceTooLong m)) →
    m = maxLen ∧ Beyond whole ending maxLen ∧ b.used + maxLen ≤ b.limit
  exceeded : ∀ limit, s.outcome = some (.error (.writer (.budgetExceeded limit))) →
    b.limit < b.used + whole.length ∧ b.limit < b.used + maxLen
  restored : ∀ e, s.outcome = some (.error e) → s.budget.used = b.used ∧ s.budget.limit = b.limit

namespace Copying
variable {σ τ : Type} {sha256 : Bytes → Bytes} {answers : Answers σ} {os : Storage τ} {copyBuffer : ℕ+} {maxLen : Nat}
  {b : BudgetState} {c c' : Copying σ τ} {done rest whole : Bytes} {ending : Ending} {e : SnapshotError}

theorem Copied.of_eq (h : c.Copied b done) (hwriter : c'.writer = c.writer) (hbudget : c'.budget = c.budget) :
    c'.Copied b done :=
  ⟨⟨hbudget ▸ h.held.limit, hbudget ▸ hwriter ▸ h.held.used, hbudget ▸ h.held.le⟩, hwriter ▸ h.counted, hwriter ▸ h.hasher,
    hwriter ▸ h.charge⟩

theorem snapshots_goesOn (htaken : c.taken ≤ maxLen + 1) : Snapshots sha256 b maxLen whole ending c.goesOn :=
  ⟨htaken, by simp [goesOn], by simp [goesOn], by simp [goesOn], by simp [goesOn]⟩

/-- An error gives back what was charged. -/
theorem snapshots_error (hlt : b.limit < 2 ^ 64) (hheld : c.Held b) (htaken : c.taken ≤ maxLen + 1)
    (htooLong : ∀ m, e = .sourceTooLong m → m = maxLen ∧ Beyond whole ending maxLen ∧ b.used + maxLen ≤ b.limit)
    (hexceeded : ∀ limit, e = .writer (.budgetExceeded limit) →
      b.limit < b.used + whole.length ∧ b.limit < b.used + maxLen) :
    Snapshots sha256 b maxLen whole ending (c.ends (.error e)) := by
  refine ⟨htaken, by simp [ends], fun m h => ?_, fun l h => ?_, fun _ _ => hheld.dropped hlt⟩
  · exact htooLong m (Except.error.inj (Option.some.inj h))
  · exact hexceeded l (Except.error.inj (Option.some.inj h))

theorem finish_error {w : SnapshotWriter} {os : FinishAnswers} {e : RetentionError} {limit : Nat}
    (h : w.finish sha256 os = .error e) : e ≠ .budgetExceeded limit := by
  rintro rfl
  obtain ⟨_ | _, _ | _, _ | ⟨_ | _, _ | actual⟩, _ | _⟩ := os <;> cases hfile : w.file <;>
    simp only [SnapshotWriter.finish, hfile, bind, Except.bind, Except.mapError, SnapshotWriter.fail, reduceCtorEq,
      Bool.not_true, Bool.not_false, if_true, if_false, Bool.false_eq_true, Except.error.injEq] at h
  split at h <;> cases h

/-- The end of the source. -/
theorem snapshots_finish (hlt : b.limit < 2 ^ 64) (h : c.Copied b whole) (htaken : c.taken ≤ maxLen + 1)
    (hend : ending = .clean) (hlen : whole.length ≤ maxLen) :
    Snapshots sha256 b maxLen whole ending (c.finish sha256 os) := by
  rw [finish]
  cases hfinish : c.writer.finish sha256 (os.finish c.storage (c.writer.file.getD []).length) with
  | error e =>
    exact snapshots_error hlt h.held htaken (fun _ he => by cases he) fun limit he => by
      cases he
      exact absurd rfl (finish_error hfinish)
  | ok r =>
    have hused : c.budget.used = b.used + whole.length := by rw [h.held.used, h.charge]
    have hcharge : c.writer.charge = ⟨whole.length⟩ := congrArg Charge.mk h.charge
    refine ⟨htaken, fun r' hr' => ?_, by simp [ends, Except.mapError], by simp [ends, Except.mapError],
      by simp [ends, Except.mapError]⟩
    cases hr'
    refine ⟨⟨hend, hlen, hused ▸ h.held.le⟩, ?_, hused⟩
    rw [SnapshotWriter.finish_ok h.counted hfinish, h.hasher, h.len, hcharge]

/-- How many bytes an answer puts into the buffer. -/
def delivered (len : Nat) : Except ReadError Bytes → Nat
  | .ok bytes => min bytes.length len
  | .error _ => 0

/-- A read that ends touches nothing but the source. -/
theorem read_eq {fuel len : Nat} {reply : Except ReadError Bytes} {source : σ}
    (h : readSource answers fuel c.source len = (some reply, source)) :
    c.read answers fuel len = (some reply, { c with source, taken := c.taken + delivered len reply }) := by
  rw [read, h]
  cases reply <;> rfl

theorem read_answered {fuel len : Nat} (hstreams : Streams answers c.source rest ending)
    (hmore : ending = .more → rest ≠ []) (hlen : 0 < len) :
    (∃ c' : Copying σ τ, c.read answers fuel len = (none, c') ∧ c'.taken = c.taken) ∨
      ∃ reply source, Answered answers rest ending len reply source ∧
        c.read answers fuel len = (some reply, { c with source, taken := c.taken + delivered len reply }) := by
  obtain ⟨reply, source, hsettles, hanswered⟩ := streams_settles hstreams hmore hlen
  cases hread : readSource answers fuel c.source len with
  | mk result s =>
    cases result with
    | none => exact .inl ⟨{ c with source := s }, by rw [read, hread], rfl⟩
    | some result =>
      obtain ⟨rfl, rfl⟩ := readSource_of_settles hsettles hread
      exact .inr ⟨_, _, hanswered, read_eq hread⟩

/-- The probe past the last byte allowed. -/
theorem snapshots_probe {fuel : Nat} (hlt : b.limit < 2 ^ 64) (hmore : ending = .more → maxLen < whole.length)
    (h : c.Copied b done) (htaken : c.taken = done.length) (hlen : done.length = maxLen)
    (hstreams : Streams answers c.source rest ending) (hwhole : done ++ rest = whole) :
    Snapshots sha256 b maxLen whole ending
      (snapshotLoop sha256 answers os copyBuffer maxLen (fuel + 1) c done.length) := by
  subst hwhole
  have hrest : ending = .more → rest ≠ [] := by
    rintro hend rfl
    have := hmore hend
    simp at this
    omega
  have hcharged : b.used + maxLen ≤ b.limit := by
    rw [← hlen, ← h.charge, ← h.held.used]
    exact h.held.le
  rw [snapshotLoop, if_pos (by omega)]
  rcases @read_answered _ τ answers c rest ending fuel 1 hstreams hrest Nat.one_pos with ⟨c', hread, hsame⟩ | ⟨reply, s, hanswered, hread⟩
  · rw [hread]
    exact snapshots_goesOn (by omega)
  have hcopied : ∀ taken, ({ c with source := s, taken } : Copying σ τ).Copied b done := fun _ => h.of_eq rfl rfl
  have hbeyond {taken : Nat} (ht : taken ≤ maxLen + 1) (hb : Beyond (done ++ rest) ending maxLen) :
      Snapshots sha256 b maxLen (done ++ rest) ending
        (({ c with source := s, taken } : Copying σ τ).ends (.error (.sourceTooLong maxLen))) :=
    snapshots_error hlt (hcopied _).held ht (fun m he => by cases he; exact ⟨rfl, hb, hcharged⟩) (fun _ he => by cases he)
  rw [hread]
  cases hanswered with
  | clean hnil hend =>
    subst hnil
    exact snapshots_finish hlt (by rw [List.append_nil]; exact hcopied _) (by show _ + min 0 1 ≤ _; omega) hend (by simp [hlen])
  | fault hnil hend =>
    exact snapshots_error hlt (hcopied _).held (by show _ + 0 ≤ _; omega) (fun _ he => by cases he) (fun _ he => by cases he)
  | @overlong bytes _ hnil hend hlong =>
    obtain ⟨byte, tail, rfl⟩ := List.exists_cons_of_length_pos (Nat.zero_lt_of_lt hlong)
    exact hbeyond (by show _ + min _ 1 ≤ _; omega) (.inr ⟨by simp [hnil, hlen], hend⟩)
  | @chunk n _ hpos hn hcontent hrest =>
    obtain ⟨byte, tail, hcons⟩ := List.exists_cons_of_length_pos
      (show 0 < (rest.take n).length by rw [List.length_take_of_le hcontent]; exact hpos)
    rw [hcons]
    exact hbeyond (by show _ + min _ 1 ≤ _; omega) (.inl (by rw [List.length_append]; omega))

/-- What a step of the loop comes to, or how it goes on: in each case the promise is kept. -/
theorem snapshotLoop_snapshots (hlt : b.limit < 2 ^ 64) (hmore : ending = .more → maxLen < whole.length) (fuel : Nat)
    (h : c.Copied b done) (htaken : c.taken = done.length) (hlen : done.length ≤ maxLen)
    (hstreams : Streams answers c.source rest ending) (hwhole : done ++ rest = whole) :
    Snapshots sha256 b maxLen whole ending (snapshotLoop sha256 answers os copyBuffer maxLen fuel c done.length) := by
  induction fuel generalizing c done rest with
  | zero => exact snapshots_goesOn (by omega)
  | succ fuel ih =>
    rcases hlen.eq_or_lt with heq | hroom
    · exact snapshots_probe hlt hmore h htaken heq hstreams hwhole
    subst hwhole
    have hrest : ending = .more → rest ≠ [] := by
      rintro hend rfl
      have := hmore hend
      simp at this
      omega
    obtain ⟨want, hwant⟩ : ∃ want, min (maxLen - done.length) (copyBuffer : Nat) = want := ⟨_, rfl⟩
    have hpos : 0 < want := by
      have := copyBuffer.pos
      omega
    rw [snapshotLoop, if_neg (by omega)]
    simp only [hwant]
    rcases @read_answered _ τ answers c rest ending fuel want hstreams hrest hpos with
      ⟨c', hread, hsame⟩ | ⟨reply, s, hanswered, hread⟩
    · rw [hread]
      exact snapshots_goesOn (by omega)
    have hcopied : ∀ taken, ({ c with source := s, taken } : Copying σ τ).Copied b done := fun _ => h.of_eq rfl rfl
    rw [hread]
    cases hanswered with
    | clean hnil hend =>
      subst hnil
      exact snapshots_finish hlt (by rw [List.append_nil]; exact hcopied _) (by show _ + min 0 want ≤ _; omega) hend
        (by simpa using hlen)
    | fault hnil hend =>
      exact snapshots_error hlt (hcopied _).held (by show _ + 0 ≤ _; omega) (fun _ he => by cases he) (fun _ he => by cases he)
    | @overlong bytes _ hnil hend hlong =>
      obtain ⟨byte, tail, rfl⟩ := List.exists_cons_of_length_pos (Nat.zero_lt_of_lt hlong)
      simp only [if_pos hlong]
      exact snapshots_error hlt (hcopied _).held (by show _ + min _ want ≤ _; omega) (fun _ he => by cases he)
        (fun _ he => by cases he)
    | @chunk n _ hn hle hcontent hstreams' =>
      have htake : (rest.take n).length = n := List.length_take_of_le hcontent
      obtain ⟨byte, tail, hcons⟩ := List.exists_cons_of_length_pos (show 0 < (rest.take n).length by omega)
      have hdelivered : delivered want (.ok (rest.take n)) = n := by
        show min (rest.take n).length want = n
        omega
      obtain ⟨r, c', hwrite, hsource, htaken', hwritten⟩ :=
        @writeAll_written _ τ b { c with source := s, taken := c.taken + n } os done (rest.take n) hlt fuel (hcopied _)
      rw [hdelivered, hcons]
      simp only
      rw [← hcons, htake, if_neg (Nat.not_lt.mpr hle), hwrite]
      rcases r with _ | e | u
      · exact snapshots_goesOn (by rw [htaken']; show c.taken + n ≤ _; omega)
      · refine snapshots_error hlt hwritten.1 (by rw [htaken']; show c.taken + n ≤ _; omega) (fun _ he => by cases he) ?_
        intro limit he
        cases he
        have hover := hwritten.2 limit rfl
        rw [htake] at hover
        constructor
        · rw [List.length_append]
          omega
        · omega
      · have hdone : (done ++ rest.take n).length = done.length + n := by rw [List.length_append, htake]
        rw [← hdone]
        exact ih hwritten.1 (by rw [htaken', hdone]; show c.taken + n = _; omega) (by omega) (by rw [hsource]; exact hstreams')
          (by rw [List.append_assoc, List.take_append_drop])

/-- A healthy finish of a copy retains it. -/
theorem finish_healthy {good : τ → Prop} (hos : Healthy os good) (h : c.Copied b whole) (hgood : good c.storage) :
    (c.finish sha256 os).outcome = some (.ok ⟨whole, whole.length, sha256 whole, ⟨whole.length⟩⟩) := by
  have hfile : c.writer.file = some whole := by rw [h.counted.file, h.hasher]
  have hcharge : c.writer.charge = ⟨whole.length⟩ := congrArg Charge.mk h.charge
  rw [finish, hfile, hos.finish _ _ hgood]
  simp [SnapshotWriter.finish, hfile, bind, Except.bind, Except.mapError, ends, h.len, h.hasher, hcharge]
  rfl

/-- A source within both limits is copied to its end. -/
theorem snapshotLoop_healthy {good : τ → Prop} (hos : Healthy os good) (hlt : b.limit < 2 ^ 64)
    (hstreams : Streams answers c.source rest ending) (hend : ending = .clean) (h : c.Copied b done)
    (hgood : good c.storage) (hlen : (done ++ rest).length ≤ maxLen) (hfits : b.used + (done ++ rest).length ≤ b.limit) :
    ∃ n, ∀ fuel ≥ n, (snapshotLoop sha256 answers os copyBuffer maxLen fuel c done.length).outcome =
      some (.ok ⟨done ++ rest, (done ++ rest).length, sha256 (done ++ rest), ⟨(done ++ rest).length⟩⟩) := by
  have hsucc {fuel n : Nat} (hfuel : fuel ≥ n + 1) : ∃ m, fuel = m + 1 ∧ n ≤ m := ⟨fuel - 1, by omega, by omega⟩
  generalize hsource : c.source = source at hstreams
  induction hstreams generalizing c done with
  | @clean source next hclean =>
    rw [List.append_nil] at *
    rcases hlen.eq_or_lt with heq | hroom
    · obtain ⟨n, hread⟩ := exists_readSource (hclean 1 Nat.one_pos)
      refine ⟨n + 1, fun fuel hfuel => ?_⟩
      obtain ⟨m, rfl, hm⟩ := hsucc hfuel
      rw [snapshotLoop, if_pos (by omega), read_eq (hsource ▸ hread m hm)]
      exact finish_healthy hos (h.of_eq rfl rfl) hgood
    · obtain ⟨want, hwant⟩ : ∃ want, min (maxLen - done.length) (copyBuffer : Nat) = want := ⟨_, rfl⟩
      obtain ⟨n, hread⟩ := exists_readSource (hclean want (by have := copyBuffer.pos; omega))
      refine ⟨n + 1, fun fuel hfuel => ?_⟩
      obtain ⟨m, rfl, hm⟩ := hsucc hfuel
      rw [snapshotLoop, if_neg (by omega)]
      simp only [hwant, read_eq (hsource ▸ hread m hm)]
      exact finish_healthy hos (h.of_eq rfl rfl) hgood
  | fault => cases hend
  | overlong => cases hend
  | more => cases hend
  | @chunk source content ending size next hsize hchunk hnext ih =>
    obtain ⟨want, hwant⟩ : ∃ want, min (maxLen - done.length) (copyBuffer : Nat) = want := ⟨_, rfl⟩
    have hroom : done.length < maxLen := by
      obtain ⟨hpos, -, hcontent⟩ := hsize 1 Nat.one_pos
      rw [List.length_append] at hlen
      omega
    have hpos : 0 < want := by
      have := copyBuffer.pos
      omega
    obtain ⟨hn, hle, hcontent⟩ := hsize want hpos
    have htake : (content.take (size want)).length = size want := List.length_take_of_le hcontent
    have hdone : (done ++ content.take (size want)).length = done.length + size want := by rw [List.length_append, htake]
    have hsplit : done ++ content.take (size want) ++ content.drop (size want) = done ++ content := by
      rw [List.append_assoc, List.take_append_drop]
    obtain ⟨n₁, hread⟩ := exists_readSource (hchunk want hpos)
    obtain ⟨byte, tail, hcons⟩ := List.exists_cons_of_length_pos (show 0 < (content.take (size want)).length by omega)
    have hcopied : ({ c with source := next want, taken := c.taken + size want } : Copying σ τ).Copied b done :=
      h.of_eq rfl rfl
    obtain ⟨n₂, c', hsource', htaken', hgood', hcopied', hwrite⟩ := @writeAll_healthy _ _ b _ os done
      (content.take (size want)) good hos hlt hcopied hgood (by rw [List.length_append] at hfits; omega)
    obtain ⟨n₃, hrest⟩ := ih want hpos hend hcopied' hgood' (by rw [hsplit]; exact hlen) (by rw [hsplit]; exact hfits) hsource'
    refine ⟨max n₁ (max n₂ n₃) + 1, fun fuel hfuel => ?_⟩
    obtain ⟨m, rfl, hm⟩ := hsucc hfuel
    have hdelivered : delivered want (.ok (content.take (size want))) = size want := by
      show min (content.take (size want)).length want = size want
      omega
    rw [snapshotLoop, if_neg (by omega)]
    simp only [hwant, read_eq (hsource ▸ hread m (by omega)), hdelivered]
    rw [hcons]
    simp only
    rw [← hcons, htake, if_neg (Nat.not_lt.mpr hle), hwrite m (by omega), ← hdone, ← hsplit]
    exact hrest m (by omega)

end Copying

section Whole
variable {σ τ : Type} {sha256 : Bytes → Bytes} {answers : Answers σ} {copyBuffer : ℕ+} {maxLen : Nat} {b : BudgetState}
  {whole : Bytes} {ending : Ending} {source : σ} {path : String}

theorem copied_start (hle : b.used ≤ b.limit) (storage : τ) :
    Copying.Copied b [] ⟨source, storage, ⟨path, some [], [], 0, ⟨0⟩⟩, b, 0⟩ :=
  ⟨⟨rfl, rfl, hle⟩, ⟨rfl, rfl⟩, rfl, rfl⟩

/-- For every source and every way it cuts up what it holds: a snapshot that is retained is of exactly its bytes, and
where storage does not fail there is one if and only if the source ends without a fault within the maximum and the
budget; at every moment at most one byte beyond the maximum has been taken; the source is reported too long only if it
is, unless the budget was reached at an earlier byte; and an error leaves the budget with what it had. An endless source
holds every beginning of what it gives. -/
theorem snapshotFrom_snapshots (hlt : b.limit < 2 ^ 64) (hle : b.used ≤ b.limit)
    (hstreams : Streams answers source whole ending) (hmore : ending = .more → maxLen < whole.length) :
    (∀ (os : Storage τ) (storage : τ) (fuel : Nat), Snapshots sha256 b maxLen whole ending
      (snapshotFrom sha256 answers os copyBuffer maxLen fuel source storage b path)) ∧
    ∀ (os : Storage τ) (storage : τ) (good : τ → Prop), Copying.Healthy os good → good storage →
      ((∃ n, ∀ fuel ≥ n, ∃ r, (snapshotFrom sha256 answers os copyBuffer maxLen fuel source storage b path).outcome =
          some (.ok r) ∧ r.file = whole) ↔
        ending = .clean ∧ whole.length ≤ maxLen ∧ b.used + whole.length ≤ b.limit) := by
  have hall : ∀ (os : Storage τ) (storage : τ) (fuel : Nat), Snapshots sha256 b maxLen whole ending
      (snapshotFrom sha256 answers os copyBuffer maxLen fuel source storage b path) := by
    intro os storage fuel
    rw [snapshotFrom]
    cases os.create with
    | error e => exact ⟨Nat.zero_le _, by simp, by simp, by simp, fun _ _ => ⟨rfl, rfl⟩⟩
    | ok u =>
      exact Copying.snapshotLoop_snapshots hlt hmore fuel (copied_start hle storage) rfl (Nat.zero_le _) hstreams rfl
  refine ⟨hall, fun os storage good hos hgood => ⟨fun ⟨n, hrun⟩ => ?_, fun ⟨hend, hlen, hfits⟩ => ?_⟩⟩
  · obtain ⟨r, hr, -⟩ := hrun n le_rfl
    exact ((hall os storage n).retained r hr).1
  · obtain ⟨n, hrun⟩ : ∃ n, ∀ fuel ≥ n,
        (snapshotLoop sha256 answers os copyBuffer maxLen fuel ⟨source, storage, ⟨path, some [], [], 0, ⟨0⟩⟩, b, 0⟩ 0).outcome =
          some (.ok ⟨whole, whole.length, sha256 whole, ⟨whole.length⟩⟩) :=
      Copying.snapshotLoop_healthy hos hlt hstreams hend (copied_start hle storage) hgood hlen hfits
    refine ⟨n, fun fuel hfuel => ⟨⟨whole, whole.length, sha256 whole, ⟨whole.length⟩⟩, ?_, rfl⟩⟩
    rw [snapshotFrom, hos.create]
    exact hrun fuel hfuel

end Whole

/-- Storage that takes every chunk as it comes. -/
def plainStorage : Storage Unit where
  create := .ok ()
  write _ chunk := (.ok chunk.length, ())
  finish _ len := ⟨.ok (), .ok (), .ok (true, .ok len), .ok ()⟩

theorem healthy_plainStorage : Copying.Healthy plainStorage fun _ => True :=
  ⟨rfl, fun _ chunk _ hchunk => ⟨chunk.length, (), .ok rfl, List.length_pos_iff.mpr hchunk, le_rfl, trivial⟩, fun _ _ _ => rfl⟩

/-- Two bytes, under a maximum of two and with just as much left of the budget. -/
theorem snapshotFrom_twoBytes :
    ∃ n, ∀ fuel ≥ n, ∃ r, (snapshotFrom id twoBytes plainStorage 7 2 fuel [.ok [1], .interrupted, .ok [2]] ()
      ⟨3, 1, 1⟩ "snap-0").outcome = some (.ok r) ∧ r.file = [1, 2] :=
  ((snapshotFrom_snapshots (by decide) (by decide) streams_twoBytes (by simp)).2 plainStorage () (fun _ => True)
    healthy_plainStorage trivial).mpr ⟨rfl, by decide, by decide⟩

end DeployCore
