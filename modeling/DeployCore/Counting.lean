import DeployCore.ContentFault

/-! # Counted reading

`CountingReader` is the only way a content primitive reads a source: it charges what it delivers to a chain of
budgets and never asks for more than they allow, one probed byte apart. The source is any machine at all that
answers a request: with bytes, with an interruption, or with an error. A call that is still retrying
interruptions when `fuel` runs out has no outcome yet. -/

namespace DeployCore

/-- A running count of one resource against its configured value. -/
structure Budget where
  resource : LimitResource
  limit : Nat
  used : Nat
  limit_le : limit ≤ U64_MAX
  used_le : used ≤ limit

namespace Budget

/-- `Budget::new`. -/
def ofLimit (limit : ResourceLimit) : Budget where
  resource := limit.resource
  limit := limit.max
  used := 0
  limit_le := limit.max_le
  used_le := Nat.zero_le _

def remaining (budget : Budget) : Nat :=
  budget.limit - budget.used

def exceeded (budget : Budget) : ContentFault :=
  .limitExceeded budget.resource budget.limit

def check (budget : Budget) (n : Nat) : Except ContentFault Unit :=
  if n ≤ budget.remaining then .ok () else .error budget.exceeded

/-- A charge that does not fit is refused and leaves the budget as it was. -/
def charge (budget : Budget) (n : Nat) : Except ContentFault Budget :=
  if h : n ≤ budget.remaining then
    .ok { budget with
      used := budget.used + n
      used_le := by
        have := budget.used_le
        unfold remaining at h
        omega }
  else .error budget.exceeded

/-- The budget after `n` more units, when they fit. -/
def after (budget : Budget) (n : Nat) : Budget :=
  { budget with
    used := min (budget.used + n) budget.limit
    used_le := Nat.min_le_right _ _ }

variable {budget : Budget} {n m : Nat}

theorem ext' {a b : Budget} (hresource : a.resource = b.resource) (hlimit : a.limit = b.limit) (hused : a.used = b.used) :
    a = b := by
  obtain ⟨_, _, _, _, _⟩ := a
  obtain ⟨_, _, _, _, _⟩ := b
  simp_all

theorem used_after (h : n ≤ budget.remaining) : (budget.after n).used = budget.used + n := by
  have := budget.used_le
  unfold remaining at h
  exact Nat.min_eq_left (by omega)

theorem remaining_after (h : n ≤ budget.remaining) : (budget.after n).remaining = budget.remaining - n := by
  rw [remaining, used_after h]
  unfold remaining
  show budget.limit - _ = _
  omega

theorem charge_eq (h : n ≤ budget.remaining) : budget.charge n = .ok (budget.after n) := by
  rw [charge, dif_pos h]
  exact congrArg _ (ext' rfl rfl (used_after h).symm)

theorem after_zero : budget.after 0 = budget :=
  ext' rfl rfl (used_after (Nat.zero_le _))

theorem after_after (h : n + m ≤ budget.remaining) : (budget.after n).after m = budget.after (n + m) := by
  refine ext' rfl rfl ?_
  rw [used_after (by rw [remaining_after (by omega)]; omega), used_after (by omega), used_after h, Nat.add_assoc]

end Budget

/-- What a source answers a request with. -/
inductive Reply
  | ok (bytes : Bytes)
  | interrupted
  | error (err : ReadError)
  deriving DecidableEq

/-- A source: how it answers a request for so many bytes. -/
abbrev Answers (σ : Type) := σ → Nat → Reply × σ

/-- One request made of a source, and how many bytes it put into the buffer. -/
structure Request where
  len : Nat
  taken : Nat
  deriving DecidableEq

/-- A reader that charges every byte it delivers. -/
structure CountingReader (σ : Type) where
  source : σ
  own : Budget
  shared : List Budget
  copyBuffer : Nat
  position : Nat
  latch : Latch

/-- What a call has come to: an outcome unless it is still retrying, the requests it made, and the reader. -/
structure Called (σ : Type) where
  outcome : Option (Except ContentFault Bytes)
  requests : List Request
  reader : CountingReader σ

namespace CountingReader
variable {σ : Type} (answers : Answers σ)

/-- `CountingReader::new`. -/
def ofSource (source : σ) (own : ResourceLimit) (shared : List Budget) (copyBuffer : Nat) : CountingReader σ where
  source
  own := .ofLimit own
  shared
  copyBuffer := max copyBuffer 1
  position := 0
  latch := none

def chain (r : CountingReader σ) : List Budget :=
  r.own :: r.shared

/-- The smallest remaining allowance across the chain. -/
def remaining (r : CountingReader σ) : Nat :=
  (r.chain.map Budget.remaining).foldl min U64_MAX

def checkAvailable (r : CountingReader σ) (n : Nat) : Except ContentFault Unit :=
  match r.chain.find? fun budget => !decide (n ≤ budget.remaining) with
  | some budget => .error budget.exceeded
  | none => .ok ()

/-- Asks the source until it answers with something else than an interruption. A reply longer than the request
is a count the source got wrong: the buffer holds no more than was asked for. -/
def readSource : Nat → σ → Nat → Option (Except ContentFault Bytes) × List Request × σ
  | 0, source, _ => (none, [], source)
  | fuel + 1, source, len =>
    match answers source len with
    | (.ok bytes, source) => (some (.ok bytes), [⟨len, min bytes.length len⟩], source)
    | (.error err, source) => (some (.error (.fromIo err)), [⟨len, 0⟩], source)
    | (.interrupted, source) =>
      let (outcome, requests, source) := readSource fuel source len
      (outcome, ⟨len, 0⟩ :: requests, source)

/-- Charges what was read: the reader's own budget, then each shared one. -/
def deliver (r : CountingReader σ) (bytes : Bytes) : Except ContentFault (CountingReader σ) := do
  r.checkAvailable bytes.length
  let own ← r.own.charge bytes.length
  let shared ← r.shared.mapM (·.charge bytes.length)
  .ok { r with own, shared, position := min (r.position + bytes.length) U64_MAX }

def invalidData : ContentFault :=
  .io ⟨.invalidData, some "the source reported more bytes than were requested"⟩

/-- What becomes of the bytes a request brought: the limit's fault after a probe, or their delivery. -/
def settle (r : CountingReader σ) (len : Nat) (bytes : Bytes) : Except ContentFault (Bytes × CountingReader σ) :=
  if r.remaining = 0 then
    if bytes.isEmpty then .ok ([], r)
    else
      match r.checkAvailable 1 with
      | .error fault => .error fault
      | .ok () => .error r.own.exceeded
  else if len < bytes.length then .error invalidData
  else (r.deliver bytes).map fun r => (bytes, r)

/-- Bytes a call asks for: a probe of one where the allowance is spent. -/
def requestLen (r : CountingReader σ) (buf : Nat) : Nat :=
  if r.remaining = 0 then 1 else min (min buf r.copyBuffer) r.remaining

/-- `Read::read` into a buffer of `buf` bytes. -/
def read (fuel : Nat) (r : CountingReader σ) (buf : Nat) : Called σ :=
  match r.latch.check with
  | .error fault => ⟨some (.error fault), [], r⟩
  | .ok () =>
    if buf = 0 then ⟨some (.ok []), [], r⟩
    else
      match readSource answers fuel r.source (r.requestLen buf) with
      | (none, requests, source) => ⟨none, requests, { r with source }⟩
      | (some (.error fault), requests, source) =>
        ⟨some (.error fault), requests, { r with source, latch := r.latch.record fault }⟩
      | (some (.ok bytes), requests, source) =>
        match settle { r with source } (r.requestLen buf) bytes with
        | .error fault => ⟨some (.error fault), requests, { r with source, latch := r.latch.record fault }⟩
        | .ok (bytes, r) => ⟨some (.ok bytes), requests, r⟩

/-! ### What one call does -/

variable {answers} {r : CountingReader σ} {n : Nat}

theorem le_foldl_min {xs : List Nat} {a : Nat} : n ≤ xs.foldl min a ↔ n ≤ a ∧ ∀ x ∈ xs, n ≤ x := by
  induction xs generalizing a with
  | nil => simp
  | cons x xs ih => rw [List.foldl_cons, ih, List.forall_mem_cons, le_min_iff, and_assoc]

theorem remaining_own_le (r : CountingReader σ) : r.own.remaining ≤ U64_MAX :=
  (Nat.sub_le _ _).trans r.own.limit_le

/-- An amount is available when every budget of the chain has room for it. -/
theorem le_remaining_iff : n ≤ r.remaining ↔ ∀ budget ∈ r.chain, n ≤ budget.remaining := by
  rw [remaining, le_foldl_min, List.forall_mem_map]
  refine and_iff_right_of_imp fun h => ?_
  exact (h r.own List.mem_cons_self).trans (remaining_own_le r)

theorem checkAvailable_ok_iff : r.checkAvailable n = .ok () ↔ n ≤ r.remaining := by
  rw [le_remaining_iff, checkAvailable]
  cases h : r.chain.find? fun budget => !decide (n ≤ budget.remaining) with
  | none => simpa using h
  | some budget =>
    have hmem := List.mem_of_find?_eq_some h
    have hno := List.find?_some h
    simp only [reduceCtorEq, false_iff]
    exact fun hall => by simp [hall budget hmem] at hno

/-- The fault of an amount that is not available is that of the first budget without room for it. -/
theorem checkAvailable_error {fault : ContentFault} (h : r.checkAvailable n = .error fault) :
    ∃ budget, (r.chain.find? fun budget => decide (budget.remaining < n)) = some budget ∧ fault = budget.exceeded := by
  unfold checkAvailable at h
  simp only [← Nat.not_le, decide_not]
  split at h
  next budget hfind => exact ⟨budget, hfind, (Except.error.inj h).symm⟩
  · cases h

/-- The reader after `n` more delivered bytes. -/
def after (r : CountingReader σ) (n : Nat) : CountingReader σ :=
  { r with own := r.own.after n, shared := r.shared.map (·.after n), position := r.position + n }

theorem mapM_charge {budgets : List Budget} (h : ∀ budget ∈ budgets, n ≤ budget.remaining) :
    budgets.mapM (·.charge n) = .ok (budgets.map (·.after n)) := by
  induction budgets with
  | nil => rfl
  | cons budget budgets ih =>
    obtain ⟨hbudget, hbudgets⟩ := List.forall_mem_cons.mp h
    rw [List.mapM_cons, Budget.charge_eq hbudget, ih hbudgets]
    rfl

theorem deliver_eq {bytes : Bytes} (h : bytes.length ≤ r.remaining) (hposition : r.position + bytes.length ≤ U64_MAX) :
    r.deliver bytes = .ok (r.after bytes.length) := by
  obtain ⟨hown, hshared⟩ := List.forall_mem_cons.mp (le_remaining_iff.mp h)
  simp only [deliver, checkAvailable_ok_iff.mpr h, Budget.charge_eq hown, mapM_charge hshared, bind, Except.bind,
    Nat.min_eq_left hposition]
  rfl

/-- How many bytes a reply put into a buffer of `len`. -/
def arrived (outcome : Option (Except ContentFault Bytes)) (len : Nat) : Nat :=
  match outcome with
  | some (.ok bytes) => min bytes.length len
  | _ => 0

def taken (requests : List Request) : Nat :=
  (requests.map Request.taken).sum

/-- Every request of a call asks for the same, and only the last one is answered with bytes. -/
theorem readSource_requests {fuel : Nat} {source source' : σ} {len : Nat} {requests : List Request}
    {outcome : Option (Except ContentFault Bytes)}
    (h : readSource answers fuel source len = (outcome, requests, source')) :
    (∀ request ∈ requests, request.len = len) ∧
      taken requests = arrived outcome len := by
  induction fuel generalizing source requests with
  | zero =>
    cases h
    exact ⟨fun _ hmem => absurd hmem List.not_mem_nil, rfl⟩
  | succ fuel ih =>
    unfold readSource at h
    split at h
    · cases h
      simp [taken, arrived]
    · cases h
      simp [taken, arrived]
    next source₁ _ =>
    rcases hrest : readSource answers fuel source₁ len with ⟨outcome', requests', source₂⟩
    rw [hrest] at h
    cases h
    obtain ⟨hlen, htaken⟩ := ih hrest
    refine ⟨List.forall_mem_cons.mpr ⟨rfl, hlen⟩, ?_⟩
    rw [← htaken]
    simp [taken]

theorem after_zero : r.after 0 = r := by
  simp [after, Budget.after_zero]

/-- What is settled without a fault was charged, and fits. -/
theorem settle_ok {len : Nat} {bytes out : Bytes} {r' : CountingReader σ}
    (hlen : r.remaining ≠ 0 → len ≤ r.remaining) (hposition : r.position + r.remaining ≤ U64_MAX)
    (h : r.settle len bytes = .ok (out, r')) :
    out = bytes ∧ bytes.length ≤ r.remaining ∧ (r.remaining ≠ 0 → bytes.length ≤ len) ∧ r' = r.after bytes.length := by
  unfold settle at h
  split at h
  next hzero =>
    split at h
    next hempty =>
      cases h
      obtain rfl := List.isEmpty_iff.mp hempty
      exact ⟨rfl, Nat.zero_le _, fun _ => Nat.zero_le _, after_zero.symm⟩
    · split at h <;> cases h
  next hzero =>
  split at h
  · cases h
  next hle =>
  have hremaining : r.remaining ≠ 0 := by simpa using hzero
  have hfits : bytes.length ≤ r.remaining := (Nat.not_lt.mp hle).trans (hlen hremaining)
  rw [deliver_eq hfits (by omega)] at h
  cases h
  exact ⟨rfl, hfits, fun _ => Nat.not_lt.mp hle, rfl⟩

/-- The outcomes of a call on a reader that has not faulted, into a buffer that is not empty. -/
inductive Outcomes (r : CountingReader σ) (buf : Nat) : Called σ → Prop
  | retrying {requests source} (htaken : taken requests = 0) : Outcomes r buf ⟨none, requests, { r with source }⟩
  | faulted {fault requests source} (htaken : taken requests ≤ requestLen r buf) :
    Outcomes r buf ⟨some (.error fault), requests, { r with source, latch := some fault.replay }⟩
  | delivered {bytes requests source} (htaken : taken requests = bytes.length) (hfits : bytes.length ≤ r.remaining) :
    Outcomes r buf ⟨some (.ok bytes), requests, { r.after bytes.length with source }⟩

theorem requestLen_le (hremaining : r.remaining ≠ 0) (buf : Nat) : requestLen r buf ≤ r.remaining := by
  rw [requestLen, if_neg hremaining]
  exact Nat.min_le_right _ _

theorem read_outcomes {fuel buf : Nat} (hlatch : r.latch = none) (hbuf : buf ≠ 0)
    (hposition : r.position + r.remaining ≤ U64_MAX) :
    (∀ request ∈ (r.read answers fuel buf).requests, request.len = requestLen r buf) ∧
      Outcomes r buf (r.read answers fuel buf) := by
  have hcheck : r.latch.check = .ok () := by rw [hlatch]; rfl
  have hrecord (fault : ContentFault) : r.latch.record fault = some fault.replay := by rw [hlatch]; rfl
  unfold read
  simp only [hcheck, if_neg hbuf, hrecord]
  rcases hsource : readSource answers fuel r.source (requestLen r buf) with ⟨_ | fault | bytes, requests, source⟩
  · obtain ⟨hall, htaken⟩ := readSource_requests hsource
    exact ⟨hall, .retrying htaken⟩
  · obtain ⟨hall, htaken⟩ := readSource_requests hsource
    exact ⟨hall, .faulted (htaken.le.trans (Nat.zero_le _))⟩
  obtain ⟨hall, htaken⟩ := readSource_requests hsource
  dsimp only
  rcases hsettle : ({ r with source } : CountingReader σ).settle (requestLen r buf) bytes with fault | ⟨out, r'⟩
  · exact ⟨hall, .faulted (htaken.le.trans (Nat.min_le_right _ _))⟩
  obtain ⟨rfl, hfits, hshort, rfl⟩ := settle_ok (r := { r with source }) (fun h => requestLen_le h buf) hposition hsettle
  refine ⟨hall, .delivered ?_ hfits⟩
  rcases Nat.eq_zero_or_pos r.remaining with hzero | hpos
  · have hempty : out.length = 0 := Nat.le_zero.mp (hzero ▸ hfits)
    rw [htaken, arrived, hempty, Nat.zero_min]
  · have hshort : out.length ≤ requestLen r buf := hshort (Nat.pos_iff_ne_zero.mp hpos)
    rw [htaken, arrived, Nat.min_eq_left hshort]

/-! ### Any sequence of calls -/

end CountingReader

/-- Bytes a call delivered. -/
def Called.delivered {σ : Type} (call : Called σ) : Nat :=
  match call.outcome with
  | some (.ok bytes) => bytes.length
  | _ => 0

namespace CountingReader
variable {σ : Type} {answers : Answers σ} {start r : CountingReader σ} {delivered moved : Nat}

/-- A reader that some sequence of calls leaves, the bytes they delivered, and those they took from the source. -/
inductive Reached (answers : Answers σ) (start : CountingReader σ) : Nat → Nat → CountingReader σ → Prop
  | start : Reached answers start 0 0 start
  | read {delivered moved : Nat} {r : CountingReader σ} (h : Reached answers start delivered moved r) (fuel buf : Nat) :
    Reached answers start (delivered + (r.read answers fuel buf).delivered)
      (moved + taken (r.read answers fuel buf).requests) (r.read answers fuel buf).reader

/-- What holds between any two calls on a reader that started at position zero. -/
structure Counted (start : CountingReader σ) (delivered moved : Nat) (r : CountingReader σ) : Prop where
  position : r.position = delivered
  fits : delivered ≤ start.remaining
  own : r.own = start.own.after delivered
  shared : r.shared = start.shared.map (·.after delivered)
  copyBuffer : r.copyBuffer = start.copyBuffer
  moved_le : moved ≤ start.remaining + 1
  moved_eq : r.latch = none → moved = delivered

theorem remaining_le (r : CountingReader σ) : r.remaining ≤ U64_MAX :=
  (le_foldl_min.mp le_rfl).1

/-- What is left of every allowance goes down by what is delivered. -/
theorem Counted.remaining (h : Counted start delivered moved r) : r.remaining = start.remaining - delivered := by
  have hchain : r.chain = start.chain.map (·.after delivered) := by
    rw [chain, h.own, h.shared]
    rfl
  have hle (n : Nat) : n ≤ r.remaining ↔ n + delivered ≤ start.remaining := by
    rw [le_remaining_iff, le_remaining_iff, hchain, List.forall_mem_map]
    refine forall₂_congr fun budget hmem => ?_
    have hfits := le_remaining_iff.mp h.fits budget hmem
    rw [Budget.remaining_after hfits]
    omega
  have hlow := (hle r.remaining).mp le_rfl
  have hhigh := (hle (start.remaining - delivered)).mpr (by have := h.fits; omega)
  omega

theorem read_latched {fault : ContentFault} (h : r.latch = some fault) (fuel buf : Nat) :
    r.read answers fuel buf = ⟨some (.error fault), [], r⟩ := by
  simp [read, h, Latch.check]

theorem read_empty (h : r.latch = none) (fuel : Nat) : r.read answers fuel 0 = ⟨some (.ok []), [], r⟩ := by
  simp [read, h, Latch.check]

/-- A position never runs out of the numbers it is counted in. -/
theorem Counted.room (h : Counted start delivered moved r) : r.position + r.remaining ≤ U64_MAX := by
  have := remaining_le start
  have := h.fits
  rw [h.position, h.remaining]
  omega

theorem counted_of_reached (hposition : start.position = 0)
    (h : Reached answers start delivered moved r) : Counted start delivered moved r := by
  induction h with
  | start =>
    refine ⟨hposition, Nat.zero_le _, Budget.after_zero.symm, ?_, rfl, Nat.zero_le _, fun _ => rfl⟩
    simp [Budget.after_zero]
  | @read delivered moved r h fuel buf ih =>
    rcases hcheck : r.latch with _ | fault
    swap
    · -- a latched reader answers without its source
      rw [read_latched hcheck]
      exact ih
    rcases eq_or_ne buf 0 with rfl | hbuf
    · rw [read_empty hcheck]
      exact ih
    have hremaining := ih.remaining
    have hmoved := ih.moved_eq hcheck
    obtain ⟨-, hout⟩ := read_outcomes hcheck hbuf ih.room
    rcases hcall : r.read answers fuel buf with ⟨outcome, requests, r'⟩
    rw [hcall] at hout
    cases hout with
    | retrying htaken => exact ⟨ih.position, ih.fits, ih.own, ih.shared, ih.copyBuffer, by simpa [htaken] using ih.moved_le,
        fun _ => by simpa [htaken, Called.delivered] using hmoved⟩
    | faulted htaken =>
      refine ⟨ih.position, ih.fits, ih.own, ih.shared, ih.copyBuffer, ?_, nofun⟩
      have hfits := ih.fits
      rw [requestLen] at htaken
      split at htaken
      · dsimp only
        omega
      · have := htaken.trans (Nat.min_le_right _ _)
        dsimp only
        omega
    | @delivered bytes _ _ htaken hfits =>
      rw [hremaining] at hfits
      have hbefore := ih.fits
      have hsum (budget : Budget) (hmem : budget ∈ start.chain) :
          (budget.after delivered).after bytes.length = budget.after (delivered + bytes.length) :=
        Budget.after_after ((le_remaining_iff.mp (by omega : delivered + bytes.length ≤ start.remaining)) budget hmem)
      refine ⟨?_, ?_, ?_, ?_, ih.copyBuffer, ?_, fun _ => ?_⟩
      · show r.position + bytes.length = delivered + bytes.length
        rw [ih.position]
      · show delivered + bytes.length ≤ start.remaining
        omega
      · show r.own.after bytes.length = _
        rw [ih.own]
        exact hsum _ List.mem_cons_self
      · show r.shared.map (·.after bytes.length) = _
        rw [ih.shared, List.map_map]
        exact List.map_congr_left fun budget hmem => hsum budget (List.mem_cons_of_mem _ hmem)
      · dsimp only
        omega
      · show moved + taken _ = delivered + bytes.length
        rw [hmoved, htaken]

/-- A call that reports a fault leaves a reader that reports it from then on. -/
theorem latch_of_fault {fuel buf : Nat} {fault : ContentFault} (hposition : r.position + r.remaining ≤ U64_MAX)
    (hlatch : ∀ first, r.latch = some first → first.replay = first)
    (h : (r.read answers fuel buf).outcome = some (.error fault)) :
    (r.read answers fuel buf).reader.latch = some fault.replay := by
  rcases hcheck : r.latch with _ | first
  swap
  · rw [read_latched hcheck] at h ⊢
    cases h
    rw [hcheck, hlatch _ hcheck]
  rcases eq_or_ne buf 0 with rfl | hbuf
  · rw [read_empty hcheck] at h
    cases h
  obtain ⟨-, hout⟩ := read_outcomes hcheck hbuf hposition
  rcases hcall : r.read answers fuel buf with ⟨outcome, requests, r'⟩
  rw [hcall] at hout h
  cases hout with
  | retrying => cases h
  | faulted =>
    cases h
    rfl
  | delivered => cases h

/-- Nothing moves a reader that has faulted. -/
theorem reached_latched {fault : ContentFault} (hlatch : start.latch = some fault)
    (h : Reached answers start delivered moved r) : delivered = 0 ∧ moved = 0 ∧ r = start := by
  induction h with
  | start => exact ⟨rfl, rfl, rfl⟩
  | read _ fuel buf ih =>
    obtain ⟨rfl, rfl, rfl⟩ := ih
    rw [read_latched hlatch]
    exact ⟨rfl, rfl, rfl⟩

/-- A latched fault is in the form it is reported again. -/
theorem latch_replay (hstart : start.latch = none) (hposition : start.position = 0)
    (h : Reached answers start delivered moved r) {fault : ContentFault} (hlatch : r.latch = some fault) :
    fault.replay = fault := by
  induction h with
  | start => rw [hstart] at hlatch; cases hlatch
  | @read delivered moved r h fuel buf ih =>
    rcases hcheck : r.latch with _ | first
    swap
    · rw [read_latched hcheck] at hlatch
      exact ih hlatch
    rcases eq_or_ne buf 0 with rfl | hbuf
    · rw [read_empty hcheck] at hlatch
      exact ih hlatch
    obtain ⟨-, hout⟩ := read_outcomes hcheck hbuf (counted_of_reached hposition h).room
    rcases hcall : r.read answers fuel buf with ⟨outcome, requests, r'⟩
    rw [hcall] at hout hlatch
    cases hout with
    | retrying => rw [hcheck] at hlatch; cases hlatch
    | faulted =>
      cases hlatch
      exact ContentFault.replay_replay _
    | delivered =>
      have hnone : r.latch = some fault := hlatch
      rw [hcheck] at hnone
      cases hnone

/-- At a spent allowance the source is probed: its end is an end, and a byte is the fault of the first spent
budget. -/
theorem read_exhausted {fuel buf : Nat} {bytes : Bytes} {requests : List Request} {source : σ} (hlatch : r.latch = none)
    (hbuf : buf ≠ 0) (hzero : r.remaining = 0)
    (hsource : readSource answers fuel r.source 1 = (some (.ok bytes), requests, source)) :
    (bytes = [] → (r.read answers fuel buf).outcome = some (.ok []) ∧ (r.read answers fuel buf).reader.latch = none) ∧
    (bytes ≠ [] → ∃ budget, (r.chain.find? fun budget => decide (budget.remaining = 0)) = some budget ∧
      (r.read answers fuel buf).outcome = some (.error budget.exceeded)) := by
  have hcheck : r.latch.check = .ok () := by rw [hlatch]; rfl
  have hlen : r.requestLen buf = 1 := if_pos hzero
  have hspent : ({ r with source } : CountingReader σ).remaining = 0 := hzero
  unfold read
  simp only [hcheck, if_neg hbuf, hlen, hsource, settle, hspent, if_true]
  refine ⟨?_, fun hne => ?_⟩
  · rintro rfl
    exact ⟨rfl, hlatch⟩
  have hempty : bytes.isEmpty = false := by simpa using hne
  simp only [hempty, Bool.false_eq_true, if_false]
  rcases havailable : ({ r with source } : CountingReader σ).checkAvailable 1 with fault | _
  · obtain ⟨budget, hfind, rfl⟩ := checkAvailable_error havailable
    have hfind : (r.chain.find? fun budget => decide (budget.remaining < 1)) = some budget := hfind
    exact ⟨budget, by simpa [Nat.lt_one_iff] using hfind, rfl⟩
  · have := checkAvailable_ok_iff.mp havailable
    omega

/-- Any reader that any calls leave: what it delivered is its position and what every budget has grown by, no budget
is overrun, and at most one byte beyond the allowance was taken. A further call asks for no more than the copy
buffer and the allowance, or for one byte when it is spent; then the source's end is an end, and a byte is the
fault of the first spent budget. A fault is all there is from then on. -/
theorem counted (source : σ) (own : ResourceLimit) (shared : List Budget) (copyBuffer : Nat)
    (h : Reached answers (ofSource source own shared copyBuffer) delivered moved r) :
    r.position = delivered ∧ r.own.used = delivered ∧
    List.Forall₂ (fun before budget : Budget => budget.resource = before.resource ∧ budget.limit = before.limit ∧
      budget.used = before.used + delivered) shared r.shared ∧
    (∀ budget ∈ r.chain, budget.used ≤ budget.limit) ∧
    moved ≤ (ofSource source own shared copyBuffer).remaining + 1 ∧
    ∀ fuel buf,
      (∀ request ∈ (r.read answers fuel buf).requests,
        if r.remaining = 0 then request.len = 1 else request.len ≤ min (max copyBuffer 1) r.remaining) ∧
      (∀ bytes requests source', r.latch = none → buf ≠ 0 → r.remaining = 0 →
        readSource answers fuel r.source 1 = (some (.ok bytes), requests, source') →
        (bytes = [] → (r.read answers fuel buf).outcome = some (.ok []) ∧
          (r.read answers fuel buf).reader.latch = none) ∧
        (bytes ≠ [] → ∃ budget, (r.chain.find? fun budget => decide (budget.remaining = 0)) = some budget ∧
          (r.read answers fuel buf).outcome = some (.error budget.exceeded))) ∧
      ∀ fault, (r.read answers fuel buf).outcome = some (.error fault) →
        ∀ later delivered' moved', Reached answers (r.read answers fuel buf).reader delivered' moved' later →
          delivered' = 0 ∧ moved' = 0 ∧
          ∀ fuel' buf', later.read answers fuel' buf' = ⟨some (.error fault.replay), [], later⟩ := by
  have hcounted := counted_of_reached rfl h
  have hown : (ofSource source own shared copyBuffer).own.used = 0 := rfl
  have hfits := le_remaining_iff.mp hcounted.fits
  refine ⟨hcounted.position, ?_, ?_, fun budget _ => budget.used_le, hcounted.moved_le, fun fuel buf => ⟨?_, ?_, ?_⟩⟩
  · rw [hcounted.own, Budget.used_after (hfits _ List.mem_cons_self), hown, Nat.zero_add]
  · rw [hcounted.shared]
    refine List.forall₂_map_right_iff.mpr (List.forall₂_same.mpr fun budget hmem => ⟨rfl, rfl, ?_⟩)
    exact Budget.used_after (hfits budget (List.mem_cons_of_mem _ hmem))
  · intro request hmem
    rcases hlatch : r.latch with _ | fault
    swap
    · rw [read_latched hlatch] at hmem
      exact absurd hmem List.not_mem_nil
    rcases eq_or_ne buf 0 with rfl | hbuf
    · rw [read_empty hlatch] at hmem
      exact absurd hmem List.not_mem_nil
    have hlen := (read_outcomes hlatch hbuf hcounted.room).1 request hmem
    rw [hlen, requestLen]
    split
    · rfl
    · rw [hcounted.copyBuffer]
      exact min_le_min_right _ (Nat.min_le_right _ _)
  · exact fun bytes requests source' hlatch hbuf hzero hsource => read_exhausted hlatch hbuf hzero hsource
  · intro fault hfault later delivered' moved' hlater
    have hreplay (first : ContentFault) (hfirst : r.latch = some first) := latch_replay rfl rfl h hfirst
    have hlatched := latch_of_fault hcounted.room hreplay hfault
    obtain ⟨hdelivered, hmoved, rfl⟩ := reached_latched hlatched hlater
    exact ⟨hdelivered, hmoved, fun fuel' buf' => read_latched hlatched fuel' buf'⟩

def configLimit : ResourceLimit := ⟨.configJson, 4, by decide⟩

/-- A source without end. -/
def endless : Answers Unit :=
  fun _ len => (.ok (List.replicate len 1), ())

theorem counted_endless :
    ((ofSource () configLimit [] 2).read endless 1 8).reader.position = 2 := by
  have h : Reached endless (ofSource () configLimit [] 2) 2 2 ((ofSource () configLimit [] 2).read endless 1 8).reader :=
    .read .start 1 8
  exact (counted () configLimit [] 2 h).1

/-- A source that fails with a payload of its own. -/
def failing : Answers Unit :=
  fun _ _ => (.error (.source ⟨.other 5, some "disk"⟩), ())

/-- A copy buffer of zero asks for a byte, and a source's failure is reported again by its kind alone. -/
theorem counted_zero_buffer_and_payload :
    (∃ request ∈ ((ofSource () configLimit [] 0).read failing 1 8).requests,
      (ofSource () configLimit [] 0).remaining ≠ 0 ∧
      ¬request.len ≤ min 0 (ofSource () configLimit [] 0).remaining) ∧
    ((ofSource () configLimit [] 2).read failing 1 8).outcome ≠
      (((ofSource () configLimit [] 2).read failing 1 8).reader.read failing 1 8).outcome := by
  refine ⟨⟨⟨1, 0⟩, List.mem_singleton_self _, by decide, by decide⟩, by decide⟩

end CountingReader

end DeployCore
