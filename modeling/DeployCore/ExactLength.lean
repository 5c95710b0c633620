import DeployCore.Counting
import DeployCore.AppendTrailer

/-! # A member read at its exact length (`src/payload.rs`)

`ExactLength` passes on what an inner reader gives, up to a bound, and turns a reader that is shorter or longer than the
bound into an error. The inner reader is any machine that answers requests. `Behind` is what holds of the reader between
two calls; `Settles` is the induction over what a reader yields. -/

namespace DeployCore

structure ExactLength (σ : Type) where
  inner : σ
  bound : UInt64
  delivered : UInt64
  ended : Bool

/-- What a call returns: bytes, an error of the inner reader, or a fault of its length. -/
inductive ExactReply
  | ok (bytes : Bytes)
  | interrupted
  | error (err : ReadError)
  | fault (fault : MemberLengthFault)
  deriving DecidableEq

/-- A call: how much was asked of it, what it asked of the inner reader and was answered, and what it returned. -/
structure ExactCall where
  len : Nat
  asked : Option (Nat × Reply)
  reply : ExactReply
  deriving DecidableEq

namespace ExactLength
variable {σ : Type} (answers : Answers σ)

def new (inner : σ) (bound : UInt64) : ExactLength σ := ⟨inner, bound, 0, false⟩

/-- What becomes of the answer to a request for one byte more, at the bound. -/
def probed (r : ExactLength σ) : Reply → ExactReply × ExactLength σ
  | .ok [] => (.ok [], { r with ended := true })
  | .ok (_ :: _) => (.fault (.overran r.bound), r)
  | .interrupted => (.interrupted, r)
  | .error err => (.error err, r)

/-- What becomes of the answer to a request below the bound. A reader may report more than it was asked for. -/
def passed (r : ExactLength σ) (want : Nat) : Reply → ExactReply × ExactLength σ
  | .ok [] => (.fault (.endedEarly r.bound r.delivered), r)
  | .ok (byte :: bytes) =>
    let read := (byte :: bytes).take want
    (.ok read, { r with delivered := r.delivered + .ofNat read.length })
  | .interrupted => (.interrupted, r)
  | .error err => (.error err, r)

/-- `Read::read` into a buffer of `len` bytes. -/
def read (r : ExactLength σ) (len : Nat) : ExactCall × ExactLength σ :=
  if len = 0 ∨ r.ended = true then (⟨len, none, .ok []⟩, r)
  else
    let remaining := r.bound - r.delivered
    if remaining = 0 then
      let (answer, inner) := answers r.inner 1
      let (reply, r) := probed { r with inner } answer
      (⟨len, some (1, answer), reply⟩, r)
    else
      let want := min remaining.toNat len
      let (answer, inner) := answers r.inner want
      let (reply, r) := passed { r with inner } want answer
      (⟨len, some (want, answer), reply⟩, r)

/-- Calls one after the other, into buffers of these sizes. -/
def reads (r : ExactLength σ) : List Nat → List ExactCall × ExactLength σ
  | [] => ([], r)
  | len :: lens =>
    let (call, r) := r.read answers len
    let (calls, r) := r.reads lens
    (call :: calls, r)

end ExactLength

/-! ### What is meant -/

namespace ExactCall

/-- The bytes a call delivered. -/
def bytes (call : ExactCall) : Bytes :=
  match call.reply with
  | .ok bytes => bytes
  | .interrupted | .error _ | .fault _ => []

/-- The bytes that the inner reader put into the buffer of a request. -/
def given (call : ExactCall) : Bytes :=
  match call.asked with
  | some (want, .ok bytes) => bytes.take want
  | some (_, .interrupted) | some (_, .error _) | none => []

/-- A call that did not fail, unless it is to be made again. -/
def Goes (call : ExactCall) : Prop := (∃ bytes, call.reply = .ok bytes) ∨ call.reply = .interrupted

/-- A call that reports the end. -/
def Ends (call : ExactCall) : Prop := call.len ≠ 0 ∧ call.reply = .ok []

end ExactCall

namespace ExactLength

def deliveredBy (calls : List ExactCall) : Bytes := calls.flatMap ExactCall.bytes
def givenTo (calls : List ExactCall) : Bytes := calls.flatMap ExactCall.given

/-- What holds of a call behind others, of any inner reader. -/
structure HoldsTo (bound : UInt64) (before : List ExactCall) (call : ExactCall) : Prop where
  /-- No more is requested than may be delivered, but for one byte at the bound. -/
  request : ∀ want answer, call.asked = some (want, answer) → 0 < want ∧ want ≤ call.len ∧
    ((deliveredBy before).length + want ≤ bound.toNat ∨ (deliveredBy before).length = bound.toNat ∧ want = 1)
  short : ∀ want, call.asked = some (want, .ok []) → (deliveredBy before).length < bound.toNat →
    call.reply = .fault (.endedEarly bound (.ofNat (deliveredBy before).length))
  excess : ∀ want byte bytes, call.asked = some (want, .ok (byte :: bytes)) →
    (deliveredBy before).length = bound.toNat → call.reply = .fault (.overran bound)
  /-- A clean end is one behind calls none of which failed: then all that the inner reader gave was delivered, as many
  bytes as the bound, and it reported its end. -/
  clean : call.Ends → (∀ earlier ∈ before, earlier.Goes) →
    (deliveredBy before).length = bound.toNat ∧ givenTo (before ++ [call]) = deliveredBy before ∧
      ∃ earlier ∈ before ++ [call], earlier.asked = some (1, .ok [])

/-- An inner reader that yields these bytes, whatever it is asked for: it may give fewer than it is asked for and may be
interrupted, though not for ever, and at its end it reports the end. -/
inductive Yields {σ : Type} (answers : Answers σ) : Bytes → σ → Prop
  | intro {bytes : Bytes} {inner : σ}
    (ok : ∀ want chunk, want ≠ 0 → (answers inner want).1 = .ok chunk →
      chunk.length ≤ want ∧ chunk <+: bytes ∧ (chunk = [] → bytes = []))
    (noError : ∀ want err, want ≠ 0 → (answers inner want).1 ≠ .error err)
    (next : ∀ want chunk, want ≠ 0 → (answers inner want).1 = .ok chunk → chunk ≠ [] →
      Yields answers (bytes.drop chunk.length) (answers inner want).2)
    (again : ∀ want, want ≠ 0 → (answers inner want).1 = .interrupted → Yields answers bytes (answers inner want).2) :
    Yields answers bytes inner

/-- How reading a reader of so many bytes ends. -/
def verdict (bound : UInt64) (length : Nat) : ExactReply :=
  if length = bound.toNat then .ok []
  else if length < bound.toNat then .fault (.endedEarly bound (.ofNat length))
  else .fault (.overran bound)

/-- Reading into buffers of these sizes, one call after the other, goes on to a call that returns `reply`, before which
no call failed or reported the end, and these bytes were delivered. -/
def Settles {σ : Type} (answers : Answers σ) (r : ExactLength σ) (lens : Nat → Nat) (reply : ExactReply)
    (delivered : Bytes) : Prop :=
  ∃ before call, (r.reads answers ((List.range (before.length + 1)).map lens)).1 = before ++ [call] ∧
    (∀ earlier ∈ before, earlier.Goes ∧ ¬ earlier.Ends) ∧ call.len ≠ 0 ∧ call.reply = reply ∧
    deliveredBy before = delivered

/-- Reading at a bound: what every call holds to, and how the reading of a reader of so many bytes comes out. -/
structure ReadsExactly {σ : Type} (answers : Answers σ) (inner : σ) (bound : UInt64) : Prop where
  within : ∀ lens, (deliveredBy ((ExactLength.new inner bound).reads answers lens).1).length ≤ bound.toNat
  holdsTo : ∀ lens before call after, ((ExactLength.new inner bound).reads answers lens).1 = before ++ call :: after →
    HoldsTo bound before call
  /-- With buffers that are not all empty from some point on, the reading settles, and only as the length tells. -/
  settles : ∀ bytes, Yields answers bytes inner → ∀ lens : Nat → Nat, (∀ i, ∃ j ≥ i, lens j ≠ 0) →
    Settles answers (ExactLength.new inner bound) lens (verdict bound bytes.length) (bytes.take bound.toNat)
  /-- A clean end behind exactly the inner reader's bytes: when these are as many as the bound, and then only. -/
  exact : ∀ bytes, Yields answers bytes inner → ∀ lens : Nat → Nat, (∀ i, ∃ j ≥ i, lens j ≠ 0) →
    (Settles answers (ExactLength.new inner bound) lens (.ok []) bytes ↔ bytes.length = bound.toNat)

/-! ### What one call does -/

section Call
variable {σ : Type} {answers : Answers σ} {r : ExactLength σ} {bound : UInt64} {before : List ExactCall} {len : Nat}

theorem read_idle (h : len = 0 ∨ r.ended = true) : r.read answers len = (⟨len, none, .ok []⟩, r) := by
  rw [read, if_pos h]

theorem read_full (answers : Answers σ) (hlen : len ≠ 0) (hended : r.ended = false) (hfull : r.delivered = r.bound) :
    r.read answers len = (⟨len, some (1, (answers r.inner 1).1),
        (probed { r with inner := (answers r.inner 1).2 } (answers r.inner 1).1).1⟩,
      (probed { r with inner := (answers r.inner 1).2 } (answers r.inner 1).1).2) := by
  rw [read, if_neg (by simp [hlen, hended]), if_pos (by rw [hfull, UInt64.sub_self])]

/-- What is asked of the inner reader below the bound. -/
def window (r : ExactLength σ) (len : Nat) : Nat := min (r.bound.toNat - r.delivered.toNat) len

theorem read_below (answers : Answers σ) (hlen : len ≠ 0) (hended : r.ended = false) (hbelow : r.delivered < r.bound) :
    r.read answers len = (⟨len, some (r.window len, (answers r.inner (r.window len)).1),
        (passed { r with inner := (answers r.inner (r.window len)).2 } (r.window len)
          (answers r.inner (r.window len)).1).1⟩,
      (passed { r with inner := (answers r.inner (r.window len)).2 } (r.window len)
        (answers r.inner (r.window len)).1).2) := by
  have hlt : r.delivered.toNat < r.bound.toNat := UInt64.lt_iff_toNat_lt.mp hbelow
  have hremaining : (r.bound - r.delivered).toNat = r.bound.toNat - r.delivered.toNat :=
    UInt64.toNat_sub_of_le _ _ (UInt64.le_iff_toNat_le.mpr hlt.le)
  rw [read, if_neg (by simp [hlen, hended]), if_neg, hremaining]
  · rfl
  · intro hzero
    rw [hzero] at hremaining
    simp at hremaining
    omega

theorem window_pos (hlen : len ≠ 0) (hbelow : r.delivered < r.bound) : 0 < r.window len := by
  have hlt : r.delivered.toNat < r.bound.toNat := UInt64.lt_iff_toNat_lt.mp hbelow
  unfold window
  omega

/-- What holds of the reader behind calls. -/
structure Behind (bound : UInt64) (before : List ExactCall) (r : ExactLength σ) : Prop where
  bound_eq : r.bound = bound
  delivered_eq : r.delivered.toNat = (deliveredBy before).length
  within : (deliveredBy before).length ≤ bound.toNat
  given : (∀ earlier ∈ before, earlier.Goes) → givenTo before = deliveredBy before
  ended : r.ended = true → (deliveredBy before).length = bound.toNat ∧
    ∃ earlier ∈ before, earlier.asked = some (1, .ok [])

@[simp] theorem deliveredBy_append {calls more : List ExactCall} :
    deliveredBy (calls ++ more) = deliveredBy calls ++ deliveredBy more :=
  List.flatMap_append

@[simp] theorem deliveredBy_singleton {call : ExactCall} : deliveredBy [call] = call.bytes := by
  simp [deliveredBy]

@[simp] theorem givenTo_append {calls more : List ExactCall} :
    givenTo (calls ++ more) = givenTo calls ++ givenTo more :=
  List.flatMap_append

@[simp] theorem givenTo_singleton {call : ExactCall} : givenTo [call] = call.given := by
  simp [givenTo]

/-- Behind a call that delivered nothing and was given nothing, unless it failed, the reader stands as before. -/
theorem Behind.silent (h : Behind bound before r) {call : ExactCall} {r' : ExactLength σ} (hbytes : call.bytes = [])
    (hgiven : call.Goes → call.given = []) (hbound : r'.bound = r.bound) (hdelivered : r'.delivered = r.delivered)
    (hended : r'.ended = true → r.ended = true ∨
      (deliveredBy before).length = bound.toNat ∧ call.asked = some (1, .ok [])) :
    Behind bound (before ++ [call]) r' := by
  refine ⟨hbound.trans h.bound_eq, ?_, ?_, fun hgoes => ?_, fun hend => ?_⟩
  · simp [hdelivered, hbytes, h.delivered_eq]
  · simpa [hbytes] using h.within
  · have hbefore := h.given fun earlier hmem => hgoes earlier (List.mem_append_left _ hmem)
    simp [hbefore, hbytes, hgiven (hgoes call (by simp))]
  · rcases hended hend with hold | ⟨hfull, hasked⟩
    · obtain ⟨hfull, earlier, hmem, hasked⟩ := h.ended hold
      exact ⟨by simpa [hbytes] using hfull, earlier, List.mem_append_left _ hmem, hasked⟩
    · exact ⟨by simpa [hbytes] using hfull, call, by simp, hasked⟩

/-- A call that asks nothing of the inner reader and reports no end. -/
theorem HoldsTo.of_idle (h : Behind bound before r) (hidle : len = 0 ∨ r.ended = true) :
    HoldsTo bound before ⟨len, none, .ok []⟩ where
  request _ _ hasked := by cases hasked
  short _ hasked := by cases hasked
  excess _ _ _ hasked := by cases hasked
  clean hends hgoes := by
    obtain ⟨hfull, earlier, hmem, hasked⟩ := h.ended (hidle.resolve_left hends.1)
    refine ⟨hfull, ?_, earlier, List.mem_append_left _ hmem, hasked⟩
    simp [h.given hgoes, ExactCall.given]

/-- The call that probes for one byte more. -/
theorem holdsTo_probed (h : Behind bound before r) (hlen : len ≠ 0) (hfull : r.delivered = r.bound) (answer : Reply)
    (inner : σ) : HoldsTo bound before ⟨len, some (1, answer), (probed { r with inner } answer).1⟩ ∧
      Behind bound (before ++ [⟨len, some (1, answer), (probed { r with inner } answer).1⟩])
        (probed { r with inner } answer).2 := by
  have hcount : (deliveredBy before).length = bound.toNat := by rw [← h.delivered_eq, hfull, h.bound_eq]
  have hrequest : ∀ want reply, some (1, answer) = some (want, reply) → 0 < want ∧ want ≤ len ∧
      ((deliveredBy before).length + want ≤ bound.toNat ∨ (deliveredBy before).length = bound.toNat ∧ want = 1) := by
    intro want reply hasked
    obtain ⟨rfl, -⟩ := Prod.mk.inj (Option.some.inj hasked)
    exact ⟨Nat.one_pos, Nat.one_le_iff_ne_zero.mpr hlen, .inr ⟨hcount, rfl⟩⟩
  rcases answer with (_ | ⟨byte, bytes⟩) | _ | err
  · refine ⟨⟨hrequest, fun _ _ hshort => absurd hshort hcount.not_lt, by simp, fun _ hgoes => ?_⟩, ?_⟩
    · exact ⟨hcount, by simp [h.given hgoes, ExactCall.given], ⟨len, some (1, .ok []), .ok []⟩, by simp [probed], rfl⟩
    · exact h.silent rfl (fun _ => rfl) rfl rfl fun _ => .inr ⟨hcount, rfl⟩
  · refine ⟨⟨hrequest, by simp, fun _ _ _ _ _ => by simp [probed, h.bound_eq], fun hends => ?_⟩, ?_⟩
    · cases hends.2
    · exact h.silent rfl (fun hgoes => by simp [ExactCall.Goes, probed] at hgoes) rfl rfl .inl
  · exact ⟨⟨hrequest, by simp, by simp, fun hends => by cases hends.2⟩, h.silent rfl (fun _ => rfl) rfl rfl .inl⟩
  · exact ⟨⟨hrequest, by simp, by simp, fun hends => by cases hends.2⟩, h.silent rfl (fun _ => rfl) rfl rfl .inl⟩

/-- Bytes that come within the window leave the count of the delivered bytes exact. -/
theorem toNat_delivered_add {read : Bytes} (hread : read.length ≤ r.bound.toNat - r.delivered.toNat)
    (hbelow : r.delivered.toNat < r.bound.toNat) :
    (r.delivered + .ofNat read.length).toNat = r.delivered.toNat + read.length := by
  have hfits := r.bound.toNat_lt
  rw [UInt64.toNat_add, UInt64.toNat_ofNat_of_lt' (by simp only [UInt64.size]; omega), Nat.mod_eq_of_lt (by omega)]

/-- The call that asks for bytes below the bound. -/
theorem holdsTo_passed (h : Behind bound before r) (hlen : len ≠ 0) (hended : r.ended = false)
    (hbelow : r.delivered < r.bound) (answer : Reply) (inner : σ) :
    HoldsTo bound before ⟨len, some (r.window len, answer), (passed { r with inner } (r.window len) answer).1⟩ ∧
      Behind bound (before ++ [⟨len, some (r.window len, answer), (passed { r with inner } (r.window len) answer).1⟩])
        (passed { r with inner } (r.window len) answer).2 := by
  have hwindow := window_pos hlen hbelow
  have hlt : r.delivered.toNat < r.bound.toNat := UInt64.lt_iff_toNat_lt.mp hbelow
  have hbound := congrArg UInt64.toNat h.bound_eq
  have hcount := h.delivered_eq
  have hrequest : ∀ want reply, some (r.window len, answer) = some (want, reply) → 0 < want ∧ want ≤ len ∧
      ((deliveredBy before).length + want ≤ bound.toNat ∨ (deliveredBy before).length = bound.toNat ∧ want = 1) := by
    intro want reply hasked
    obtain ⟨rfl, -⟩ := Prod.mk.inj (Option.some.inj hasked)
    refine ⟨hwindow, Nat.min_le_right _ _, .inl ?_⟩
    unfold window
    omega
  have hshort : (deliveredBy before).length ≠ bound.toNat := by omega
  rcases answer with (_ | ⟨byte, bytes⟩) | _ | err
  · refine ⟨⟨hrequest, fun _ _ _ => ?_, by simp, fun hends => by cases hends.2⟩, ?_⟩
    · simp [passed, h.bound_eq, ← hcount]
    · exact h.silent rfl (fun _ => List.take_nil) rfl rfl .inl
  · have hread : ((byte :: bytes).take (r.window len)).length ≤ r.bound.toNat - r.delivered.toNat :=
      (List.length_take_le _ _).trans (Nat.min_le_left _ _)
    refine ⟨⟨hrequest, by simp, fun _ _ _ _ heq => absurd heq hshort, fun hends => ?_⟩, h.bound_eq, ?_, ?_, ?_, ?_⟩
    · have hnil : (byte :: bytes).take (r.window len) = [] := ExactReply.ok.inj hends.2
      rw [List.take_eq_nil_iff] at hnil
      simp [hwindow.ne'] at hnil
    · rw [deliveredBy_append, List.length_append, deliveredBy_singleton, ← hcount]
      exact toNat_delivered_add hread hlt
    · rw [deliveredBy_append, List.length_append, deliveredBy_singleton]
      have : (ExactCall.bytes ⟨len, some (r.window len, .ok (byte :: bytes)),
        (passed { r with inner } (r.window len) (.ok (byte :: bytes))).1⟩).length ≤ _ := hread
      omega
    · intro hgoes
      have hbefore := h.given fun earlier hmem => hgoes earlier (List.mem_append_left _ hmem)
      simp [hbefore, ExactCall.given, ExactCall.bytes, passed]
    · intro hend
      exact absurd (hended ▸ hend : false = true) Bool.false_ne_true
  · exact ⟨⟨hrequest, by simp, by simp, fun hends => by cases hends.2⟩, h.silent rfl (fun _ => rfl) rfl rfl .inl⟩
  · exact ⟨⟨hrequest, by simp, by simp, fun hends => by cases hends.2⟩, h.silent rfl (fun _ => rfl) rfl rfl .inl⟩

/-- One call, whatever the inner reader answers. -/
theorem holdsTo_read (answers : Answers σ) (h : Behind bound before r) (len : Nat) :
    HoldsTo bound before (r.read answers len).1 ∧
      Behind bound (before ++ [(r.read answers len).1]) (r.read answers len).2 := by
  by_cases hidle : len = 0 ∨ r.ended = true
  · rw [read_idle hidle]
    exact ⟨.of_idle h hidle, h.silent rfl (fun _ => rfl) rfl rfl .inl⟩
  · obtain ⟨hlen, hended⟩ := not_or.mp hidle
    rw [Bool.not_eq_true] at hended
    by_cases hfull : r.delivered = r.bound
    · rw [read_full answers hlen hended hfull]
      exact holdsTo_probed h hlen hfull _ _
    · have hbelow : r.delivered < r.bound := by
        have hle := h.within
        rw [← h.delivered_eq, ← h.bound_eq] at hle
        exact UInt64.lt_of_le_of_ne (UInt64.le_iff_toNat_le.mpr hle) hfull
      rw [read_below answers hlen hended hbelow]
      exact holdsTo_passed h hlen hended hbelow _ _

theorem reads_cons {lens : List Nat} : (r.reads answers (len :: lens)).1 =
    (r.read answers len).1 :: ((r.read answers len).2.reads answers lens).1 := rfl

/-- Every call of a run holds to the bound, and the run never delivers more. -/
theorem holdsTo_reads (answers : Answers σ) (lens : List Nat) (h : Behind bound before r) :
    (deliveredBy (before ++ (r.reads answers lens).1)).length ≤ bound.toNat ∧
      ∀ between call after, (r.reads answers lens).1 = between ++ call :: after →
        HoldsTo bound (before ++ between) call := by
  induction lens generalizing before r with
  | nil => exact ⟨by simpa [reads] using h.within, fun between call after hsplit => by simp [reads] at hsplit⟩
  | cons len lens ih =>
    obtain ⟨hcall, hbehind⟩ := holdsTo_read answers h len
    obtain ⟨hwithin, hrest⟩ := ih hbehind
    rw [reads_cons]
    refine ⟨by simpa using hwithin, fun between call after hsplit => ?_⟩
    rcases between with _ | ⟨first, between⟩
    · obtain ⟨rfl, -⟩ := List.cons.inj hsplit
      simpa using hcall
    · obtain ⟨rfl, htail⟩ := List.cons.inj hsplit
      simpa using hrest between call after htail

theorem Behind.start (inner : σ) : Behind bound [] (new inner bound) := by
  refine ⟨rfl, ?_, ?_, fun _ => rfl, fun hend => ?_⟩
  · simp [new, deliveredBy]
  · simp [deliveredBy]
  · exact absurd hend Bool.false_ne_true

/-! ### Reading to the end -/

variable {lens : Nat → Nat} {reply : ExactReply} {call : ExactCall} {r' : ExactLength σ} {delivered : Bytes}

/-- The call that reports how the reading ended. -/
theorem Settles.here (hread : r.read answers (lens 0) = (call, r')) (hlen : call.len ≠ 0) :
    Settles answers r lens call.reply [] :=
  ⟨[], call, by simp [reads, hread], by simp, hlen, rfl, rfl⟩

/-- A call after which the reading goes on. -/
theorem Settles.behind (hread : r.read answers (lens 0) = (call, r')) (hgoes : call.Goes) (hends : ¬ call.Ends)
    (h : Settles answers r' (fun i => lens (i + 1)) reply delivered) :
    Settles answers r lens reply (call.bytes ++ delivered) := by
  obtain ⟨before, last, hreads, hbefore, hlen, hreply, hdelivered⟩ := h
  refine ⟨call :: before, last, ?_, List.forall_mem_cons.mpr ⟨⟨hgoes, hends⟩, hbefore⟩, hlen, hreply, ?_⟩
  · rw [List.length_cons, List.range_succ_eq_map, List.map_cons, List.map_map, reads_cons, hread]
    exact congrArg (call :: ·) hreads
  · rw [← hdelivered]
    rfl

theorem exists_shifted (hlens : ∀ i, ∃ j ≥ i, lens j ≠ 0) (i : Nat) : ∃ j ≥ i, lens (j + 1) ≠ 0 := by
  obtain ⟨k, hk, hne⟩ := hlens (i + 1)
  exact ⟨k - 1, by omega, by rwa [Nat.sub_add_cancel (by omega)]⟩

/-- Empty buffers change nothing: it is enough to settle when the first buffer is not empty. -/
theorem Settles.of_nonempty (h : ∀ lens : Nat → Nat, lens 0 ≠ 0 → (∀ i, ∃ j ≥ i, lens j ≠ 0) →
      Settles answers r lens reply delivered) (hlens : ∀ i, ∃ j ≥ i, lens j ≠ 0) :
    Settles answers r lens reply delivered := by
  obtain ⟨j, -, hj⟩ := hlens 0
  induction j generalizing lens with
  | zero => exact h lens hj hlens
  | succ j ih =>
    by_cases hzero : lens 0 = 0
    · have hrest := ih (exists_shifted hlens) hj
      exact hrest.behind (read_idle (.inl hzero)) (.inl ⟨[], rfl⟩) fun hends => hends.1 hzero
    · exact h lens hzero hlens

theorem verdict_exact : verdict bound bound.toNat = .ok [] := if_pos rfl

theorem verdict_short {length : Nat} (h : length < bound.toNat) :
    verdict bound length = .fault (.endedEarly bound (.ofNat length)) := by
  rw [verdict, if_neg h.ne, if_pos h]

theorem verdict_long {length : Nat} (h : bound.toNat < length) : verdict bound length = .fault (.overran bound) := by
  rw [verdict, if_neg h.ne', if_neg h.not_gt]

/-- A reader that yields so many bytes behind those delivered settles as their number tells. -/
theorem settles_of_yields {bytes : Bytes} {inner : σ} (h : Yields answers bytes inner) (hinner : r.inner = inner)
    (hended : r.ended = false) (hle : r.delivered.toNat ≤ r.bound.toNat) (hlens : ∀ i, ∃ j ≥ i, lens j ≠ 0) :
    Settles answers r lens (verdict r.bound (r.delivered.toNat + bytes.length))
      (bytes.take (r.bound.toNat - r.delivered.toNat)) := by
  induction h generalizing r lens with
  | @intro bytes inner hok hnoError _ _ ihnext ihagain =>
    subst hinner
    refine Settles.of_nonempty (fun lens hlen hlens => ?_) hlens
    by_cases hfull : r.delivered = r.bound
    · have hread := read_full answers hlen hended hfull
      rw [hfull, Nat.sub_self, List.take_zero]
      rcases hanswer : (answers r.inner 1).1 with (_ | ⟨byte, chunk⟩) | _ | err <;> rw [hanswer] at hread
      · rw [(hok 1 [] Nat.one_ne_zero hanswer).2.2 rfl]
        rw [List.length_nil, Nat.add_zero, verdict_exact]
        exact .here hread hlen
      · have hlength := (hok 1 _ Nat.one_ne_zero hanswer).2.1.length_le
        rw [List.length_cons] at hlength
        rw [verdict_long (by omega)]
        exact .here hread hlen
      · have hrest := ihagain 1 Nat.one_ne_zero hanswer (r := { r with inner := (answers r.inner 1).2 }) rfl hended hle
          (exists_shifted hlens)
        simp only [hfull, Nat.sub_self, List.take_zero] at hrest hread
        exact hrest.behind hread (.inr rfl) fun hends => by cases hends.2
      · exact absurd hanswer (hnoError 1 err Nat.one_ne_zero)
    · have hlt : r.delivered.toNat < r.bound.toNat :=
        Nat.lt_of_le_of_ne hle fun heq => hfull (UInt64.toNat_inj.mp heq)
      have hbelow : r.delivered < r.bound := UInt64.lt_iff_toNat_lt.mpr hlt
      have hwindow := (window_pos hlen hbelow).ne'
      have hread := read_below answers hlen hended hbelow
      rcases hanswer : (answers r.inner (r.window (lens 0))).1 with (_ | ⟨byte, chunk⟩) | _ | err <;>
        rw [hanswer] at hread
      · rw [(hok _ [] hwindow hanswer).2.2 rfl, List.take_nil]
        rw [List.length_nil, Nat.add_zero, verdict_short hlt, UInt64.ofNat_toNat]
        exact .here hread hlen
      · obtain ⟨hwithin, hchunk, -⟩ := hok _ _ hwindow hanswer
        have hread' : ((byte :: chunk).take (r.window (lens 0))) = byte :: chunk := List.take_of_length_le hwithin
        have hroom : (byte :: chunk).length ≤ r.bound.toNat - r.delivered.toNat :=
          hwithin.trans (Nat.min_le_left _ _)
        have hdelivered := toNat_delivered_add hroom hlt
        rw [passed, hread'] at hread
        have hrest := ihnext _ _ hwindow hanswer (List.cons_ne_nil _ _)
          (r := { r with inner := (answers r.inner (r.window (lens 0))).2,
                         delivered := r.delivered + .ofNat (byte :: chunk).length })
          rfl hended (by simp only [hdelivered]; omega) (exists_shifted hlens)
        have hstep := hrest.behind hread (.inl ⟨_, rfl⟩) fun hends => List.cons_ne_nil _ _ (ExactReply.ok.inj hends.2)
        obtain ⟨rest, rfl⟩ := hchunk
        rw [List.drop_left] at hstep
        simp only [hdelivered] at hstep
        rw [List.length_append, ← Nat.add_assoc, List.take_append, List.take_of_length_le hroom, Nat.sub_sub]
        exact hstep
      · have hrest := ihagain _ hwindow hanswer (r := { r with inner := (answers r.inner (r.window (lens 0))).2 }) rfl
          hended hle (exists_shifted hlens)
        exact hrest.behind hread (.inr rfl) fun hends => by cases hends.2
      · exact absurd hanswer (hnoError _ err hwindow)

/-! ### Reading comes out in one way -/

theorem reads_append {lens more : List Nat} : (r.reads answers (lens ++ more)).1 =
    (r.reads answers lens).1 ++ ((r.reads answers lens).2.reads answers more).1 := by
  induction lens generalizing r with
  | nil => rfl
  | cons len lens ih => rw [List.cons_append, reads_cons, ih, reads_cons]; rfl

theorem length_reads {lens : List Nat} : (r.reads answers lens).1.length = lens.length := by
  induction lens generalizing r with
  | nil => rfl
  | cons len lens ih => rw [reads_cons, List.length_cons, ih, List.length_cons]

/-- The call that was made into the `i`th buffer. -/
def callAt (answers : Answers σ) (r : ExactLength σ) (lens : Nat → Nat) (i : Nat) : Option ExactCall :=
  (r.reads answers ((List.range (i + 1)).map lens)).1[i]?

theorem callAt_of_le {i n : Nat} (h : i ≤ n) {before : List ExactCall} {call : ExactCall}
    (hreads : (r.reads answers ((List.range (n + 1)).map lens)).1 = before ++ [call]) :
    callAt answers r lens i = (before ++ [call])[i]? := by
  obtain ⟨k, rfl⟩ := Nat.exists_eq_add_of_le h
  rw [show i + k + 1 = i + 1 + k by omega, List.range_add, List.map_append, reads_append] at hreads
  rw [← hreads, List.getElem?_append_left (by simp [length_reads])]
  rfl

theorem Settles.callAt (h : Settles answers r lens reply delivered) : ∃ n call,
    callAt answers r lens n = some call ∧ call.len ≠ 0 ∧ call.reply = reply ∧
      ∀ i < n, ∃ earlier, callAt answers r lens i = some earlier ∧ earlier.Goes ∧ ¬ earlier.Ends := by
  obtain ⟨before, call, hreads, hbefore, hlen, hreply, -⟩ := h
  refine ⟨before.length, call, ?_, hlen, hreply, fun i hi => ⟨before[i], ?_, hbefore _ (List.getElem_mem hi)⟩⟩
  · rw [callAt_of_le le_rfl hreads]
    simp
  · rw [callAt_of_le hi.le hreads, List.getElem?_append_left hi, List.getElem?_eq_getElem hi]

/-- No call that the reading goes on behind returns what ends it. -/
theorem Settles.reply_unique {first second : Bytes} {reply' : ExactReply}
    (h : Settles answers r lens reply first) (h' : Settles answers r lens reply' second)
    (hlast : ∀ call : ExactCall, call.len ≠ 0 → call.reply = reply → ¬ (call.Goes ∧ ¬ call.Ends))
    (hlast' : ∀ call : ExactCall, call.len ≠ 0 → call.reply = reply' → ¬ (call.Goes ∧ ¬ call.Ends)) :
    reply = reply' := by
  obtain ⟨n, call, hcall, hlen, hreply, hbefore⟩ := h.callAt
  obtain ⟨n', call', hcall', hlen', hreply', hbefore'⟩ := h'.callAt
  rcases lt_trichotomy n n' with hlt | rfl | hlt
  · obtain ⟨earlier, hearlier, hgoes⟩ := hbefore' n hlt
    obtain rfl := Option.some.inj (hcall.symm.trans hearlier)
    exact absurd hgoes (hlast call hlen hreply)
  · obtain rfl := Option.some.inj (hcall.symm.trans hcall')
    exact hreply.symm.trans hreply'
  · obtain ⟨earlier, hearlier, hgoes⟩ := hbefore n' hlt
    obtain rfl := Option.some.inj (hcall'.symm.trans hearlier)
    exact absurd hgoes (hlast' call' hlen' hreply')

theorem verdict_last {length : Nat} (call : ExactCall) (hlen : call.len ≠ 0)
    (hreply : call.reply = verdict bound length) : ¬ (call.Goes ∧ ¬ call.Ends) := by
  rintro ⟨hgoes, hends⟩
  unfold verdict at hreply
  split at hreply
  · exact hends ⟨hlen, hreply⟩
  · split at hreply <;> simp [ExactCall.Goes, hreply] at hgoes

/-- What the archive writer lets through of a stream without a fault is what the reading of its bytes comes to. -/
theorem exactLength_verdict {bytes : Bytes} :
    (exactLength bound ⟨bytes, none⟩).1 = bytes.take bound.toNat ∧
      ∀ fault, (exactLength bound ⟨bytes, none⟩).2 = some (.memberLength fault) ↔
        verdict bound bytes.length = .fault fault := by
  rcases lt_trichotomy bytes.length bound.toNat with hlt | heq | hlt
  · rw [exactLength, if_pos hlt, verdict_short hlt, List.take_of_length_le hlt.le]
    simp
  · rw [exactLength, if_neg heq.not_lt, if_neg heq.not_gt, heq, verdict_exact, List.take_of_length_le heq.le]
    simp
  · rw [exactLength, if_neg hlt.not_gt, if_pos hlt, verdict_long hlt]
    simp

end Call

/-- Whatever the inner reader is, reading it at a bound holds to the bound and comes out as its length tells. -/
theorem exactLength_readsExactly {σ : Type} (answers : Answers σ) (inner : σ) (bound : UInt64) :
    ReadsExactly answers inner bound where
  within lens := (holdsTo_reads answers lens (.start inner)).1
  holdsTo lens before call after hsplit := (holdsTo_reads answers lens (.start inner)).2 before call after hsplit
  settles bytes hyields lens hlens := by
    have h := settles_of_yields (r := new inner bound) hyields rfl rfl (Nat.zero_le _) hlens
    simpa [new] using h
  exact bytes hyields lens hlens := by
    have h := settles_of_yields (r := new inner bound) hyields rfl rfl (Nat.zero_le _) hlens
    simp only [new, UInt64.toNat_zero, Nat.zero_add, Nat.sub_zero] at h
    constructor
    · intro hclean
      have hverdict := hclean.reply_unique h (fun call hlen hreply => fun hgo => hgo.2 ⟨hlen, hreply⟩) verdict_last
      by_contra hne
      rw [verdict, if_neg hne] at hverdict
      split at hverdict <;> cases hverdict
    · intro hlength
      rwa [hlength, verdict_exact, List.take_of_length_le hlength.le] at h

end ExactLength

end DeployCore
