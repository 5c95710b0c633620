import DeployCore.Counting

/-! # Counted reading of a byte string

A byte string served in pieces of any size: `serves` says how much of a request is met, given what is left. What
is read from it through a `CountingReader` depends on the bytes and the budgets alone. -/

namespace DeployCore

/-- A byte string that is read from, and how it is cut into pieces. -/
structure ByteStream where
  bytes : Bytes
  serves : Nat → Nat → Nat

namespace ByteStream

/-- A request is met with at least one byte while there is one. -/
def piece (source : ByteStream) (len : Nat) : Nat :=
  min (min len source.bytes.length) (max 1 (source.serves source.bytes.length len))

def advanceBy (source : ByteStream) (n : Nat) : ByteStream :=
  { source with bytes := source.bytes.drop n }

def answers : Answers ByteStream :=
  fun source len => (.ok (source.bytes.take (source.piece len)), source.advanceBy (source.piece len))

end ByteStream

abbrev StreamReader := CountingReader ByteStream

namespace CountingReader

/-- `Read::read` of a byte string, which never interrupts. -/
def readStream (r : StreamReader) (buf : Nat) : Except ContentFault Bytes × StreamReader :=
  let call := r.read ByteStream.answers 1 buf
  (call.outcome.getD (.ok []), call.reader)

/-- Reads until `need` more bytes are there, at most `chunk` at a time; each round brings one at least. -/
def readMore (chunk : Nat) :
    Nat → StreamReader → (need : Nat) → (filled : Bytes) → Except ContentFault Bytes × StreamReader
  | _, r, 0, filled => (.ok filled, r)
  | 0, r, _, _ => (.error (.malformed .truncated), r)
  | fuel + 1, r, need, filled =>
    match r.readStream (min chunk need) with
    | (.error fault, r) => (.error fault, r)
    | (.ok [], r) => (.error (.malformed .truncated), r)
    | (.ok bytes, r) => readMore chunk fuel r (need - bytes.length) (filled ++ bytes)

/-- `read_full`. -/
def readFull (r : StreamReader) (len : Nat) : Except ContentFault Bytes × StreamReader :=
  readMore len len r len []

/-- The reader once `n` bytes have been read. -/
def advanceBy (r : StreamReader) (n : Nat) : StreamReader :=
  { r.after n with source := r.source.advanceBy n }

/-- Bytes that can be read before the stream ends or an allowance is spent. -/
def readable (r : StreamReader) : Nat :=
  min r.remaining r.source.bytes.length

/-- The fault of reading on at a spent allowance: that of the first budget with the least left. -/
def spent (r : StreamReader) : ContentFault :=
  ((r.chain.find? fun budget => decide (budget.remaining = r.remaining)).map Budget.exceeded).getD r.own.exceeded

/-- The fault of reading on where no more can be read; `atEnd` is what the end of the stream makes of it. -/
def shortfall (r : StreamReader) : ContentFault :=
  if r.source.bytes.length ≤ r.remaining then .malformed .truncated else r.spent

variable {r : StreamReader} {n m buf : Nat}

theorem after_after (h : n + m ≤ r.remaining) : (r.after n).after m = r.after (n + m) := by
  have hbudget (budget : Budget) (hmem : budget ∈ r.chain) : (budget.after n).after m = budget.after (n + m) :=
    Budget.after_after (le_remaining_iff.mp h budget hmem)
  have hshared : (r.shared.map (·.after n)).map (·.after m) = r.shared.map (·.after (n + m)) := by
    rw [List.map_map]
    exact List.map_congr_left fun budget hmem => hbudget budget (List.mem_cons_of_mem _ hmem)
  simp only [after, hshared, hbudget _ List.mem_cons_self, Nat.add_assoc]

theorem advanceBy_advanceBy (h : n + m ≤ r.remaining) : (r.advanceBy n).advanceBy m = r.advanceBy (n + m) := by
  have hafter := after_after h
  simp only [after, CountingReader.mk.injEq] at hafter
  simp only [advanceBy, ByteStream.advanceBy, after, List.drop_drop, CountingReader.mk.injEq, and_true, true_and]
  exact ⟨hafter.2.1, hafter.2.2.1, Nat.add_assoc _ _ _⟩

theorem advanceBy_zero : r.advanceBy 0 = r := by
  simp [advanceBy, ByteStream.advanceBy, after, Budget.after_zero]

theorem remaining_advanceBy (h : n ≤ r.remaining) : (r.advanceBy n).remaining = r.remaining - n := by
  have hle (k : Nat) : k ≤ (r.advanceBy n).remaining ↔ k + n ≤ r.remaining := by
    rw [le_remaining_iff, le_remaining_iff]
    show (∀ budget ∈ r.chain.map (·.after n), _) ↔ _
    rw [List.forall_mem_map]
    refine forall₂_congr fun budget hmem => ?_
    rw [Budget.remaining_after (le_remaining_iff.mp h budget hmem)]
    have := le_remaining_iff.mp h budget hmem
    omega
  have hlow := (hle _).mp le_rfl
  have hhigh := (hle (r.remaining - n)).mpr (by omega)
  omega

theorem length_advanceBy : (r.advanceBy n).source.bytes.length = r.source.bytes.length - n :=
  List.length_drop

theorem readable_advanceBy (h : n ≤ r.readable) : (r.advanceBy n).readable = r.readable - n := by
  unfold readable at h ⊢
  rw [remaining_advanceBy (by omega), length_advanceBy]
  omega

theorem find?_congr_mem {α : Type} {p q : α → Bool} {xs : List α} (h : ∀ x ∈ xs, p x = q x) :
    xs.find? p = xs.find? q := by
  induction xs with
  | nil => rfl
  | cons x xs ih =>
    obtain ⟨hx, hxs⟩ := List.forall_mem_cons.mp h
    rw [List.find?_cons, List.find?_cons, hx, ih hxs]

theorem spent_advanceBy (h : n ≤ r.remaining) : (r.advanceBy n).spent = r.spent := by
  have hchain : (r.advanceBy n).chain = r.chain.map (·.after n) := rfl
  have hfind : (r.advanceBy n).chain.find? (fun budget => decide (budget.remaining = (r.advanceBy n).remaining)) =
      (r.chain.find? fun budget => decide (budget.remaining = r.remaining)).map (·.after n) := by
    rw [hchain, List.find?_map, remaining_advanceBy h]
    refine congrArg (Option.map (Budget.after · n)) (find?_congr_mem fun budget hmem => ?_)
    have hfits := le_remaining_iff.mp h budget hmem
    have hleast := le_remaining_iff.mp le_rfl budget hmem
    show decide ((budget.after n).remaining = r.remaining - n) = decide (budget.remaining = r.remaining)
    rw [Budget.remaining_after hfits, decide_eq_decide]
    omega
  unfold spent
  rw [hfind, Option.map_map]
  rfl

theorem shortfall_advanceBy (h : n ≤ r.readable) : (r.advanceBy n).shortfall = r.shortfall := by
  unfold readable at h
  unfold shortfall
  rw [length_advanceBy, remaining_advanceBy (by omega), spent_advanceBy (by omega)]
  split_ifs <;> first | rfl | omega

/-- A reader that has not faulted, whose position has room for what it may still deliver. -/
structure Ready (r : StreamReader) : Prop where
  latch : r.latch = none
  copyBuffer : 0 < r.copyBuffer
  room : r.position + r.remaining ≤ U64_MAX

theorem Ready.advanceBy (h : Ready r) (hn : n ≤ r.remaining) : Ready (r.advanceBy n) := by
  refine ⟨h.latch, h.copyBuffer, ?_⟩
  have := h.room
  rw [remaining_advanceBy hn]
  show r.position + n + _ ≤ _
  omega

theorem ready_ofSource (source : ByteStream) (own : ResourceLimit) (shared : List Budget) (copyBuffer : Nat) :
    Ready (ofSource source own shared copyBuffer) := by
  refine ⟨rfl, Nat.lt_of_lt_of_le Nat.one_pos (Nat.le_max_right _ _), ?_⟩
  show 0 + _ ≤ _
  rw [Nat.zero_add]
  exact remaining_le _

theorem readStream_ok (h : Ready r) (hbuf : 0 < buf) {bytes : Bytes} {r' : StreamReader}
    (hsettle : settle { r with source := r.source.advanceBy (r.source.piece (r.requestLen buf)) } (r.requestLen buf)
      (r.source.bytes.take (r.source.piece (r.requestLen buf))) = .ok (bytes, r')) :
    r.readStream buf = (.ok bytes, r') := by
  have hcheck : r.latch.check = .ok () := by rw [h.latch]; rfl
  simp only [readStream, read, hcheck, if_neg (Nat.pos_iff_ne_zero.mp hbuf), readSource, ByteStream.answers, hsettle,
    Option.getD_some]

theorem readStream_error (h : Ready r) (hbuf : 0 < buf) {fault : ContentFault}
    (hsettle : settle { r with source := r.source.advanceBy (r.source.piece (r.requestLen buf)) } (r.requestLen buf)
      (r.source.bytes.take (r.source.piece (r.requestLen buf))) = .error fault) :
    (r.readStream buf).1 = .error fault := by
  have hcheck : r.latch.check = .ok () := by rw [h.latch]; rfl
  simp only [readStream, read, hcheck, if_neg (Nat.pos_iff_ne_zero.mp hbuf), readSource, ByteStream.answers, hsettle,
    Option.getD_some]

/-- While something is readable a read brings a piece of it. -/
theorem readStream_pos (h : Ready r) (hbuf : 0 < buf) (hreadable : 0 < r.readable) :
    ∃ n, 0 < n ∧ n ≤ buf ∧ n ≤ r.readable ∧ r.readStream buf = (.ok (r.source.bytes.take n), r.advanceBy n) := by
  have hremaining : r.remaining ≠ 0 := by
    unfold readable at hreadable
    omega
  have hlen : r.requestLen buf = min (min buf r.copyBuffer) r.remaining := if_neg hremaining
  have hcopy := h.copyBuffer
  obtain ⟨n, hn⟩ : ∃ n, r.source.piece (r.requestLen buf) = n := ⟨_, rfl⟩
  have hbounds : 0 < n ∧ n ≤ r.requestLen buf ∧ n ≤ r.source.bytes.length := by
    unfold readable at hreadable
    unfold ByteStream.piece at hn
    omega
  refine ⟨n, hbounds.1, by omega, by unfold readable; omega, readStream_ok h hbuf ?_⟩
  have htake : (r.source.bytes.take n).length = n := by
    rw [List.length_take]
    omega
  have hroom := h.room
  rw [hn]
  obtain ⟨r₁, hr₁⟩ : ∃ r₁, { r with source := r.source.advanceBy n } = r₁ := ⟨_, rfl⟩
  have hremaining₁ : r₁.remaining = r.remaining := hr₁ ▸ rfl
  have hposition₁ : r₁.position = r.position := hr₁ ▸ rfl
  have hdeliver : r₁.deliver (r.source.bytes.take n) = .ok (r₁.after n) := by
    rw [deliver_eq (by rw [htake, hremaining₁]; omega) (by rw [htake, hposition₁]; omega), htake]
  rw [hr₁, settle, if_neg (hremaining₁ ▸ hremaining), if_neg (by rw [htake]; omega), hdeliver, ← hr₁]
  rfl

/-- The end of the bytes is read as such, at a spent allowance too. -/
theorem readStream_end (h : Ready r) (hbuf : 0 < buf) (hempty : r.source.bytes = []) :
    r.readStream buf = (.ok [], r) := by
  have hsource : r.source.advanceBy (r.source.piece (r.requestLen buf)) = r.source := by
    unfold ByteStream.advanceBy
    rw [hempty, List.drop_nil, ← hempty]
  refine readStream_ok h hbuf ?_
  rw [hsource, hempty, List.take_nil]
  show settle r _ [] = _
  have hroom := h.room
  have hdeliver : r.deliver [] = .ok r := by
    rw [deliver_eq (Nat.zero_le _) (by rw [List.length_nil]; omega)]
    exact congrArg Except.ok after_zero
  have hlt : ¬r.requestLen buf < ([] : Bytes).length := Nat.not_lt_zero _
  rw [settle, hdeliver, if_neg hlt, List.isEmpty_nil, if_pos rfl]
  split <;> rfl

/-- At a spent allowance a further byte is a fault. -/
theorem readStream_spent (h : Ready r) (hbuf : 0 < buf) (hzero : r.remaining = 0) (hmore : r.source.bytes ≠ []) :
    (r.readStream buf).1 = .error r.spent := by
  refine readStream_error h hbuf ?_
  have hlen : r.requestLen buf = 1 := if_pos hzero
  have hpos := List.length_pos_iff.mpr hmore
  have hpiece : r.source.piece 1 = 1 := by
    unfold ByteStream.piece
    omega
  rw [hlen, hpiece]
  obtain ⟨r₁, hr₁⟩ : ∃ r₁, { r with source := r.source.advanceBy 1 } = r₁ := ⟨_, rfl⟩
  have hchain : r₁.chain = r.chain := hr₁ ▸ rfl
  have hremaining : r₁.remaining = 0 := hr₁ ▸ hzero
  have hown : r₁.own = r.own := hr₁ ▸ rfl
  have hnonempty : (r.source.bytes.take 1).isEmpty = false := by
    simpa using hmore
  rw [hr₁, settle, if_pos hremaining, hnonempty]
  simp only [Bool.false_eq_true, if_false]
  rcases havailable : r₁.checkAvailable 1 with fault | _
  · obtain ⟨budget, hfind, rfl⟩ := checkAvailable_error havailable
    have hspent : r.spent = budget.exceeded := by
      unfold spent
      rw [hzero]
      simp only [hchain, Nat.lt_one_iff] at hfind
      rw [hfind]
      rfl
    rw [hspent]
  · have := checkAvailable_ok_iff.mp havailable
    omega

theorem readMore_succ {chunk fuel need : Nat} {filled : Bytes} : readMore chunk (fuel + 1) r (need + 1) filled =
    match r.readStream (min chunk (need + 1)) with
    | (.error fault, r) => (.error fault, r)
    | (.ok [], r) => (.error (.malformed .truncated), r)
    | (.ok bytes, r) => readMore chunk fuel r (need + 1 - bytes.length) (filled ++ bytes) := by
  rw [readMore]
  exact Nat.succ_ne_zero need

theorem bytes_advanceBy : (r.advanceBy n).source.bytes = r.source.bytes.drop n := rfl

theorem length_take_readable (h : n ≤ r.readable) : (r.source.bytes.take n).length = n := by
  have := h.trans (Nat.min_le_right _ _)
  rw [List.length_take]
  omega

theorem readMore_ok {chunk fuel need : Nat} {filled : Bytes} (h : Ready r) (hchunk : 0 < chunk) (hfuel : need ≤ fuel)
    (hneed : need ≤ r.readable) :
    readMore chunk fuel r need filled = (.ok (filled ++ r.source.bytes.take need), r.advanceBy need) := by
  induction fuel generalizing r need filled with
  | zero =>
    obtain rfl : need = 0 := by omega
    simp [readMore, advanceBy_zero]
  | succ fuel ih =>
    rcases need with _ | need
    · simp [readMore, advanceBy_zero]
    have hrequest : 0 < min chunk (need + 1) := by omega
    obtain ⟨n, hpos, hle, hreadable, hread⟩ := readStream_pos h hrequest (by omega : 0 < r.readable)
    have hlength := length_take_readable hreadable
    have hrest : readMore chunk fuel (r.advanceBy n) (need + 1 - n) (filled ++ r.source.bytes.take n) = _ :=
      ih (h.advanceBy (hreadable.trans (Nat.min_le_left _ _))) (by omega) (by rw [readable_advanceBy hreadable]; omega)
    rw [readMore_succ, hread]
    rcases hbytes : r.source.bytes.take n with _ | ⟨byte, bytes⟩
    · rw [hbytes, List.length_nil] at hlength
      omega
    dsimp only
    rw [← hbytes, hlength, hrest, advanceBy_advanceBy (by unfold readable at hneed; omega), bytes_advanceBy,
      List.append_assoc, ← List.take_add, Nat.add_sub_cancel' (hle.trans (Nat.min_le_right _ _))]

theorem readMore_short {chunk fuel need : Nat} {filled : Bytes} (h : Ready r) (hchunk : 0 < chunk) (hfuel : need ≤ fuel)
    (hneed : r.readable < need) : (readMore chunk fuel r need filled).1 = .error r.shortfall := by
  induction fuel generalizing r need filled with
  | zero => omega
  | succ fuel ih =>
    rcases need with _ | need
    · omega
    have hrequest : 0 < min chunk (need + 1) := by omega
    rw [readMore_succ]
    rcases Nat.eq_zero_or_pos r.readable with hzero | hpos
    · by_cases hempty : r.source.bytes = []
      · rw [readStream_end h hrequest hempty]
        unfold shortfall
        rw [hempty, List.length_nil, if_pos (Nat.zero_le _)]
      · have hlength := List.length_pos_iff.mpr hempty
        have hremaining : r.remaining = 0 := by
          unfold readable at hzero
          omega
        have hfault := readStream_spent h hrequest hremaining hempty
        have hshort : r.shortfall = r.spent := by
          unfold shortfall
          rw [if_neg (by omega)]
        rw [hshort]
        rcases hread : r.readStream (min chunk (need + 1)) with ⟨outcome, r'⟩
        rw [hread] at hfault
        obtain rfl : outcome = .error r.spent := hfault
        rfl
    · obtain ⟨n, hn, hle, hreadable, hread⟩ := readStream_pos h hrequest hpos
      have hlength := length_take_readable hreadable
      have hrest : (readMore chunk fuel (r.advanceBy n) (need + 1 - n) (filled ++ r.source.bytes.take n)).1 = _ :=
        ih (h.advanceBy (hreadable.trans (Nat.min_le_left _ _))) (by omega) (by rw [readable_advanceBy hreadable]; omega)
      rw [hread]
      rcases hbytes : r.source.bytes.take n with _ | ⟨byte, bytes⟩
      · rw [hbytes, List.length_nil] at hlength
        omega
      dsimp only
      rw [← hbytes, hlength, hrest, shortfall_advanceBy hreadable]

/-- What can be read in full is, whatever the pieces. -/
theorem readFull_ok {len : Nat} (h : Ready r) (hlen : len ≤ r.readable) :
    r.readFull len = (.ok (r.source.bytes.take len), r.advanceBy len) := by
  rcases Nat.eq_zero_or_pos len with rfl | hpos
  · simp [readFull, readMore, advanceBy_zero]
  · rw [readFull, readMore_ok h hpos le_rfl hlen, List.nil_append]

theorem readFull_short {len : Nat} (h : Ready r) (hlen : r.readable < len) :
    (r.readFull len).1 = .error r.shortfall :=
  readMore_short h (by omega) le_rfl hlen

end CountingReader

end DeployCore
