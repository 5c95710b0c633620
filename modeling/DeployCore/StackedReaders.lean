import DeployCore.ReaderTape

/-! # Readers stacked on readers (`src/image/archive.rs`)

A counted reader is a source itself: others replay a prefix ahead of it, hash what passes through, or count it once
more. What such a stack gives is what the source under it holds, as far as every limit of the stack allows. -/

namespace DeployCore
open CountingReader

/-! ### What a source gives -/

/-- A source in one of these states gives the bytes it holds, in pieces of any size, and then ends or reports a fault. -/
structure Gives {σ : Type} (answers : Answers σ) (Holds : σ → Bytes → Option ContentFault → Prop) : Prop where
  piece {s bytes ending len} (h : Holds s bytes ending) (hbytes : bytes ≠ []) (hlen : 0 < len) :
    ∃ n s', 0 < n ∧ n ≤ len ∧ n ≤ bytes.length ∧ answers s len = (.ok (bytes.take n), s') ∧ Holds s' (bytes.drop n) ending
  ended {s len} (h : Holds s [] none) (hlen : 0 < len) : ∃ s', answers s len = (.ok [], s') ∧ Holds s' [] none
  failed {s fault len} (h : Holds s [] (some fault)) (hlen : 0 < len) :
    ∃ err, (answers s len).1 = .error err ∧ ContentFault.fromIo err = fault

/-- A byte string gives its bytes. -/
def StreamHolds (s : ByteStream) (bytes : Bytes) (ending : Option ContentFault) : Prop :=
  s.bytes = bytes ∧ ending = none

theorem gives_stream : Gives ByteStream.answers StreamHolds where
  piece := by
    rintro s bytes ending len ⟨rfl, rfl⟩ hbytes hlen
    have hpos := List.length_pos_iff.mpr hbytes
    have hpiece : 0 < s.piece len ∧ s.piece len ≤ len ∧ s.piece len ≤ s.bytes.length := by
      unfold ByteStream.piece
      omega
    exact ⟨_, _, hpiece.1, hpiece.2.1, hpiece.2.2, rfl, rfl, rfl⟩
  ended := by
    rintro s len ⟨hbytes, -⟩ -
    refine ⟨s.advanceBy (s.piece len), ?_, ?_, rfl⟩
    · rw [ByteStream.answers, hbytes, List.take_nil]
    · rw [ByteStream.advanceBy, hbytes, List.drop_nil]
  failed := by
    rintro s fault len ⟨-, h⟩
    cases h

/-! ### A counted reader over such a source -/

namespace CountingReader
variable {σ : Type} {answers : Answers σ} {Holds : σ → Bytes → Option ContentFault → Prop} {patience buf n m : Nat}
  {start r : CountingReader σ} {t : Tape}

theorem chain_after : (r.after n).chain = r.chain.map (·.after n) := rfl

theorem remaining_after (h : n ≤ r.remaining) : (r.after n).remaining = r.remaining - n := by
  have hle (k : Nat) : k ≤ (r.after n).remaining ↔ k + n ≤ r.remaining := by
    rw [le_remaining_iff, le_remaining_iff, chain_after, List.forall_mem_map]
    refine forall₂_congr fun budget hmem => ?_
    have := le_remaining_iff.mp h budget hmem
    rw [Budget.remaining_after this]
    omega
  have hlow := (hle _).mp le_rfl
  have hhigh := (hle (r.remaining - n)).mpr (by omega)
  omega

theorem checkAvailable_after (h : n ≤ r.remaining) (m : Nat) : (r.after n).checkAvailable m = r.checkAvailable (n + m) := by
  have hfind : (r.after n).chain.find? (fun budget => !decide (m ≤ budget.remaining)) =
      (r.chain.find? fun budget => !decide (n + m ≤ budget.remaining)).map (·.after n) := by
    rw [chain_after, List.find?_map]
    refine congrArg (Option.map (Budget.after · n)) (find?_congr_mem fun budget hmem => ?_)
    have := le_remaining_iff.mp h budget hmem
    show (!decide (m ≤ (budget.after n).remaining)) = _
    rw [Budget.remaining_after this]
    exact congrArg Bool.not (decide_eq_decide.mpr (by omega))
  rw [checkAvailable, hfind, checkAvailable]
  cases r.chain.find? fun budget => !decide (n + m ≤ budget.remaining) <;> rfl

/-- The fault of so many bytes where they are not available. -/
def refusal (r : CountingReader σ) (n : Nat) : ContentFault :=
  match r.checkAvailable n with
  | .error fault => fault
  | .ok () => r.own.exceeded

theorem checkAvailable_eq : r.checkAvailable n = if n ≤ r.remaining then .ok () else .error (r.refusal n) := by
  split_ifs with h
  · exact checkAvailable_ok_iff.mpr h
  · rw [refusal]
    rcases hcheck : r.checkAvailable n with fault | ⟨⟩
    · rfl
    · exact absurd (checkAvailable_ok_iff.mp hcheck) h

/-- A reader that has read nothing. -/
structure Fresh (start : CountingReader σ) : Prop where
  latch : start.latch = none
  copyBuffer : 0 < start.copyBuffer
  position : start.position = 0

theorem fresh_ofSource (source : σ) (own : ResourceLimit) (shared : List Budget) (copyBuffer : Nat) :
    (ofSource source own shared copyBuffer).Fresh :=
  ⟨rfl, Nat.lt_of_lt_of_le Nat.one_pos (Nat.le_max_right _ _), rfl⟩

/-- What a reader that has read nothing has ahead of it, over a source that holds these bytes. -/
def tape (start : CountingReader σ) (bytes : Bytes) (ending : Option ContentFault) : Tape where
  bytes
  allowance := start.remaining
  position := 0
  ending
  refusal := start.refusal

/-- The reader has come from `start` to where the tape is. -/
structure StandsAt (start : CountingReader σ) (Holds : σ → Bytes → Option ContentFault → Prop) (r : CountingReader σ)
    (t : Tape) : Prop where
  reader : r = { start.after t.position with source := r.source }
  fits : t.position ≤ start.remaining
  allowance : t.allowance = start.remaining - t.position
  refusal : t.refusal = start.refusal
  holds : Holds r.source t.bytes t.ending

theorem standsAt_start {bytes : Bytes} {ending : Option ContentFault} (hholds : Holds start.source bytes ending) :
    StandsAt start Holds start (start.tape bytes ending) := by
  refine ⟨?_, Nat.zero_le _, (Nat.sub_zero _).symm, rfl, hholds⟩
  show start = { start.after 0 with source := start.source }
  rw [after_zero]

theorem pull_of_ok (hlatch : r.latch = none) (hbuf : 0 < buf) (hpatience : 0 < patience) {bytes : Bytes} {s' : σ}
    (h : answers r.source (r.requestLen buf) = (.ok bytes, s')) : r.pull answers patience buf =
      match settle { r with source := s' } (r.requestLen buf) bytes with
      | .error fault => (.error fault, { r with source := s', latch := r.latch.record fault })
      | .ok (bytes, r) => (.ok bytes, r) := by
  obtain ⟨p, rfl⟩ : ∃ p, patience = p + 1 := ⟨patience - 1, by omega⟩
  have hcheck : r.latch.check = .ok () := by rw [hlatch]; rfl
  simp only [pull, read, hcheck, if_neg (Nat.pos_iff_ne_zero.mp hbuf), readSource, h]
  rcases settle { r with source := s' } (r.requestLen buf) bytes with fault | ⟨bytes, r'⟩ <;> rfl

theorem pull_of_error (hlatch : r.latch = none) (hbuf : 0 < buf) (hpatience : 0 < patience) {err : ReadError}
    (h : (answers r.source (r.requestLen buf)).1 = .error err) :
    (r.pull answers patience buf).1 = .error (.fromIo err) := by
  obtain ⟨p, rfl⟩ : ∃ p, patience = p + 1 := ⟨patience - 1, by omega⟩
  have hcheck : r.latch.check = .ok () := by rw [hlatch]; rfl
  rcases hanswer : answers r.source (r.requestLen buf) with ⟨reply, s'⟩
  obtain rfl : reply = .error err := by rw [hanswer] at h; exact h
  simp only [pull, read, hcheck, if_neg (Nat.pos_iff_ne_zero.mp hbuf), readSource, hanswer, Option.getD_some]

namespace StandsAt
variable (h : StandsAt start Holds r t)
include h

theorem latch (hstart : start.Fresh) : r.latch = none := by
  rw [h.reader]
  exact hstart.latch

theorem copyBuffer (hstart : start.Fresh) : 0 < r.copyBuffer := by
  rw [h.reader]
  exact hstart.copyBuffer

theorem position (hstart : start.Fresh) : r.position = t.position := by
  rw [h.reader]
  show start.position + _ = _
  rw [hstart.position, Nat.zero_add]

theorem remaining : r.remaining = t.allowance := by
  rw [h.reader, h.allowance]
  exact remaining_after h.fits

theorem available (n : Nat) : r.checkAvailable n = if n ≤ t.allowance then .ok () else .error (t.refusal (t.position + n)) := by
  have hfits := h.fits
  have hsame : r.checkAvailable n = (start.after t.position).checkAvailable n := by
    rw [h.reader]
    rfl
  rw [hsame, checkAvailable_after h.fits, checkAvailable_eq, h.refusal, h.allowance]
  exact if_congr (by omega) rfl rfl

/-- The reader `n` bytes further on, its source in another state. -/
theorem advance {s' : σ} (hn : n ≤ t.allowance) (hholds : Holds s' (t.bytes.drop n) t.ending) :
    StandsAt start Holds (({ r with source := s' } : CountingReader σ).after n) (t.advance n) := by
  have hfits := h.fits
  have hallowance := h.allowance
  refine ⟨?_, ?_, ?_, h.refusal, hholds⟩
  · show _ = { start.after (t.position + n) with source := s' }
    have hafter : (start.after t.position).after n = start.after (t.position + n) := by
      have hbudget (budget : Budget) (hmem : budget ∈ start.chain) :
          (budget.after t.position).after n = budget.after (t.position + n) :=
        Budget.after_after (le_remaining_iff.mp (by omega : t.position + n ≤ start.remaining) budget hmem)
      have hshared : (start.shared.map (·.after t.position)).map (·.after n) = start.shared.map (·.after (t.position + n)) := by
        rw [List.map_map]
        exact List.map_congr_left fun budget hmem => hbudget budget (List.mem_cons_of_mem _ hmem)
      simp only [after, hshared, hbudget _ List.mem_cons_self, Nat.add_assoc]
    rw [h.reader, ← hafter]
    rfl
  · show t.position + n ≤ _
    omega
  · show t.allowance - n = start.remaining - (t.position + n)
    omega

end StandsAt

/-- Over a source that gives its bytes, a counted reader plays the tape of them. -/
theorem plays (hgives : Gives answers Holds) (hstart : start.Fresh) (hpatience : 0 < patience) :
    Plays answers patience (StandsAt start Holds) where
  position h := h.position hstart
  available h n := h.available n
  piece := by
    intro r t buf h hbuf hreadable
    unfold Tape.readable at hreadable
    have hcopy := h.copyBuffer hstart
    have hremaining := h.remaining
    have hlen : r.requestLen buf = min (min buf r.copyBuffer) r.remaining := if_neg (by omega)
    have hroom : r.position + r.remaining ≤ U64_MAX := by
      have := remaining_le start
      have := h.fits
      rw [h.position hstart, hremaining, h.allowance]
      omega
    obtain ⟨n, s', hn, hrequest, hle, hanswer, hholds⟩ := @hgives.piece _ _ _ (r.requestLen buf) h.holds
      (List.length_pos_iff.mp (by omega)) (by omega)
    have htake : (t.bytes.take n).length = n := by
      rw [List.length_take]
      omega
    refine ⟨n, _, hn, by omega, by unfold Tape.readable; omega, ?_, h.advance (by omega) hholds⟩
    rw [pull_of_ok (h.latch hstart) hbuf hpatience hanswer]
    obtain ⟨r₁, hr₁⟩ : ∃ r₁, ({ r with source := s' } : CountingReader σ) = r₁ := ⟨_, rfl⟩
    have hremaining₁ : r₁.remaining = r.remaining := hr₁ ▸ rfl
    have hposition₁ : r₁.position = r.position := hr₁ ▸ rfl
    have hdeliver : r₁.deliver (t.bytes.take n) = .ok (r₁.after n) := by
      rw [deliver_eq (by rw [htake, hremaining₁]; omega) (by rw [htake, hposition₁]; omega), htake]
    rw [hr₁, settle, if_neg (by omega), if_neg (by rw [htake]; omega), hdeliver]
    rfl
  ended := by
    intro r t buf h hbuf hempty hending
    have hholds := h.holds
    rw [hempty, hending] at hholds
    have hlen : 0 < r.requestLen buf := by
      have := h.copyBuffer hstart
      unfold requestLen
      split_ifs <;> omega
    obtain ⟨s', hanswer, hholds'⟩ := hgives.ended hholds hlen
    have hholds₀ : Holds s' (t.bytes.drop 0) t.ending := by
      rw [hempty, hending]
      exact hholds'
    have hafter := h.advance (Nat.zero_le _) hholds₀
    rw [after_zero, Tape.advance_zero] at hafter
    refine ⟨_, ?_, hafter⟩
    rw [pull_of_ok (h.latch hstart) hbuf hpatience hanswer]
    obtain ⟨r₁, hr₁⟩ : ∃ r₁, ({ r with source := s' } : CountingReader σ) = r₁ := ⟨_, rfl⟩
    have hroom : r₁.position ≤ U64_MAX := by
      have hposition₁ : r₁.position = r.position := hr₁ ▸ rfl
      have := remaining_le start
      have := h.fits
      rw [hposition₁, h.position hstart]
      omega
    have hdeliver : r₁.deliver [] = .ok r₁ := by
      rw [@deliver_eq _ r₁ [] (Nat.zero_le _) hroom]
      exact congrArg Except.ok after_zero
    have hlt : ¬r.requestLen buf < ([] : Bytes).length := Nat.not_lt_zero _
    rw [hr₁, settle, hdeliver, if_neg hlt, List.isEmpty_nil, if_pos rfl]
    split_ifs <;> rfl
  failed := by
    intro r t buf fault h hbuf hempty hending
    have hholds := h.holds
    rw [hempty, hending] at hholds
    have hlen : 0 < r.requestLen buf := by
      have := h.copyBuffer hstart
      unfold requestLen
      split_ifs <;> omega
    obtain ⟨err, hanswer, rfl⟩ := hgives.failed hholds hlen
    exact pull_of_error (h.latch hstart) hbuf hpatience hanswer
  spent := by
    intro r t buf h hbuf hzero hmore
    have hremaining := h.remaining.trans hzero
    have hlen : r.requestLen buf = 1 := if_pos hremaining
    obtain ⟨n, s', hn, -, hle, hanswer, -⟩ := @hgives.piece _ _ _ (r.requestLen buf) h.holds hmore (by omega)
    have hnonempty : (t.bytes.take n).isEmpty = false := by
      have : t.bytes.take n ≠ [] := List.length_pos_iff.mp (by rw [List.length_take]; omega)
      simpa using this
    have havailable : r.checkAvailable 1 = .error t.spent := by
      rw [h.available, if_neg (by omega), Tape.spent, hzero]
    rw [pull_of_ok (h.latch hstart) hbuf hpatience hanswer]
    obtain ⟨r₁, hr₁⟩ : ∃ r₁, ({ r with source := s' } : CountingReader σ) = r₁ := ⟨_, rfl⟩
    have hremaining₁ : r₁.remaining = 0 := hr₁ ▸ hremaining
    have havailable₁ : r₁.checkAvailable 1 = .error t.spent := hr₁ ▸ havailable
    rw [hr₁, settle, if_pos hremaining₁, hnonempty, if_neg Bool.false_ne_true, havailable₁]

end CountingReader

/-- What a call has brought is the head of the tape, and nothing only where nothing is left. -/
theorem Plays.pulled {σ : Type} {answers : Answers σ} {patience buf : Nat} {At : CountingReader σ → Tape → Prop}
    (hp : Plays answers patience At) {r r' : CountingReader σ} {t : Tape} {chunk : Bytes} (hat : At r t) (hbuf : 0 < buf)
    (hpull : r.pull answers patience buf = (.ok chunk, r')) :
    ∃ n, chunk = t.bytes.take n ∧ At r' (t.advance n) ∧ (chunk = [] → t.bytes = []) := by
  rcases Nat.eq_zero_or_pos t.readable with hzero | hreadable
  · rcases hp.short hat hbuf hzero with ⟨hended, r₁, hshort, hat₁⟩ | ⟨-, hfault⟩
    · cases hpull.symm.trans hshort
      exact ⟨0, rfl, by rwa [Tape.advance_zero], fun _ => hended.1⟩
    · rw [hpull] at hfault
      cases hfault
  · obtain ⟨n, r₁, hn, -, hfits, hpiece, hat₁⟩ := hp.piece hat hbuf hreadable
    cases hpull.symm.trans hpiece
    refine ⟨n, rfl, hat₁, fun hempty => ?_⟩
    have hlength := Tape.length_take_readable hfits
    rw [hempty, List.length_nil] at hlength
    omega

/-! ### A counted reader as a source -/

/-- Reads of a counted reader, with a fault carried as an `io::Error`. -/
def CountingReader.stacked {σ : Type} (answers : Answers σ) (patience : Nat) : Answers (CountingReader σ) :=
  fun r len =>
    match r.pull answers patience len with
    | (.ok bytes, r) => (.ok bytes, r)
    | (.error fault, r) => (.error fault.intoIo, r)

/-- What ends a tape behind its readable bytes. -/
def Tape.behind (t : Tape) : Option ContentFault :=
  if t.bytes.length ≤ t.allowance then t.ending else some t.spent

/-- The tape as far as it can be read. -/
def Tape.cut (t : Tape) : Tape :=
  { t with
    bytes := t.bytes.take t.readable
    ending := t.behind }

section Stacked
variable {σ : Type} {answers : Answers σ} {patience : Nat} {At : CountingReader σ → Tape → Prop} {t : Tape} {n : Nat}

theorem Tape.behind_advance (h : n ≤ t.readable) : (t.advance n).behind = t.behind := by
  have hspent := Tape.spent_advance (h.trans (Nat.min_le_left _ _))
  unfold Tape.readable at h
  have hiff : (t.advance n).bytes.length ≤ (t.advance n).allowance ↔ t.bytes.length ≤ t.allowance := by
    rw [Tape.length_advance]
    show _ ≤ t.allowance - n ↔ _
    omega
  unfold Tape.behind
  rw [if_congr hiff rfl rfl, hspent]
  rfl

theorem Tape.cut_advance (h : n ≤ t.readable) : (t.advance n).cut = t.cut.advance n := by
  have hbytes : (t.advance n).bytes.take (t.advance n).readable = (t.bytes.take t.readable).drop n := by
    rw [Tape.readable_advance, List.drop_take]
    rfl
  unfold Tape.cut
  rw [hbytes, Tape.behind_advance h]
  rfl

theorem Tape.readable_cut : t.cut.readable = t.readable := by
  show min t.allowance (t.bytes.take t.readable).length = _
  unfold Tape.readable
  rw [List.length_take]
  omega

theorem Tape.take_cut (h : n ≤ t.readable) : t.cut.bytes.take n = t.bytes.take n := by
  show (t.bytes.take t.readable).take n = _
  rw [List.take_take, Nat.min_eq_left h]

theorem Plays.stacked (hp : Plays answers patience At) :
    Gives (CountingReader.stacked answers patience) fun r bytes ending => ∃ t, At r t ∧ bytes = t.cut.bytes ∧ ending = t.behind where
  piece := by
    rintro r _ _ len ⟨t, hat, rfl, rfl⟩ hbytes hlen
    have hlength : t.cut.bytes.length = t.readable := by
      have : t.cut.bytes.length = min t.readable t.bytes.length := List.length_take
      unfold Tape.readable at this ⊢
      omega
    have hreadable : 0 < t.readable := hlength ▸ List.length_pos_iff.mpr hbytes
    obtain ⟨n, r', hn, hle, hfits, hpull, hat'⟩ := hp.piece hat hlen hreadable
    refine ⟨n, r', hn, hle, hlength ▸ hfits, ?_, t.advance n, hat', ?_, (Tape.behind_advance hfits).symm⟩
    · rw [CountingReader.stacked, hpull, Tape.take_cut hfits]
    · rw [Tape.cut_advance hfits]
      rfl
  ended := by
    rintro r len ⟨t, hat, hbytes, hending⟩ hlen
    have hwhole : t.bytes.length ≤ t.allowance := by
      by_contra hover
      rw [Tape.behind, if_neg hover] at hending
      cases hending
    have hempty : t.bytes = [] := by
      have : t.readable = t.bytes.length := Nat.min_eq_right hwhole
      rw [Tape.cut, this, List.take_length] at hbytes
      exact hbytes.symm
    have hclean : t.ending = none := by
      rw [Tape.behind, if_pos hwhole] at hending
      exact hending.symm
    obtain ⟨r', hpull, hat'⟩ := hp.ended hat hlen hempty hclean
    refine ⟨r', ?_, t, hat', hbytes, hending⟩
    rw [CountingReader.stacked, hpull]
  failed := by
    rintro r fault len ⟨t, hat, hbytes, hending⟩ hlen
    have hfault : (r.pull answers patience len).1 = .error fault := by
      by_cases hwhole : t.bytes.length ≤ t.allowance
      · have hempty : t.bytes = [] := by
          have : t.readable = t.bytes.length := Nat.min_eq_right hwhole
          rw [Tape.cut, this, List.take_length] at hbytes
          exact hbytes.symm
        rw [Tape.behind, if_pos hwhole] at hending
        exact hp.failed hat hlen hempty hending.symm
      · have hmore : t.bytes ≠ [] := List.length_pos_iff.mp (by omega)
        have hzero : t.allowance = 0 := by
          have hlength := congrArg List.length hbytes
          have : t.cut.bytes.length = min t.readable t.bytes.length := List.length_take
          rw [← hbytes, List.length_nil] at this
          unfold Tape.readable at this
          omega
        rw [Tape.behind, if_neg hwhole] at hending
        cases hending
        exact hp.spent hat hlen hzero hmore
    refine ⟨fault.intoIo, ?_, rfl⟩
    obtain ⟨r', hpull⟩ := Plays.exists_of_error hfault
    rw [CountingReader.stacked, hpull]

/-- A reader at the tape as far as it can be read is a reader at the tape. -/
theorem Plays.uncut (hp : Plays answers patience At) : Plays answers patience fun r t => At r t.cut where
  position {r t} h := (hp.position h : r.position = t.cut.position)
  available {r t} h n := (hp.available h n : r.checkAvailable n = if n ≤ t.cut.allowance then _ else _)
  piece := by
    intro r t buf h hbuf hreadable
    obtain ⟨n, r', hn, hle, hfits, hpull, hat⟩ := hp.piece h hbuf (by rw [Tape.readable_cut]; exact hreadable)
    rw [Tape.readable_cut] at hfits
    refine ⟨n, r', hn, hle, hfits, ?_, ?_⟩
    · rw [hpull, Tape.take_cut hfits]
    · rw [Tape.cut_advance hfits]
      exact hat
  ended := by
    intro r t buf h hbuf hempty hending
    refine hp.ended h hbuf ?_ ?_
    · show t.bytes.take _ = []
      rw [hempty, List.take_nil]
    · show t.behind = none
      rw [Tape.behind, hempty, hending, List.length_nil, if_pos (Nat.zero_le _)]
  failed := by
    intro r t buf fault h hbuf hempty hending
    refine hp.failed h hbuf ?_ ?_
    · show t.bytes.take _ = []
      rw [hempty, List.take_nil]
    · show t.behind = some fault
      rw [Tape.behind, hempty, hending, List.length_nil, if_pos (Nat.zero_le _)]
  spent := by
    intro r t buf h hbuf hzero hmore
    refine hp.failed h hbuf ?_ ?_
    · show t.bytes.take (min t.allowance _) = []
      rw [hzero, Nat.zero_min, List.take_zero]
    · have := List.length_pos_iff.mpr hmore
      exact if_neg (by omega)

end Stacked

/-! ### What the validator puts between the readers -/

/-- Bytes read already, ahead of the source they were read from. -/
structure Replay (σ : Type) where
  pending : Bytes
  rest : σ

def Replay.answers {σ : Type} (answers : Answers σ) : Answers (Replay σ) :=
  fun replay len =>
    if replay.pending.isEmpty then
      let (reply, rest) := answers replay.rest len
      (reply, { replay with rest })
    else (.ok (replay.pending.take len), { replay with pending := replay.pending.drop len })

/-- A source with all that was read of it. -/
structure Tee (σ : Type) where
  inner : σ
  hashed : Bytes

def Tee.answers {σ : Type} (answers : Answers σ) : Answers (Tee σ) :=
  fun tee len =>
    match answers tee.inner len with
    | (.ok bytes, inner) => (.ok bytes, ⟨inner, tee.hashed ++ bytes⟩)
    | (reply, inner) => (reply, { tee with inner })

section Between
variable {σ : Type} {answers : Answers σ} {Holds : σ → Bytes → Option ContentFault → Prop}

theorem Gives.replay (h : Gives answers Holds) : Gives (Replay.answers answers) fun replay bytes ending =>
    ∃ rest, bytes = replay.pending ++ rest ∧ Holds replay.rest rest ending where
  piece := by
    rintro ⟨pending, source⟩ _ ending len ⟨rest, rfl, hholds⟩ hbytes hlen
    rcases pending with _ | ⟨b, pending⟩
    · obtain ⟨n, s', hn, hle, hfits, hanswer, hholds'⟩ := h.piece hholds hbytes hlen
      refine ⟨n, ⟨[], s'⟩, hn, hle, hfits, ?_, rest.drop n, rfl, hholds'⟩
      simp only [Replay.answers, List.isEmpty_nil, if_true, hanswer, List.nil_append]
    · obtain ⟨n, hn⟩ : ∃ n, min len (b :: pending).length = n := ⟨_, rfl⟩
      have hpos : 0 < (b :: pending).length := Nat.succ_pos _
      have htake : (b :: pending).take len = (b :: pending).take n := by
        rw [← hn]
        exact List.take_eq_take_min
      have hdrop : (b :: pending).drop len = (b :: pending).drop n := by
        rw [← hn, Nat.min_def]
        split_ifs with hlt
        · rfl
        · rw [List.drop_length, List.drop_eq_nil_of_le (by omega)]
      have hle : n ≤ (b :: pending).length := by omega
      refine ⟨n, ⟨(b :: pending).drop n, source⟩, by omega, by omega, ?_, ?_, rest, List.drop_append_of_le_length hle, hholds⟩
      · rw [List.length_append]
        exact hle.trans (Nat.le_add_right _ _)
      · rw [List.take_append_of_le_length hle, ← htake, ← hdrop]
        rfl
  ended := by
    rintro ⟨pending, source⟩ len ⟨rest, hnil, hholds⟩ hlen
    obtain ⟨rfl, rfl⟩ := List.nil_eq_append_iff.mp hnil
    obtain ⟨s', hanswer, hholds'⟩ := h.ended hholds hlen
    refine ⟨⟨[], s'⟩, ?_, [], rfl, hholds'⟩
    simp only [Replay.answers, List.isEmpty_nil, if_true, hanswer]
  failed := by
    rintro ⟨pending, source⟩ fault len ⟨rest, hnil, hholds⟩ hlen
    obtain ⟨rfl, rfl⟩ := List.nil_eq_append_iff.mp hnil
    obtain ⟨err, hanswer, herr⟩ := h.failed hholds hlen
    exact ⟨err, hanswer, herr⟩

/-- What has been hashed and what is to come are the whole. -/
theorem Gives.tee (h : Gives answers Holds) (whole : Bytes) : Gives (Tee.answers answers) fun tee bytes ending =>
    Holds tee.inner bytes ending ∧ tee.hashed ++ bytes = whole where
  piece := by
    rintro ⟨inner, hashed⟩ bytes ending len ⟨hholds, rfl⟩ hbytes hlen
    obtain ⟨n, s', hn, hle, hfits, hanswer, hholds'⟩ := h.piece hholds hbytes hlen
    refine ⟨n, ⟨s', hashed ++ bytes.take n⟩, hn, hle, hfits, ?_, hholds', ?_⟩
    · simp only [Tee.answers, hanswer]
    · dsimp only
      rw [List.append_assoc, List.take_append_drop]
  ended := by
    rintro ⟨inner, hashed⟩ len ⟨hholds, rfl⟩ hlen
    obtain ⟨s', hanswer, hholds'⟩ := h.ended hholds hlen
    refine ⟨⟨s', hashed ++ []⟩, ?_, hholds', by simp⟩
    simp only [Tee.answers, hanswer]
  failed := by
    rintro ⟨inner, hashed⟩ fault len ⟨hholds, -⟩ hlen
    obtain ⟨err, hanswer, herr⟩ := h.failed hholds hlen
    refine ⟨err, ?_, herr⟩
    rcases hreply : answers inner len with ⟨reply, s'⟩
    rw [hreply] at hanswer
    obtain rfl : reply = .error err := hanswer
    simp only [Tee.answers, hreply]

end Between

end DeployCore
