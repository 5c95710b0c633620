import DeployCore.SourceWalker
import DeployCore.TarReads

/-! # What a source has still to give

A tape is what is to come of a source under a limit: its bytes, how many of them the limit allows, and how it ends.
Two walkers whose readers stand at one tape judge it alike, in whatever pieces it comes to either. -/

namespace DeployCore
open Fallible CountingReader

structure Tape where
  bytes : Bytes
  allowance : Nat
  position : Nat
  /-- The fault behind the last byte, unless that is the end. -/
  ending : Option ContentFault
  /-- The fault of so many bytes in all, where the limit does not allow them. -/
  refusal : Nat → ContentFault

namespace Tape
variable {t : Tape} {n m : Nat}

def readable (t : Tape) : Nat :=
  min t.allowance t.bytes.length

/-- The fault of a byte past the allowance. -/
def spent (t : Tape) : ContentFault :=
  t.refusal (t.position + t.allowance + 1)

def advance (t : Tape) (n : Nat) : Tape :=
  { t with
    bytes := t.bytes.drop n
    allowance := t.allowance - n
    position := t.position + n }

/-- The fault of reading on where no more can be read. -/
def shortfall (t : Tape) : ContentFault :=
  if t.bytes.length ≤ t.allowance then t.ending.getD (.malformed .truncated) else t.spent

/-- The next `n` bytes, and the tape behind them. -/
def take (t : Tape) (n : Nat) : Except ContentFault (Bytes × Tape) :=
  if n ≤ t.readable then .ok (t.bytes.take n, t.advance n) else .error t.shortfall

/-- The verdict on the bytes after a zero block, one by one. -/
def tailVerdict (ending : Option ContentFault) (spent : ContentFault) :
    (tail allowance : Nat) → Bytes → Except ContentFault Unit
  | tail, _, [] =>
    match ending with
    | some fault => .error fault
    | none => TarWalker.endTail tail
  | _, 0, _ :: _ => .error spent
  | tail, allowance + 1, byte :: bytes =>
    if MAX_ZERO_TAIL < tail + 1 then .error (.malformed .zeroTailTooLong)
    else if byte ≠ 0 then .error (.malformed .trailingData)
    else tailVerdict ending spent (tail + 1) allowance bytes

/-- The rest of the tape as a zero tail that was `tail` bytes long so far. -/
def zeroTail (t : Tape) (tail : Nat) : Except ContentFault (Unit × Tape) :=
  (tailVerdict t.ending t.spent tail t.allowance t.bytes).map fun _ => ((), t.advance t.bytes.length)

theorem length_advance : (t.advance n).bytes.length = t.bytes.length - n :=
  List.length_drop

theorem readable_advance : (t.advance n).readable = t.readable - n := by
  unfold readable
  rw [length_advance]
  show min (t.allowance - n) _ = _
  omega

theorem advance_zero : t.advance 0 = t := rfl

theorem advance_advance : (t.advance n).advance m = t.advance (n + m) := by
  simp only [advance, List.drop_drop, Nat.sub_sub, Nat.add_assoc]

theorem spent_advance (h : n ≤ t.allowance) : (t.advance n).spent = t.spent := by
  show t.refusal (t.position + n + (t.allowance - n) + 1) = t.refusal _
  rw [Nat.add_assoc t.position, Nat.add_sub_cancel' h]

theorem shortfall_advance (h : n ≤ t.readable) : (t.advance n).shortfall = t.shortfall := by
  have hspent := spent_advance (h.trans (Nat.min_le_left _ _))
  unfold readable at h
  have hiff : (t.advance n).bytes.length ≤ (t.advance n).allowance ↔ t.bytes.length ≤ t.allowance := by
    rw [length_advance]
    show _ ≤ t.allowance - n ↔ _
    omega
  unfold shortfall
  rw [if_congr hiff rfl rfl, hspent]
  rfl

theorem length_take_readable (h : n ≤ t.readable) : (t.bytes.take n).length = n := by
  have := h.trans (Nat.min_le_right _ _)
  rw [List.length_take]
  omega

theorem take_zero : t.take 0 = .ok ([], t) := by
  rw [take, if_pos (Nat.zero_le _)]
  rfl

/-- What is taken in two goes is what is taken in one. -/
theorem take_add (h : n ≤ t.readable) :
    t.take (n + m) = ((t.advance n).take m).map fun next => (t.bytes.take n ++ next.1, next.2) := by
  have hiff : n + m ≤ t.readable ↔ m ≤ (t.advance n).readable := by
    rw [readable_advance]
    omega
  unfold take
  split_ifs with hall hrest hrest
  · rw [advance_advance, List.take_add]
    rfl
  · exact absurd (hiff.mp hall) hrest
  · exact absurd (hiff.mpr hrest) hall
  · rw [shortfall_advance h]
    rfl

/-- A tape that ends here. -/
def Ended (t : Tape) : Prop :=
  t.bytes = [] ∧ t.ending = none

theorem take_of_readable_zero (h : t.readable = 0) (hn : 0 < n) : t.take n = .error t.shortfall :=
  if_neg (by omega)

theorem shortfall_of_ended (h : t.Ended) : t.shortfall = .malformed .truncated := by
  unfold shortfall
  rw [h.1, h.2, List.length_nil, if_pos (Nat.zero_le _)]
  rfl

theorem zeroTail_of_ended {tail : Nat} (h : t.Ended) : t.zeroTail tail = (TarWalker.endTail tail).map fun _ => ((), t) := by
  unfold zeroTail
  rw [h.1, h.2, tailVerdict]
  rfl

theorem zeroTail_of_short {tail : Nat} (hzero : t.readable = 0) (h : ¬t.Ended) : t.zeroTail tail = .error t.shortfall := by
  unfold readable at hzero
  unfold zeroTail shortfall
  rcases hbytes : t.bytes with _ | ⟨byte, bytes⟩
  · rcases hending : t.ending with _ | fault
    · exact absurd ⟨hbytes, hending⟩ h
    · rw [List.length_nil, if_pos (Nat.zero_le _), tailVerdict]
      rfl
  · rw [hbytes, List.length_cons] at hzero
    have hallowed : t.allowance = 0 := by omega
    rw [hallowed, List.length_cons, if_neg (by omega)]
    rfl

/-- The verdict goes over a piece as the scan of it does. -/
theorem tailVerdict_append {ending : Option ContentFault} {spent : ContentFault} {tail allowance : Nat}
    {piece rest : Bytes} (h : piece.length ≤ allowance) :
    tailVerdict ending spent tail allowance (piece ++ rest) =
      (TarWalker.scanTail tail piece).bind fun tail =>
        tailVerdict ending spent tail (allowance - piece.length) rest := by
  induction piece generalizing tail allowance with
  | nil => rfl
  | cons byte piece ih =>
    rw [List.length_cons] at h ⊢
    obtain ⟨allowance, rfl⟩ : ∃ m, allowance = m + 1 := ⟨allowance - 1, by omega⟩
    unfold TarWalker.scanTail
    rw [List.cons_append, tailVerdict]
    split_ifs
    · rfl
    · rfl
    · rw [ih (by omega), Nat.add_sub_add_right]

theorem zeroTail_advance {tail : Nat} (h : n ≤ t.readable) :
    t.zeroTail tail = (TarWalker.scanTail tail (t.bytes.take n)).bind (t.advance n).zeroTail := by
  have hlength := length_take_readable h
  have hallowed := h.trans (Nat.min_le_left _ _)
  have hwhole := h.trans (Nat.min_le_right _ _)
  have hverdict := @tailVerdict_append t.ending t.spent tail t.allowance (t.bytes.take n) (t.bytes.drop n) (by omega)
  rw [List.take_append_drop, hlength] at hverdict
  unfold zeroTail
  rw [hverdict]
  rcases TarWalker.scanTail tail (t.bytes.take n) with fault | tail
  · rfl
  · rw [advance_advance, length_advance, Nat.add_sub_cancel' hwhole, spent_advance hallowed]
    rfl

end Tape

/-! ### Readers that stand at a tape -/

/-- What is asked of a reader at a tape, it answers as the tape does, a piece at a time. -/
structure Plays {σ : Type} (answers : Answers σ) (patience : Nat) (At : CountingReader σ → Tape → Prop) : Prop where
  position {r t} (h : At r t) : r.position = t.position
  available {r t} (h : At r t) (n : Nat) : r.checkAvailable n = if n ≤ t.allowance then .ok () else .error (t.refusal (t.position + n))
  piece {r t} {buf : Nat} (h : At r t) (hbuf : 0 < buf) (hreadable : 0 < t.readable) :
    ∃ n r', 0 < n ∧ n ≤ buf ∧ n ≤ t.readable ∧ r.pull answers patience buf = (.ok (t.bytes.take n), r') ∧
      At r' (t.advance n)
  ended {r t} {buf : Nat} (h : At r t) (hbuf : 0 < buf) (hempty : t.bytes = []) (hending : t.ending = none) :
    ∃ r', r.pull answers patience buf = (.ok [], r') ∧ At r' t
  failed {r t} {buf : Nat} {fault : ContentFault} (h : At r t) (hbuf : 0 < buf) (hempty : t.bytes = [])
    (hending : t.ending = some fault) : (r.pull answers patience buf).1 = .error fault
  spent {r t} {buf : Nat} (h : At r t) (hbuf : 0 < buf) (hzero : t.allowance = 0) (hmore : t.bytes ≠ []) :
    (r.pull answers patience buf).1 = .error t.spent

/-- An answer is what was expected of it, and leaves the reader at the tape that was. -/
def Meets {σ α : Type} (At : CountingReader σ → Tape → Prop) (answer : Except ContentFault α × CountingReader σ) :
    Except ContentFault (α × Tape) → Prop
  | .ok (a, t) => ∃ r, answer = (.ok a, r) ∧ At r t
  | .error fault => answer.1 = .error fault

/-- A read comes to what the tape says it does. -/
def Comes {σ α : Type} (At : CountingReader σ → Tape → Prop)
    (read : CountingReader σ → Except ContentFault α × CountingReader σ)
    (verdict : Tape → Except ContentFault (α × Tape)) : Prop :=
  ∀ r t, At r t → Meets At (read r) (verdict t)

namespace Plays
variable {σ : Type} {answers : Answers σ} {patience : Nat} {At : CountingReader σ → Tape → Prop}
  {r r' : CountingReader σ} {t : Tape}

/-- Where nothing can be read, asking for it is the shortfall, or finds the end. -/
theorem short (hp : Plays answers patience At) {buf : Nat} (h : At r t) (hbuf : 0 < buf) (hzero : t.readable = 0) :
    (t.Ended ∧ ∃ r', r.pull answers patience buf = (.ok [], r') ∧ At r' t) ∨
      ¬t.Ended ∧ (r.pull answers patience buf).1 = .error t.shortfall := by
  unfold Tape.readable at hzero
  by_cases hempty : t.bytes = []
  · rcases hending : t.ending with _ | fault
    · exact .inl ⟨⟨hempty, hending⟩, hp.ended h hbuf hempty hending⟩
    · refine .inr ⟨fun hended => ?_, ?_⟩
      · cases hended.2.symm.trans hending
      · rw [hp.failed h hbuf hempty hending, Tape.shortfall, hempty, hending, List.length_nil, if_pos (Nat.zero_le _)]
        rfl
  · have hlength := List.length_pos_iff.mpr hempty
    refine .inr ⟨fun hended => hempty hended.1, ?_⟩
    rw [hp.spent h hbuf (by omega) hempty, Tape.shortfall, if_neg (by omega)]

/-- A call that reports a fault, whatever it leaves. -/
theorem exists_of_error {buf : Nat} {fault : ContentFault} (h : (r.pull answers patience buf).1 = .error fault) :
    ∃ r', r.pull answers patience buf = (.error fault, r') :=
  ⟨_, Prod.ext h rfl⟩

theorem pullMore (hp : Plays answers patience At) {chunk fuel need : Nat} {filled : Bytes} (hchunk : 0 < chunk)
    (hfuel : need ≤ fuel) : Comes At (fun r => r.pullMore answers patience chunk fuel need filled)
      fun t => (t.take need).map fun next => (filled ++ next.1, next.2) := by
  induction fuel generalizing need filled with
  | zero =>
    obtain rfl : need = 0 := by omega
    intro r t h
    dsimp only
    rw [Tape.take_zero]
    exact ⟨r, by rw [List.append_nil, CountingReader.pullMore], h⟩
  | succ fuel ih =>
    intro r t h
    dsimp only
    rcases need with _ | need
    · rw [Tape.take_zero]
      exact ⟨r, by rw [List.append_nil, CountingReader.pullMore], h⟩
    have hrequest : 0 < min chunk (need + 1) := by omega
    rw [CountingReader.pullMore_succ]
    rcases Nat.eq_zero_or_pos t.readable with hzero | hpos
    · rw [Tape.take_of_readable_zero hzero (Nat.succ_pos need)]
      rcases hp.short h hrequest hzero with ⟨hended, r', hpull, -⟩ | ⟨-, hpull⟩
      · rw [hpull, Tape.shortfall_of_ended hended]
        rfl
      · obtain ⟨r', hpull⟩ := exists_of_error hpull
        rw [hpull]
        rfl
    · obtain ⟨n, r', hn, hle, hreadable, hpull, hat⟩ := hp.piece h hrequest hpos
      have hlength := Tape.length_take_readable hreadable
      obtain ⟨m, hm⟩ : ∃ m, need + 1 = n + m := ⟨need + 1 - n, by omega⟩
      have hnext := @ih m (filled ++ t.bytes.take n) (by omega) r' (t.advance n) hat
      have hverdict : ((t.take (need + 1)).map fun next => (filled ++ next.1, next.2)) =
          (((t.advance n).take m).map fun next => (filled ++ t.bytes.take n ++ next.1, next.2)) := by
        rw [hm, Tape.take_add hreadable]
        rcases (t.advance n).take m with fault | next
        · rfl
        · simp only [Except.map, List.append_assoc]
      rw [hpull, hverdict]
      rcases hbytes : t.bytes.take n with _ | ⟨byte, bytes⟩
      · rw [hbytes, List.length_nil] at hlength
        omega
      dsimp only
      rw [← hbytes, hlength, hm, Nat.add_sub_cancel_left]
      exact hnext

theorem pullFull (hp : Plays answers patience At) (len : Nat) :
    Comes At (fun r => r.pullFull answers patience len) fun t => t.take len := by
  have hmap (verdict : Except ContentFault (Bytes × Tape)) :
      (verdict.map fun next => (([] : Bytes) ++ next.1, next.2)) = verdict := by
    rcases verdict with fault | next <;> rfl
  rcases Nat.eq_zero_or_pos len with rfl | hpos
  · intro r t h
    dsimp only
    rw [Tape.take_zero]
    exact ⟨r, by rw [CountingReader.pullFull, CountingReader.pullMore], h⟩
  · have hmore : Comes At (fun r => r.pullMore answers patience len len len [])
        fun t => (t.take len).map fun next => (([] : Bytes) ++ next.1, next.2) := hp.pullMore hpos le_rfl
    simp only [hmap] at hmore
    exact hmore

theorem skipMore (hp : Plays answers patience At) {skip left : Nat} (hskip : 0 < skip) :
    Comes At (SourceWalker.skipMore answers patience skip left) fun t => (t.take left).map fun next => ((), next.2) := by
  intro r t h
  have hmore : Meets At (r.pullMore answers patience skip left left [])
      ((t.take left).map fun next => (([] : Bytes) ++ next.1, next.2)) := hp.pullMore hskip le_rfl r t h
  unfold SourceWalker.skipMore
  rcases hread : r.pullMore answers patience skip left left [] with ⟨outcome, r'⟩
  dsimp only at hmore ⊢
  rw [hread] at hmore
  rcases htake : t.take left with fault | next <;> rw [htake] at hmore
  · obtain rfl : outcome = .error fault := hmore
    rfl
  · obtain ⟨r₁, hanswer, hat⟩ := hmore
    cases hanswer
    exact ⟨r', rfl, hat⟩

theorem readTail (hp : Plays answers patience At) {fuel tail : Nat} (hfuel : MAX_ZERO_TAIL < fuel + tail)
    (htail : tail ≤ MAX_ZERO_TAIL) :
    Comes At (fun r => SourceWalker.readTail answers patience fuel r tail) fun t => t.zeroTail tail := by
  induction fuel generalizing tail with
  | zero => omega
  | succ fuel ih =>
    intro r t h
    have hrequest : 0 < min BLOCK (MAX_ZERO_TAIL + 1 - tail) := by
      have : 0 < BLOCK := by decide
      omega
    dsimp only
    unfold SourceWalker.readTail
    rcases Nat.eq_zero_or_pos t.readable with hzero | hpos
    · rcases hp.short h hrequest hzero with ⟨hended, r', hpull, hat⟩ | ⟨hended, hpull⟩
      · rw [hpull, Tape.zeroTail_of_ended hended]
        dsimp only
        rcases TarWalker.endTail tail with fault | ⟨⟩
        · rfl
        · exact ⟨r', rfl, hat⟩
      · obtain ⟨r', hpull⟩ := exists_of_error hpull
        rw [hpull, Tape.zeroTail_of_short hzero hended]
        rfl
    · obtain ⟨n, r', hn, hle, hreadable, hpull, hat⟩ := hp.piece h hrequest hpos
      have hlength := Tape.length_take_readable hreadable
      rw [hpull, Tape.zeroTail_advance hreadable]
      rcases hbytes : t.bytes.take n with _ | ⟨byte, bytes⟩
      · rw [hbytes, List.length_nil] at hlength
        omega
      dsimp only
      rw [hbytes] at hlength
      rcases hscan : TarWalker.scanTail tail (byte :: bytes) with fault | tail'
      · rfl
      · obtain ⟨hgrown, hmax, -⟩ := TarWalker.scanTail_ok hscan htail
        exact ih (by omega) hmax r' (t.advance n) hat

end Plays

/-! ### Walkers abreast -/

namespace SourceWalker
variable {σ τ : Type} {answers : Answers σ} {answers' : Answers τ} {patience patience' : Nat}
  {At : CountingReader σ → Tape → Prop} {At' : CountingReader τ → Tape → Prop}
  {w : SourceWalker σ} {w' : SourceWalker τ}

/-- Two walkers that are the same but for their readers, which stand at one tape. -/
structure Abreast (At : CountingReader σ → Tape → Prop) (At' : CountingReader τ → Tape → Prop) (w : SourceWalker σ)
    (w' : SourceWalker τ) : Prop where
  tape : ∃ t, At w.source t ∧ At' w'.source t
  rules : w'.rules = w.rules
  copyBuffer : w'.copyBuffer = w.copyBuffer
  unreadData : w'.unreadData = w.unreadData
  unreadPadding : w'.unreadPadding = w.unreadPadding
  finished : w'.finished = w.finished
  latch : w.latch = none
  latch' : w'.latch = none
  buffer : 0 < w.copyBuffer.max

/-- What two walkers report is the same, and they stay abreast as long as it is no fault. -/
abbrev Alike (At : CountingReader σ → Tape → Prop) (At' : CountingReader τ → Tape → Prop) {α : Type} (x : SourceWalk σ α)
    (y : SourceWalk τ α) (w : SourceWalker σ) (w' : SourceWalker τ) : Prop :=
  Agree (fun _ => Abreast At At') (fun _ _ => True) (x w) (y w')

namespace Abreast

theorem onSource {α : Type} {read : CountingReader σ → Except ContentFault α × CountingReader σ}
    {read' : CountingReader τ → Except ContentFault α × CountingReader τ} {verdict : Tape → Except ContentFault (α × Tape)}
    (h : Abreast At At' w w') (hread : Comes At read verdict) (hread' : Comes At' read' verdict) :
    Alike At At' (SourceWalker.onSource read) (SourceWalker.onSource read') w w' := by
  obtain ⟨t, hat, hat'⟩ := h.tape
  have hmeets := hread _ t hat
  have hmeets' := hread' _ t hat'
  unfold Alike SourceWalker.onSource
  rcases hverdict : verdict t with fault | ⟨a, t₁⟩ <;> rw [hverdict] at hmeets hmeets'
  · rcases hanswer : read w.source with ⟨outcome, r⟩
    rcases hanswer' : read' w'.source with ⟨outcome', r'⟩
    rw [hanswer] at hmeets
    rw [hanswer'] at hmeets'
    obtain rfl : outcome = .error fault := hmeets
    obtain rfl : outcome' = .error fault := hmeets'
    exact .error trivial
  · obtain ⟨r, hanswer, hr⟩ := hmeets
    obtain ⟨r', hanswer', hr'⟩ := hmeets'
    rw [hanswer, hanswer']
    exact .ok { h with tape := ⟨t₁, hr, hr'⟩ }

theorem onRules {α : Type} (h : Abreast At At' w w') (step : EStateM ContentFault Rules α) :
    Alike At At' (SourceWalker.onRules step) (SourceWalker.onRules step) w w' := by
  unfold Alike SourceWalker.onRules
  rw [h.rules]
  rcases step w.rules with ⟨a, rules⟩ | ⟨fault, rules⟩
  · exact .ok { h with rules := rfl }
  · exact .error trivial

theorem lift {α : Type} (h : Abreast At At' w w') (x : Except ContentFault α) :
    Alike At At' (Fallible.lift x) (Fallible.lift x) w w' :=
  Agree.lift (fun _ => h) trivial

/-- An update of what is left unread. -/
theorem unread (h : Abreast At At' w w') (data padding : Nat) :
    Abreast At At' { w with unreadData := data, unreadPadding := padding }
      { w' with unreadData := data, unreadPadding := padding } :=
  { h with unreadData := rfl, unreadPadding := rfl }

theorem readHeader (h : Abreast At At' w w') (block : Bytes) (headerOffset : Nat) :
    Alike At At' (SourceWalker.readHeader block headerOffset) (SourceWalker.readHeader block headerOffset) w w' := by
  refine (h.onRules _).bind fun _ w w' h => ?_
  show Agree _ _ ((Fallible.lift (TarWalker.decodeHeader w.rules block) >>= _ : SourceWalk σ _) w)
    ((Fallible.lift (TarWalker.decodeHeader w'.rules block) >>= _ : SourceWalk τ _) w')
  rw [h.rules]
  refine (h.lift _).bind fun decoded w w' h => ?_
  obtain ⟨typeflag, header⟩ := decoded
  dsimp only
  split
  · exact .error trivial
  · exact .ok h

theorem latched {α : Type} {x : SourceWalk σ α} {y : SourceWalk τ α} (h : Abreast At At' w w') (hrun : Alike At At' x y w w') :
    Alike At At' (SourceWalker.latched x) (SourceWalker.latched y) w w' := by
  unfold Alike SourceWalker.latched
  rw [h.latch, h.latch']
  rcases hrun.cases with ⟨a, w₁, w₁', hx, hy, hafter⟩ | ⟨fault, w₁, w₁', hx, hy, -⟩ <;> rw [hx, hy]
  · exact .ok hafter
  · exact .error trivial

section Reads
variable (hp : Plays answers patience At) (hp' : Plays answers' patience' At')
include hp hp'

theorem checkAvailable (h : Abreast At At' w w') (n : Nat) :
    Alike At At' (SourceWalker.checkAvailable n) (SourceWalker.checkAvailable n) w w' := by
  obtain ⟨t, hat, hat'⟩ := h.tape
  show Agree _ _ (Fallible.lift (w.source.checkAvailable n) w) (Fallible.lift (w'.source.checkAvailable n) w')
  rw [hp.available hat, hp'.available hat']
  exact h.lift _

theorem skipUnread (h : Abreast At At' w w') :
    Alike At At' (SourceWalker.skipUnread answers patience) (SourceWalker.skipUnread answers' patience') w w' := by
  have halloc : allocLen w.copyBuffer.max w.copyBuffer = .ok w.copyBuffer.max := if_neg (Nat.lt_irrefl _)
  show Agree _ _ ((if U64_MAX < w.unreadData + w.unreadPadding then throw _ else _ : SourceWalk σ Unit) w)
    ((if U64_MAX < w'.unreadData + w'.unreadPadding then throw _ else _ : SourceWalk τ Unit) w')
  rw [h.unreadData, h.unreadPadding]
  split
  · exact .error trivial
  show Agree _ _
    ((Fallible.lift (allocLen w.copyBuffer.max w.copyBuffer) >>= fun skip =>
      SourceWalker.onSource (skipMore answers patience skip (w.unreadData + w.unreadPadding)) : SourceWalk σ Unit)
        { w with unreadData := 0, unreadPadding := 0 })
    ((Fallible.lift (allocLen w'.copyBuffer.max w'.copyBuffer) >>= fun skip =>
      SourceWalker.onSource (skipMore answers' patience' skip (w.unreadData + w.unreadPadding)) : SourceWalk τ Unit)
        { w' with unreadData := 0, unreadPadding := 0 })
  rw [h.copyBuffer, halloc]
  have hzero : Abreast At At' { w with unreadData := 0, unreadPadding := 0 }
      { w' with copyBuffer := w.copyBuffer, unreadData := 0, unreadPadding := 0 } :=
    { h with copyBuffer := rfl, unreadData := rfl, unreadPadding := rfl }
  exact hzero.onSource (hp.skipMore h.buffer) (hp'.skipMore h.buffer)

theorem readExtension (h : Abreast At At' w w') (extension : Extension) (len dataOffset : Nat) (flag : UInt8) :
    Alike At At' (SourceWalker.readExtension answers patience extension len dataOffset flag)
      (SourceWalker.readExtension answers' patience' extension len dataOffset flag) w w' := by
  refine (h.onRules _).bind fun limit w w' h => (h.lift _).bind fun padded w w' h => ?_
  refine (h.checkAvailable hp hp' _).bind fun _ w w' h => (h.lift _).bind fun len w w' h => ?_
  refine (h.onSource (hp.pullFull len) (hp'.pullFull len)).bind fun payload w w' h => ?_
  have hmodified : Abreast At At' { w with unreadPadding := padded - len } { w' with unreadPadding := padded - len } :=
    { h with unreadPadding := rfl }
  exact hmodified.onRules _

theorem readEntry (h : Abreast At At' w w') (kind : EntryKind) (header : HeaderFields) (headerOffset dataOffset : Nat) :
    Alike At At' (SourceWalker.readEntry kind header headerOffset dataOffset)
      (SourceWalker.readEntry kind header headerOffset dataOffset) w w' := by
  refine (h.onRules _).bind fun admitted w w' h => (h.lift _).bind fun padded w w' h => ?_
  refine (h.checkAvailable hp hp' _).bind fun _ w w' h => ?_
  exact .ok (h.unread _ _)

theorem finish (h : Abreast At At' w w') :
    Alike At At' (SourceWalker.finish answers patience) (SourceWalker.finish answers' patience') w w' := by
  show Agree _ _ ((if w.rules.hasPending then throw _ else _ : SourceWalk σ Round) w)
    ((if w'.rules.hasPending then throw _ else _ : SourceWalk τ Round) w')
  rw [h.rules]
  split
  · exact .error trivial
  · have htail : MAX_ZERO_TAIL < MAX_ZERO_TAIL + 1 + BLOCK := by omega
    have hblock : BLOCK ≤ MAX_ZERO_TAIL := by decide
    refine (h.onSource (hp.readTail htail hblock) (hp'.readTail htail hblock)).bind fun _ w w' h => ?_
    exact .ok { h with finished := rfl }

theorem readRecord (h : Abreast At At' w w') (block : Bytes) (headerOffset : Nat) :
    Alike At At' (SourceWalker.readRecord answers patience block headerOffset)
      (SourceWalker.readRecord answers' patience' block headerOffset) w w' := by
  refine (h.readHeader _ _).bind fun parsed w w' h => ?_
  obtain ⟨typeflag, header, dataOffset⟩ := parsed
  rcases typeflag with kind | extension
  · exact (h.readEntry hp hp' _ _ _ _).bind fun entry w w' h => .ok h
  · exact (h.readExtension hp hp' _ _ _ _).bind fun _ w w' h => .ok h

theorem readNext (h : Abreast At At' w w') :
    Alike At At' (SourceWalker.readNext answers patience) (SourceWalker.readNext answers' patience') w w' := by
  have hposition : w'.source.position = w.source.position := by
    obtain ⟨t, hat, hat'⟩ := h.tape
    exact (hp'.position hat').trans (hp.position hat).symm
  show Agree _ _
    ((SourceWalker.onSource (fun source => source.pullFull answers patience BLOCK) >>= fun block =>
      if TarWalker.isZero block then SourceWalker.finish answers patience
      else SourceWalker.readRecord answers patience block w.source.position : SourceWalk σ Round) w)
    ((SourceWalker.onSource (fun source => source.pullFull answers' patience' BLOCK) >>= fun block =>
      if TarWalker.isZero block then SourceWalker.finish answers' patience'
      else SourceWalker.readRecord answers' patience' block w'.source.position : SourceWalk τ Round) w')
  rw [hposition]
  refine (h.onSource (hp.pullFull BLOCK) (hp'.pullFull BLOCK)).bind fun block w w' h => ?_
  split
  · exact h.finish hp hp'
  · exact h.readRecord hp hp' _ _

theorem advanceFrom (fuel : Nat) (h : Abreast At At' w w') :
    Alike At At' (SourceWalker.advanceFrom answers patience fuel) (SourceWalker.advanceFrom answers' patience' fuel) w w' := by
  induction fuel generalizing w w' with
  | zero => exact .error trivial
  | succ fuel ih =>
    have hround : Alike At At' (round answers patience) (round answers' patience') w w' :=
      (h.skipUnread hp hp').bind fun _ w w' h => h.readNext hp hp'
    refine hround.bind fun step w w' h => ?_
    cases step with
    | again => exact ih h
    | finished => exact .ok h
    | entry entry => exact .ok h

/-- Two walkers abreast find the same next entry, or the same end or fault. -/
theorem nextEntry (h : Abreast At At' w w') :
    Alike At At' (SourceWalker.nextEntry answers patience) (SourceWalker.nextEntry answers' patience') w w' := by
  refine h.latched ?_
  show Agree _ _ ((if w.finished then pure none else advance answers patience : SourceWalk σ _) w)
    ((if w'.finished then pure none else advance answers' patience' : SourceWalk τ _) w')
  rw [h.finished]
  split
  · exact .ok h
  · show Agree _ _ (SourceWalker.advanceFrom answers patience (w.rules.headersLeft + 1) w)
      (SourceWalker.advanceFrom answers' patience' (w'.rules.headersLeft + 1) w')
    rw [h.rules]
    exact h.advanceFrom hp hp' _

end Reads
end Abreast

/-! ### The data of an entry -/

/-- The data of an entry has been read to its end, or as far as a fault. -/
def Drained (At : CountingReader σ → Tape → Prop) (w : SourceWalker σ) (read : Bytes)
    (result : EStateM.Result ContentFault (SourceWalker σ) Bytes) : Except ContentFault (Bytes × Tape) → Prop
  | .ok (bytes, t) => ∃ r, result = .ok (read ++ bytes) { w with source := r, unreadData := 0 } ∧ At r t
  | .error fault => ∃ w₁, result = .error fault w₁

theorem latched_of_open {α : Type} {x : SourceWalk σ α} (h : w.latch = none) : latched x w =
    match x w with
    | .ok a w => .ok a w
    | .error fault w => .error fault { w with latch := w.latch.record fault } := by
  unfold latched
  rw [h]
  rfl

theorem readEntryData_none {buf : Nat} (hlatch : w.latch = none) (h : buf = 0 ∨ w.unreadData = 0) :
    readEntryData answers patience buf w = .ok [] w := by
  have hread : readData answers patience buf w = .ok [] w := by
    show (if buf = 0 ∨ w.unreadData = 0 then pure [] else _ : SourceWalk σ Bytes) w = _
    rw [if_pos h]
    rfl
  rw [readEntryData, latched_of_open hlatch, hread]

theorem readEntryData_some {buf : Nat} {bytes : Bytes} {r : CountingReader σ} (hlatch : w.latch = none)
    (h : ¬(buf = 0 ∨ w.unreadData = 0)) (hbytes : bytes ≠ [])
    (hpull : w.source.pull answers patience (min buf w.unreadData) = (.ok bytes, r)) :
    readEntryData answers patience buf w =
      .ok bytes { w with source := r, unreadData := w.unreadData - bytes.length } := by
  have hread : readData answers patience buf w =
      .ok bytes { w with source := r, unreadData := w.unreadData - bytes.length } := by
    show (if buf = 0 ∨ w.unreadData = 0 then pure [] else _ : SourceWalk σ Bytes) w = _
    have hsource : onSource (fun source => source.pull answers patience (min buf w.unreadData)) w =
        .ok bytes { w with source := r } := by
      rw [onSource, hpull]
    rw [if_neg h]
    refine (bind_of_ok hsource).trans ?_
    rw [if_neg (by simpa using hbytes)]
    rfl
  rw [readEntryData, latched_of_open hlatch, hread]

theorem readEntryData_fault {buf : Nat} {fault : ContentFault} (hlatch : w.latch = none) (h : ¬(buf = 0 ∨ w.unreadData = 0))
    (hpull : (w.source.pull answers patience (min buf w.unreadData)).1 = .error fault ∨
      fault = .malformed .truncated ∧ (w.source.pull answers patience (min buf w.unreadData)).1 = .ok []) :
    ∃ w₁, readEntryData answers patience buf w = .error fault w₁ := by
  have hread : ∃ w₁, readData answers patience buf w = .error fault w₁ := by
    show ∃ w₁, (if buf = 0 ∨ w.unreadData = 0 then pure [] else _ : SourceWalk σ Bytes) w = .error fault w₁
    rw [if_neg h]
    rcases hanswer : w.source.pull answers patience (min buf w.unreadData) with ⟨outcome, r⟩
    rw [hanswer] at hpull
    rcases hpull with hfault | ⟨rfl, hend⟩
    · obtain rfl : outcome = .error fault := hfault
      have hsource : onSource (fun source => source.pull answers patience (min buf w.unreadData)) w =
          .error fault { w with source := r } := by
        rw [onSource, hanswer]
      exact ⟨_, bind_of_error hsource⟩
    · obtain rfl : outcome = .ok [] := hend
      have hsource : onSource (fun source => source.pull answers patience (min buf w.unreadData)) w =
          .ok [] { w with source := r } := by
        rw [onSource, hanswer]
      exact ⟨_, (bind_of_ok hsource).trans rfl⟩
  obtain ⟨w₁, hread⟩ := hread
  rw [readEntryData, latched_of_open hlatch, hread]
  exact ⟨_, rfl⟩

theorem readEntryToEnd_drains (hp : Plays answers patience At) {buf fuel : Nat} {read : Bytes} {t : Tape} (hbuf : buf ≠ 0)
    (hfuel : w.unreadData < fuel) (hlatch : w.latch = none) (hat : At w.source t) :
    Drained At w read (readEntryToEnd answers patience buf fuel read w) (t.take w.unreadData) := by
  induction fuel generalizing w t read with
  | zero => omega
  | succ fuel ih =>
    unfold readEntryToEnd
    rcases Nat.eq_zero_or_pos w.unreadData with hzero | hpos
    · rw [bind_of_ok (readEntryData_none hlatch (.inr hzero)), hzero, Tape.take_zero]
      refine ⟨w.source, ?_, hat⟩
      rw [List.append_nil, ← hzero]
      rfl
    have hdata : ¬(buf = 0 ∨ w.unreadData = 0) := by omega
    have hrequest : 0 < min buf w.unreadData := by omega
    rcases Nat.eq_zero_or_pos t.readable with hshort | hreadable
    · rw [Tape.take_of_readable_zero hshort hpos]
      have hfault : ∃ w₁, readEntryData answers patience buf w = .error t.shortfall w₁ := by
        refine readEntryData_fault hlatch hdata ?_
        rcases hp.short hat hrequest hshort with ⟨hended, r, hpull, -⟩ | ⟨-, hpull⟩
        · exact .inr ⟨Tape.shortfall_of_ended hended, by rw [hpull]⟩
        · exact .inl hpull
      obtain ⟨w₁, hfault⟩ := hfault
      exact ⟨w₁, bind_of_error hfault⟩
    · obtain ⟨n, r, hn, hle, hfits, hpull, hat'⟩ := hp.piece hat hrequest hreadable
      have hlength := Tape.length_take_readable hfits
      have hbytes : t.bytes.take n ≠ [] := fun hnil => by
        rw [hnil, List.length_nil] at hlength
        omega
      obtain ⟨left, hleft⟩ : ∃ left, w.unreadData = n + left := ⟨w.unreadData - n, by omega⟩
      have hsome := readEntryData_some hlatch hdata hbytes hpull
      rw [hlength, hleft, Nat.add_sub_cancel_left] at hsome
      have hrest := @ih { w with source := r, unreadData := left } (read ++ t.bytes.take n) (t.advance n)
        (by dsimp only; omega) hlatch hat'
      rw [bind_of_ok hsome, if_neg (by simpa using hbytes), hleft, Tape.take_add hfits]
      dsimp only at hrest
      rcases htake : (t.advance n).take left with fault | ⟨bytes, t'⟩ <;> rw [htake] at hrest
      · exact hrest
      · obtain ⟨r', hread, hat₁⟩ := hrest
        refine ⟨r', ?_, hat₁⟩
        rw [hread, List.append_assoc]

/-- What is hashed of an entry is its data, in whatever pieces it is read. -/
theorem entryData_drains (hp : Plays answers patience At) {buf : Nat} {t : Tape} (hbuf : buf ≠ 0)
    (hlatch : w.latch = none) (hat : At w.source t) :
    Drained At w [] (entryData answers patience buf w) (t.take w.unreadData) :=
  readEntryToEnd_drains hp hbuf (Nat.lt_succ_self _) hlatch hat

theorem Abreast.entryData (hp : Plays answers patience At) (hp' : Plays answers' patience' At') (h : Abreast At At' w w')
    (buf : Nat) :
    Alike At At' (SourceWalker.entryData answers patience buf) (SourceWalker.entryData answers' patience' buf) w w' := by
  rcases Nat.eq_zero_or_pos buf with rfl | hbuf
  · have hnone : SourceWalker.entryData answers patience 0 w = .ok [] w :=
      bind_of_ok (readEntryData_none h.latch (.inl rfl))
    have hnone' : SourceWalker.entryData answers' patience' 0 w' = .ok [] w' :=
      bind_of_ok (readEntryData_none h.latch' (.inl rfl))
    unfold Alike
    rw [hnone, hnone']
    exact .ok h
  · obtain ⟨t, hat, hat'⟩ := h.tape
    have hdrained := entryData_drains hp (Nat.pos_iff_ne_zero.mp hbuf) h.latch hat
    have hdrained' := entryData_drains hp' (Nat.pos_iff_ne_zero.mp hbuf) h.latch' hat'
    rw [h.unreadData] at hdrained'
    unfold Alike
    rcases htake : t.take w.unreadData with fault | ⟨bytes, t₁⟩ <;> rw [htake] at hdrained hdrained'
    · obtain ⟨w₁, hread⟩ := hdrained
      obtain ⟨w₁', hread'⟩ := hdrained'
      rw [hread, hread']
      exact .error trivial
    · obtain ⟨r, hread, hr⟩ := hdrained
      obtain ⟨r', hread', hr'⟩ := hdrained'
      rw [hread, hread']
      exact .ok { h with tape := ⟨t₁, hr, hr'⟩, unreadData := rfl }

end SourceWalker

end DeployCore
