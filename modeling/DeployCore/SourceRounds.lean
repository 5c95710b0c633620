import DeployCore.ReaderTape
import DeployCore.TarRounds

/-! # What a call of the walker over any source comes to

The parts of a call that does not stop at a fault, from a walker whose reader stands at a tape: how far the reader has
come, and what became of the rules. -/

namespace DeployCore
open Fallible CountingReader

namespace Tape
variable {t : Tape} {n : Nat}

theorem take_ok {next : Bytes × Tape} (h : t.take n = .ok next) : n ≤ t.readable ∧ next = (t.bytes.take n, t.advance n) := by
  unfold take at h
  split at h
  next hle => exact ⟨hle, (Except.ok.inj h).symm⟩
  · cases h

theorem zeroTail_ok {tail : Nat} {next : Unit × Tape} (h : t.zeroTail tail = .ok next) :
    next.2 = t.advance t.bytes.length := by
  obtain ⟨-, -, rfl⟩ := Checks.map_ok h
  rfl

theorem bytes_advance_all : (t.advance t.bytes.length).bytes = [] :=
  List.drop_length

end Tape

namespace SourceWalker
variable {σ : Type} {answers : Answers σ} {patience : Nat} {At : CountingReader σ → Tape → Prop} {w w' : SourceWalker σ}
  {t : Tape} {fault : ContentFault}

/-- What is left of the current entry, with its padding. -/
def unread (w : SourceWalker σ) : Nat :=
  w.unreadData + w.unreadPadding

/-! ### Reads of the source and steps of the rules -/

section Source
variable {α : Type} {read : CountingReader σ → Except ContentFault α × CountingReader σ}
  {verdict : Tape → Except ContentFault (α × Tape)} {a : α}

theorem onSource_ok (hread : Comes At read verdict) (hat : At w.source t) (h : onSource read w = .ok a w') :
    ∃ t' r, verdict t = .ok (a, t') ∧ At r t' ∧ w' = { w with source := r } := by
  have hmeets := hread _ _ hat
  unfold onSource at h
  rcases hverdict : verdict t with fault | ⟨b, t'⟩ <;> rw [hverdict] at hmeets
  · rcases hanswer : read w.source with ⟨outcome, r⟩
    rw [hanswer] at hmeets h
    obtain rfl : outcome = .error fault := hmeets
    cases h
  · obtain ⟨r, hanswer, hr⟩ := hmeets
    rw [hanswer] at h
    cases h
    exact ⟨t', r, rfl, hr, rfl⟩

theorem onSource_fault (hread : Comes At read verdict) (hat : At w.source t) (hverdict : verdict t = .error fault) :
    ∃ w₁, onSource read w = .error fault w₁ := by
  have hmeets := hread _ _ hat
  rw [hverdict] at hmeets
  rcases hanswer : read w.source with ⟨outcome, r⟩
  rw [hanswer] at hmeets
  obtain rfl : outcome = .error fault := hmeets
  exact ⟨{ w with source := r }, by rw [onSource, hanswer]⟩

theorem onSource_done {t' : Tape} (hread : Comes At read verdict) (hat : At w.source t) (hverdict : verdict t = .ok (a, t')) :
    ∃ r, onSource read w = .ok a { w with source := r } ∧ At r t' := by
  have hmeets := hread _ _ hat
  rw [hverdict] at hmeets
  obtain ⟨r, hanswer, hr⟩ := hmeets
  exact ⟨r, by rw [onSource, hanswer], hr⟩

theorem onRules_ok {step : EStateM ContentFault Rules α} (h : onRules step w = .ok a w') :
    ∃ rules, step w.rules = .ok a rules ∧ w' = { w with rules } := by
  unfold onRules at h
  rcases hstep : step w.rules with ⟨a', rules⟩ | ⟨fault, rules⟩ <;> rw [hstep] at h <;> cases h
  exact ⟨rules, rfl, rfl⟩

end Source

theorem checkAvailable_ok {n : Nat} (hp : Plays answers patience At) (hat : At w.source t)
    (h : checkAvailable n w = .ok () w') : n ≤ t.allowance ∧ w' = w := by
  obtain ⟨havailable, rfl⟩ := lift_ok (x := w.source.checkAvailable n) h
  rw [hp.available hat] at havailable
  split at havailable
  next hle => exact ⟨hle, rfl⟩
  · cases havailable

/-! ### The parts of a round -/

section Parts
variable (hp : Plays answers patience At) (hat : At w.source t)
include hp hat

theorem pullFull_ok {len : Nat} {bytes : Bytes} (h : onSource (fun source => source.pullFull answers patience len) w = .ok bytes w') :
    len ≤ t.readable ∧ bytes = t.bytes.take len ∧ ∃ r, At r (t.advance len) ∧ w' = { w with source := r } := by
  obtain ⟨t', r, htake, hr, rfl⟩ := onSource_ok (hp.pullFull len) hat h
  obtain ⟨hle, hnext⟩ := Tape.take_ok htake
  cases hnext
  exact ⟨hle, rfl, r, hr, rfl⟩

theorem skipUnread_ok (hbuffer : 0 < w.copyBuffer.max) (h : skipUnread answers patience w = .ok () w') :
    w.unread ≤ t.readable ∧ ∃ r, At r (t.advance w.unread) ∧ w' = { w with source := r, unreadData := 0, unreadPadding := 0 } := by
  obtain ⟨_, _, hget, h⟩ := bind_ok h
  cases hget
  dsimp only at h
  split at h
  · cases h
  obtain ⟨_, _, hset, h⟩ := bind_ok h
  cases hset
  obtain ⟨skip, _, hrun, h⟩ := bind_ok h
  obtain ⟨halloc, rfl⟩ := lift_ok hrun
  obtain rfl := TarWalker.allocLen_ok halloc
  obtain ⟨t', r, hskip, hr, rfl⟩ := onSource_ok (hp.skipMore hbuffer) (w := { w with unreadData := 0, unreadPadding := 0 }) hat h
  obtain ⟨next, htake, hnext⟩ := Checks.map_ok hskip
  obtain ⟨hle, rfl⟩ := Tape.take_ok htake
  cases hnext
  exact ⟨hle, r, hr, rfl⟩

theorem finish_ok {step : Round} (h : finish answers patience w = .ok step w') :
    step = .finished ∧ ∃ r, At r (t.advance t.bytes.length) ∧ w' = { w with source := r, finished := true } := by
  obtain ⟨_, _, hget, h⟩ := bind_ok h
  cases hget
  split at h
  · cases h
  obtain ⟨_, _, htail, h⟩ := bind_ok h
  have htailed : MAX_ZERO_TAIL < MAX_ZERO_TAIL + 1 + BLOCK := by omega
  have hblock : BLOCK ≤ MAX_ZERO_TAIL := by decide
  obtain ⟨t', r, hzero, hr, rfl⟩ := onSource_ok (hp.readTail htailed hblock) hat htail
  obtain rfl := Tape.zeroTail_ok hzero
  obtain ⟨_, _, hmodify, h⟩ := bind_ok h
  cases hmodify
  cases h
  exact ⟨rfl, r, hr, rfl⟩

theorem readExtension_ok {extension : Extension} {len dataOffset : Nat} {flag : UInt8}
    (h : readExtension answers patience extension len dataOffset flag w = .ok () w') :
    ∃ n, n ≤ t.readable ∧ At w'.source (t.advance n) ∧ w'.copyBuffer = w.copyBuffer := by
  obtain ⟨limit, _, hrun, h⟩ := bind_ok h
  obtain ⟨charged, -, rfl⟩ := onRules_ok hrun
  obtain ⟨padded, _, hrun, h⟩ := bind_ok h
  obtain ⟨-, rfl⟩ := lift_ok hrun
  obtain ⟨_, _, hrun, h⟩ := bind_ok h
  obtain ⟨-, rfl⟩ := checkAvailable_ok hp (w := { w with rules := charged }) hat hrun
  obtain ⟨len', _, hrun, h⟩ := bind_ok h
  obtain ⟨-, rfl⟩ := lift_ok hrun
  obtain ⟨payload, _, hrun, h⟩ := bind_ok h
  obtain ⟨hle, -, r, hr, rfl⟩ := pullFull_ok hp (w := { w with rules := charged }) hat hrun
  obtain ⟨_, _, hmodify, h⟩ := bind_ok h
  cases hmodify
  obtain ⟨recorded, -, rfl⟩ := onRules_ok h
  exact ⟨len', hle, hr, rfl⟩

theorem readEntry_ok {kind : EntryKind} {header : HeaderFields} {headerOffset dataOffset : Nat} {entry : TarEntry}
    (h : readEntry kind header headerOffset dataOffset w = .ok entry w') :
    ∃ admitted taken padded, Rules.admitHeader kind header w.rules = .ok admitted taken ∧
      paddedLen dataOffset admitted.size = .ok padded ∧ padded ≤ t.allowance ∧
      entry = {
        kind
        name := admitted.name
        linkTarget := admitted.linkTarget
        size := admitted.size
        headerOffset
        dataOffset
        dataLen := admitted.size } ∧
      w' = { w with
        rules := taken
        unreadData := admitted.size
        unreadPadding := padded - admitted.size } := by
  obtain ⟨admitted, _, hrun, h⟩ := bind_ok h
  obtain ⟨taken, hadmitted, rfl⟩ := onRules_ok hrun
  obtain ⟨padded, _, hrun, h⟩ := bind_ok h
  obtain ⟨hpadded, rfl⟩ := lift_ok hrun
  obtain ⟨_, _, hrun, h⟩ := bind_ok h
  obtain ⟨havailable, rfl⟩ := checkAvailable_ok hp (w := { w with rules := taken }) hat hrun
  obtain ⟨_, _, hmodify, h⟩ := bind_ok h
  cases hmodify
  cases h
  exact ⟨admitted, taken, padded, hadmitted, hpadded, havailable, rfl, rfl⟩

end Parts

theorem readHeader_ok {block : Bytes} {headerOffset dataOffset : Nat} {typeflag : Typeflag} {header : HeaderFields}
    (h : readHeader block headerOffset w = .ok (typeflag, header, dataOffset) w') :
    ∃ counted, Rules.countHeader w.rules = .ok () counted ∧ TarWalker.decodeHeader counted block = .ok (typeflag, header) ∧
      dataOffset = headerOffset + BLOCK ∧ w' = { w with rules := counted } := by
  obtain ⟨_, _, hrun, h⟩ := bind_ok h
  obtain ⟨counted, hcount, rfl⟩ := onRules_ok hrun
  obtain ⟨_, _, hget, h⟩ := bind_ok h
  cases hget
  obtain ⟨⟨typeflag', header'⟩, _, hrun, h⟩ := bind_ok h
  obtain ⟨hdecode, rfl⟩ := lift_ok hrun
  dsimp only at h
  split at h
  · cases h
  · obtain ⟨hpair, rfl⟩ := EStateM.Result.ok.inj h
    simp only [Prod.mk.injEq] at hpair
    obtain ⟨rfl, rfl, rfl⟩ := hpair
    exact ⟨counted, hcount, hdecode, rfl, rfl⟩

theorem readRecord_ok {block : Bytes} {headerOffset : Nat} {step : Round} (h : readRecord answers patience block headerOffset w = .ok step w') :
    ∃ typeflag header counted, Rules.countHeader w.rules = .ok () counted ∧
      TarWalker.decodeHeader counted block = .ok (typeflag, header) ∧
      ((∃ extension, typeflag = .extension extension ∧ step = .again ∧
          readExtension answers patience extension header.size (headerOffset + BLOCK) (block.getD TYPEFLAG 0)
            { w with rules := counted } = .ok () w') ∨
        ∃ kind entry, typeflag = .entry kind ∧ step = .entry entry ∧
          readEntry kind header headerOffset (headerOffset + BLOCK) { w with rules := counted } = .ok entry w') := by
  obtain ⟨⟨typeflag, header, dataOffset⟩, _, hheader, h⟩ := bind_ok h
  obtain ⟨counted, hcount, hdecode, rfl, rfl⟩ := readHeader_ok hheader
  refine ⟨typeflag, header, counted, hcount, hdecode, ?_⟩
  rcases typeflag with kind | extension
  · obtain ⟨entry, _, hentry, h⟩ := bind_ok h
    cases h
    exact .inr ⟨kind, entry, rfl, rfl, hentry⟩
  · obtain ⟨_, _, hextension, h⟩ := bind_ok h
    cases h
    exact .inl ⟨extension, rfl, rfl, hextension⟩

/-! ### A round, and a call -/

section Calls
variable (hp : Plays answers patience At)
include hp

/-- A round skips what is left of the entry and reads one block. -/
theorem round_ok {step : Round} (hat : At w.source t) (hbuffer : 0 < w.copyBuffer.max)
    (h : round answers patience w = .ok step w') : w.unread + BLOCK ≤ t.readable ∧
      ∃ r, At r (t.advance (w.unread + BLOCK)) ∧
        (finish answers patience { w with source := r, unreadData := 0, unreadPadding := 0 } = .ok step w' ∨
          readRecord answers patience ((t.bytes.drop w.unread).take BLOCK) (t.position + w.unread)
            { w with source := r, unreadData := 0, unreadPadding := 0 } = .ok step w') := by
  obtain ⟨_, _, hskip, h⟩ := bind_ok h
  obtain ⟨hleft, r, hr, rfl⟩ := skipUnread_ok hp hat hbuffer hskip
  obtain ⟨_, _, hget, h⟩ := bind_ok h
  cases hget
  obtain ⟨block, _, hblock, h⟩ := bind_ok h
  obtain ⟨hle, rfl, r', hr', rfl⟩ :=
    pullFull_ok hp (w := { w with source := r, unreadData := 0, unreadPadding := 0 }) hr hblock
  rw [Tape.readable_advance] at hle
  rw [Tape.advance_advance] at hr'
  have hposition : r.position = t.position + w.unread := hp.position hr
  refine ⟨by omega, r', hr', ?_⟩
  split at h
  · exact .inl h
  · rw [hposition] at h
    exact .inr h

/-- The walk has ended where the source does. -/
theorem advanceFrom_end {fuel : Nat} (hat : At w.source t) (hbuffer : 0 < w.copyBuffer.max)
    (h : advanceFrom answers patience fuel w = .ok none w') :
    w.unread ≤ t.readable ∧ ∃ n, At w'.source (t.advance n) ∧ (t.advance n).bytes = [] := by
  induction fuel generalizing w t with
  | zero => cases h
  | succ fuel ih =>
    obtain ⟨step, w₁, hround, h⟩ := bind_ok h
    obtain ⟨hle, r, hr, hstep⟩ := round_ok hp hat hbuffer hround
    refine ⟨by omega, ?_⟩
    rcases hstep with hfinish | hrecord
    · obtain ⟨rfl, r', hr', rfl⟩ := finish_ok hp (w := { w with source := r, unreadData := 0, unreadPadding := 0 }) hr hfinish
      cases h
      rw [Tape.advance_advance] at hr'
      refine ⟨_, hr', ?_⟩
      rw [← Tape.advance_advance]
      exact Tape.bytes_advance_all
    · obtain ⟨typeflag, header, counted, -, -, ⟨extension, -, rfl, hextension⟩ | ⟨kind, entry, -, rfl, -⟩⟩ := readRecord_ok hrecord
      · obtain ⟨n, -, hat', hbuffer'⟩ := readExtension_ok hp
          (w := { w with source := r, unreadData := 0, unreadPadding := 0, rules := counted }) hr hextension
        obtain ⟨-, m, hm, hempty⟩ := ih hat' (hbuffer' ▸ hbuffer) h
        rw [Tape.advance_advance, Tape.advance_advance] at hm hempty
        exact ⟨_, hm, hempty⟩
      · cases h

omit hp in
theorem nextEntry_advance {called : Option TarEntry} (hlatch : w.latch = none) (hfinished : w.finished = false)
    (h : nextEntry answers patience w = .ok called w') : advanceFrom answers patience (w.rules.headersLeft + 1) w = .ok called w' := by
  have hadvance : advance answers patience w = advanceFrom answers patience (w.rules.headersLeft + 1) w := rfl
  have hbody : ((get >>= fun w => if w.finished then pure none else advance answers patience : SourceWalk σ _) w) =
      advance answers patience w := by
    show (if w.finished then pure none else advance answers patience : SourceWalk σ _) w = _
    rw [hfinished]
    rfl
  rw [nextEntry, latched_of_open hlatch, hbody] at h
  rw [← hadvance]
  rcases hrun : advance answers patience w with ⟨called', w₁⟩ | ⟨fault, w₁⟩ <;> rw [hrun] at h
  · exact h
  · cases h

/-- A call that comes to the end has skipped what was left of the last entry. -/
theorem nextEntry_end (hat : At w.source t) (hbuffer : 0 < w.copyBuffer.max) (hlatch : w.latch = none)
    (hfinished : w.finished = false) (h : nextEntry answers patience w = .ok none w') :
    w.unread ≤ t.readable ∧ ∃ n, At w'.source (t.advance n) ∧ (t.advance n).bytes = [] :=
  advanceFrom_end hp hat hbuffer (nextEntry_advance hlatch hfinished h)

/-- A call that cannot read the first header stops at that. -/
theorem nextEntry_short (hat : At w.source t) (hbuffer : 0 < w.copyBuffer.max) (hlatch : w.latch = none)
    (hfinished : w.finished = false) (hunread : w.unread = 0) (hshort : t.readable < BLOCK) :
    ∃ w₁, nextEntry answers patience w = .error t.shortfall w₁ := by
  have hcomes : Comes At (skipMore answers patience w.copyBuffer.max w.unread) fun t =>
    (t.take w.unread).map fun next => ((), next.2) := hp.skipMore hbuffer
  obtain ⟨r, hskip, hr⟩ := onSource_done (w := { w with unreadData := 0, unreadPadding := 0 }) (a := ()) hcomes hat
    (by rw [hunread, Tape.take_zero]; rfl)
  have hskipped : skipUnread answers patience w = .ok () { w with source := r, unreadData := 0, unreadPadding := 0 } := by
    have halloc : allocLen w.copyBuffer.max w.copyBuffer = .ok w.copyBuffer.max := if_neg (Nat.lt_irrefl _)
    show ((if U64_MAX < w.unread then throw _ else _ : SourceWalk σ Unit) w) = _
    rw [if_neg (by omega)]
    show ((Fallible.lift (allocLen w.copyBuffer.max w.copyBuffer) >>= fun skip =>
      onSource (skipMore answers patience skip w.unread) : SourceWalk σ Unit) { w with unreadData := 0, unreadPadding := 0 }) = _
    rw [halloc]
    exact hskip
  obtain ⟨w₁, hread⟩ := onSource_fault (w := { w with source := r, unreadData := 0, unreadPadding := 0 })
    (hp.pullFull BLOCK) hr (if_neg (by omega) : t.take BLOCK = .error t.shortfall)
  have hround : round answers patience w = .error t.shortfall w₁ :=
    (bind_of_ok hskipped).trans ((bind_of_ok rfl).trans (bind_of_error hread))
  have hbody : ((get >>= fun w => if w.finished then pure none else advance answers patience : SourceWalk σ _) w) =
      .error t.shortfall w₁ := by
    show (if w.finished then pure none else advance answers patience : SourceWalk σ _) w = _
    rw [hfinished]
    show advanceFrom answers patience (w.rules.headersLeft + 1) w = _
    unfold advanceFrom
    exact bind_of_error hround
  rw [nextEntry, latched_of_open hlatch, hbody]
  exact ⟨_, rfl⟩

/-! ### Entries of an image archive -/

/-- What a call that comes to an entry of an image archive leaves. -/
structure ImageEntry (t : Tape) (rules : ImageRules) (w : SourceWalker σ) (entry : TarEntry) (w' : SourceWalker σ) : Prop where
  header : w.unread + BLOCK ≤ t.readable
  headerOffset : entry.headerOffset = t.position + w.unread
  dataOffset : entry.dataOffset = t.position + w.unread + BLOCK
  unreadData : w'.unreadData = entry.dataLen
  available : w'.unread ≤ t.allowance - (w.unread + BLOCK)
  kind : entry.kind = .regular ∨ entry.kind = .directory
  rules : ∃ rules' canonical, w'.rules = .image rules' ∧ imageCanonical entry.name (entry.kind = .directory) = some canonical ∧
    rules.seen.get canonical = none ∧ rules'.seen = rules.seen.insert canonical entry.kind
  latch : w'.latch = none
  finished : w'.finished = false
  copyBuffer : w'.copyBuffer = w.copyBuffer

omit hp in
theorem classify_of_decodeHeader {rules : Rules} {block : Bytes} {typeflag : Typeflag} {header : HeaderFields}
    (h : TarWalker.decodeHeader rules block = .ok (typeflag, header)) :
    rules.classify (block.getD TYPEFLAG 0) = some typeflag := by
  obtain ⟨_, -, h⟩ := Checks.bind_ok h
  obtain ⟨_, -, h⟩ := Checks.bind_ok h
  dsimp only at h
  rcases hclass : rules.classify (block.getD TYPEFLAG 0) with _ | classified <;> rw [hclass] at h
  · cases h
  · obtain ⟨_, -, h⟩ := Checks.bind_ok h
    cases h
    rfl

omit hp in
/-- The policy of an image archive knows regular files and directories. -/
theorem classify_image {rules : ImageRules} {flag : UInt8} {typeflag : Typeflag}
    (h : (Rules.image rules).classify flag = some typeflag) : typeflag = .entry .regular ∨ typeflag = .entry .directory := by
  unfold Rules.classify at h
  rw [show (Rules.image rules).isImage = true from rfl, if_pos rfl] at h
  split at h
  · exact .inl (Option.some.inj h).symm
  split at h
  · exact .inr (Option.some.inj h).symm
  · cases h

theorem nextEntry_image {rules : ImageRules} {entry : TarEntry} (hat : At w.source t) (hbuffer : 0 < w.copyBuffer.max)
    (hrules : w.rules = .image rules) (hlatch : w.latch = none) (hfinished : w.finished = false)
    (h : nextEntry answers patience w = .ok (some entry) w') :
    At w'.source (t.advance (w.unread + BLOCK)) ∧ ImageEntry t rules w entry w' := by
  obtain ⟨step, w₁, hround, h⟩ := bind_ok (nextEntry_advance hlatch hfinished h)
  obtain ⟨hle, r, hr, hfinish | hrecord⟩ := round_ok hp hat hbuffer hround
  · obtain ⟨rfl, r', hr', rfl⟩ := finish_ok hp (w := { w with source := r, unreadData := 0, unreadPadding := 0 }) hr hfinish
    cases h
  obtain ⟨typeflag, header, counted, hcount, hdecode, hrest⟩ := readRecord_ok hrecord
  have hcounted : ∃ entries, counted = .image { rules with entries } := by
    have hcount : Rules.countHeader w.rules = .ok () counted := hcount
    rw [hrules] at hcount
    unfold Rules.countHeader at hcount
    dsimp only at hcount
    split at hcount
    · cases hcount
      exact ⟨_, rfl⟩
    · cases hcount
  obtain ⟨entries, rfl⟩ := hcounted
  have hkind := classify_image (classify_of_decodeHeader hdecode)
  rcases hrest with ⟨extension, rfl, -, -⟩ | ⟨kind, entry', rfl, rfl, hentry⟩
  · rcases hkind with hkind | hkind <;> cases hkind
  obtain ⟨admitted, taken, padded, hadmit, hpadded, havailable, rfl, rfl⟩ := readEntry_ok hp
    (w := { w with source := r, unreadData := 0, unreadPadding := 0, rules := .image { rules with entries } }) hr hentry
  cases h
  have hsize := (paddedLen_ok hpadded).2.1
  have hrecorded : ∃ rules' canonical, taken = .image rules' ∧ imageCanonical admitted.name (kind = .directory) = some canonical ∧
      rules.seen.get canonical = none ∧ rules'.seen = rules.seen.insert canonical kind := by
    unfold Rules.admitHeader at hadmit
    dsimp only at hadmit
    split at hadmit
    next admitted' rules' hadmitted =>
      cases hadmit
      obtain ⟨canonical, hcanonical, hplaced, rfl⟩ := ImageRules.admitHeader_ok hadmitted
      refine ⟨rules', canonical, rfl, hcanonical, ?_, by rw [ImageRules.record_ok hplaced]⟩
      unfold ImageRules.record at hplaced
      split at hplaced
      · cases hplaced
      next hnone => exact hnone
    · cases hadmit
  refine ⟨hr, hle, rfl, rfl, rfl, ?_, ?_, hrecorded, hlatch, hfinished, rfl⟩
  · show admitted.size + (padded - admitted.size) ≤ _
    rw [Nat.add_sub_cancel' hsize]
    exact havailable
  · rcases hkind with hkind | hkind <;> cases hkind
    · exact .inl rfl
    · exact .inr rfl

end Calls

end SourceWalker

end DeployCore
