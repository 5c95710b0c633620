import DeployCore.TarWalker

/-! # What the walker's reads come to

The skipping of unread data, the zero tail and the reads of an entry's data, each as a function of the bytes that
are left and the allowance. -/

namespace DeployCore
open Fallible CountingReader

namespace TarWalker
variable {r : StreamReader} {w w' : TarWalker} {n : Nat}

theorem skipMore_ok {skip left : Nat} (h : Ready r) (hskip : 0 < skip) (hleft : left ≤ r.readable) :
    skipMore skip left r = (.ok (), r.advanceBy left) := by
  rw [skipMore, readMore_ok h hskip le_rfl hleft]
  rfl

theorem skipMore_short {skip left : Nat} (h : Ready r) (hskip : 0 < skip) (hleft : r.readable < left) :
    (skipMore skip left r).1 = .error r.shortfall := by
  have hmore : (readMore skip left r left []).1 = _ := readMore_short h hskip le_rfl hleft
  unfold skipMore
  rcases hread : readMore skip left r left [] with ⟨outcome, r'⟩
  rw [hread] at hmore
  obtain rfl : outcome = .error r.shortfall := hmore
  rfl

/-! ### The zero tail -/

/-- The verdict on the bytes after a zero block, one by one; `spent` is the fault of reading on at no allowance. -/
def tailVerdict (spent : ContentFault) : (tail allowance : Nat) → Bytes → Except ContentFault Unit
  | tail, _, [] => endTail tail
  | _, 0, _ :: _ => .error spent
  | tail, allowance + 1, byte :: bytes =>
    if MAX_ZERO_TAIL < tail + 1 then .error (.malformed .zeroTailTooLong)
    else if byte ≠ 0 then .error (.malformed .trailingData)
    else tailVerdict spent (tail + 1) allowance bytes

/-- The verdict goes over a piece as the scan of it does. -/
theorem tailVerdict_append {spent : ContentFault} {tail allowance : Nat} {piece rest : Bytes}
    (h : piece.length ≤ allowance) :
    tailVerdict spent tail allowance (piece ++ rest) =
      (scanTail tail piece).bind fun tail => tailVerdict spent tail (allowance - piece.length) rest := by
  induction piece generalizing tail allowance with
  | nil => rfl
  | cons byte piece ih =>
    rw [List.length_cons] at h ⊢
    obtain ⟨allowance, rfl⟩ : ∃ m, allowance = m + 1 := ⟨allowance - 1, by omega⟩
    unfold scanTail
    rw [List.cons_append, tailVerdict]
    split_ifs
    · rfl
    · rfl
    · rw [ih (by omega), Nat.add_sub_add_right]

theorem scanTail_ok {tail tail' : Nat} {piece : Bytes} (h : scanTail tail piece = .ok tail') (htail : tail ≤ MAX_ZERO_TAIL) :
    tail' = tail + piece.length ∧ tail' ≤ MAX_ZERO_TAIL ∧ piece = List.replicate piece.length 0 := by
  induction piece generalizing tail with
  | nil =>
    cases h
    exact ⟨rfl, htail, rfl⟩
  | cons byte piece ih =>
    unfold scanTail at h
    split_ifs at h with hlong hzero
    obtain ⟨htail', hmax, hpiece⟩ := ih h (by omega)
    refine ⟨by rw [htail', List.length_cons]; omega, hmax, ?_⟩
    rw [List.length_cons, List.replicate_succ, ← hpiece, not_not.mp hzero]

/-- The tail is judged byte by byte, whatever pieces it comes in. -/
theorem readTail_eq {fuel tail : Nat} (h : Ready r) (hfuel : r.source.bytes.length < fuel) (htail : tail ≤ MAX_ZERO_TAIL) :
    (readTail fuel r tail).1 = tailVerdict r.spent tail r.remaining r.source.bytes := by
  induction fuel generalizing r tail with
  | zero => omega
  | succ fuel ih =>
    have hrequest : 0 < min BLOCK (MAX_ZERO_TAIL + 1 - tail) := by
      have : 0 < BLOCK := by decide
      omega
    unfold readTail
    by_cases hempty : r.source.bytes = []
    · rw [readStream_end h hrequest hempty, hempty, tailVerdict]
    have hlength := List.length_pos_iff.mpr hempty
    rcases Nat.eq_zero_or_pos r.remaining with hzero | hpos
    · have hfault := readStream_spent h hrequest hzero hempty
      obtain ⟨byte, bytes, hbytes⟩ := List.exists_cons_of_ne_nil hempty
      rcases hread : r.readStream (min BLOCK (MAX_ZERO_TAIL + 1 - tail)) with ⟨outcome, r'⟩
      rw [hread] at hfault
      obtain rfl : outcome = .error r.spent := hfault
      rw [hzero, hbytes]
      rfl
    · have hreadable : 0 < r.readable := Nat.lt_min.mpr ⟨hpos, hlength⟩
      obtain ⟨n, hn, hle, hfits, hread⟩ := readStream_pos h hrequest hreadable
      have hremaining := hfits.trans (Nat.min_le_left _ _)
      have htake := length_take_readable hfits
      have hsplit : r.source.bytes = r.source.bytes.take n ++ (r.advanceBy n).source.bytes :=
        (List.take_append_drop n _).symm
      have hverdict : tailVerdict r.spent tail r.remaining r.source.bytes =
          (scanTail tail (r.source.bytes.take n)).bind fun tail =>
            tailVerdict r.spent tail (r.remaining - n) (r.advanceBy n).source.bytes := by
        conv_lhs => rw [hsplit]
        rw [tailVerdict_append (by omega), htake]
      rw [hread, hverdict]
      rcases hbytes : r.source.bytes.take n with _ | ⟨byte, bytes⟩
      · rw [hbytes, List.length_nil] at htake
        omega
      dsimp only
      rcases hscan : scanTail tail (byte :: bytes) with fault | tail'
      · rfl
      · obtain ⟨-, hmax, -⟩ := scanTail_ok hscan htail
        rw [← spent_advanceBy hremaining, ← remaining_advanceBy hremaining]
        refine ih (h.advanceBy hremaining) ?_ hmax
        rw [length_advanceBy]
        omega

/-- A tail that ends an archive is zero throughout, and of 2 to 2048 blocks with the block before it. -/
theorem tailVerdict_ok {spent : ContentFault} {tail allowance : Nat} {bytes : Bytes}
    (h : tailVerdict spent tail allowance bytes = .ok ()) (htail : tail ≤ MAX_ZERO_TAIL) :
    bytes = List.replicate bytes.length 0 ∧ MIN_ZERO_TAIL ≤ tail + bytes.length ∧
      tail + bytes.length ≤ MAX_ZERO_TAIL ∧ (tail + bytes.length) % BLOCK = 0 := by
  induction bytes generalizing tail allowance with
  | nil =>
    unfold tailVerdict endTail at h
    split_ifs at h with hend
    exact ⟨rfl, hend.1, htail, hend.2⟩
  | cons byte bytes ih =>
    rcases allowance with _ | allowance
    · cases h
    unfold tailVerdict at h
    split_ifs at h with hlong hzero
    obtain ⟨hbytes, hmin, hmax, hmod⟩ := ih h (by omega)
    rw [List.length_cons, Nat.add_comm bytes.length, ← Nat.add_assoc]
    refine ⟨?_, hmin, hmax, hmod⟩
    rw [Nat.add_comm 1, List.replicate_succ, ← hbytes, not_not.mp hzero]

/-! ### The walker between headers -/

def unread (w : TarWalker) : Nat :=
  w.unreadData + w.unreadPadding

/-- The walker at the next header, with nothing left unread. -/
def settled (w : TarWalker) : TarWalker :=
  { w with source := w.source.advanceBy w.unread, unreadData := 0, unreadPadding := 0 }

/-- A walker that has not faulted, with an allowance for what is unread. -/
structure Open (w : TarWalker) : Prop where
  latch : w.latch = none
  finished : w.finished = false
  ready : Ready w.source
  copyBuffer : 0 < w.copyBuffer.max
  unread : w.unread ≤ w.source.remaining

/-- What is unread is there. -/
structure Steady (w : TarWalker) : Prop extends Open w where
  whole : w.unread ≤ w.source.source.bytes.length

/-- A walker whose next call for an entry finds the stream truncated. -/
def Doomed (w : TarWalker) : Prop :=
  w.latch = some (.malformed .truncated) ∨ Open w ∧ w.source.source.bytes.length < w.unread

theorem Open.unread_le (h : Open w) : w.unread ≤ U64_MAX :=
  h.unread.trans (remaining_le _)

theorem Steady.readable (h : Steady w) : w.unread ≤ w.source.readable :=
  Nat.le_min.mpr ⟨h.unread, h.whole⟩

theorem Steady.settled (h : Steady w) : Steady w.settled where
  latch := h.latch
  finished := h.finished
  ready := h.ready.advanceBy h.unread
  copyBuffer := h.copyBuffer
  unread := Nat.zero_le _
  whole := Nat.zero_le _

theorem allocLen_copyBuffer : allocLen w.copyBuffer.max w.copyBuffer = .ok w.copyBuffer.max :=
  if_neg (Nat.lt_irrefl _)

theorem onSource_ok {α : Type} {read : StreamReader → Except ContentFault α × StreamReader} {a : α}
    {source : StreamReader} (h : read w.source = (.ok a, source)) : onSource read w = .ok a { w with source } := by
  rw [onSource, h]

theorem onSource_fault {α : Type} {read : StreamReader → Except ContentFault α × StreamReader} {fault : ContentFault}
    {source : StreamReader} (h : read w.source = (.error fault, source)) :
    onSource read w = .error fault { w with source } := by
  rw [onSource, h]

theorem onSource_error {α : Type} {read : StreamReader → Except ContentFault α × StreamReader} {fault : ContentFault}
    (h : (read w.source).1 = .error fault) : ∃ source, onSource read w = .error fault { w with source } := by
  rcases hread : read w.source with ⟨outcome, source⟩
  rw [hread] at h
  obtain rfl : outcome = .error fault := h
  exact ⟨source, onSource_fault hread⟩

theorem skipUnread_eq (h : Open w) :
    skipUnread w = onSource (skipMore w.copyBuffer.max w.unread) { w with unreadData := 0, unreadPadding := 0 } := by
  have hfits : ¬U64_MAX < w.unreadData + w.unreadPadding := Nat.not_lt.mpr h.unread_le
  show (if U64_MAX < w.unreadData + w.unreadPadding then throw _ else _ : Walk Unit) w = _
  rw [if_neg hfits]
  show ((lift (allocLen w.copyBuffer.max w.copyBuffer) >>= fun skip => onSource (skipMore skip w.unread)) : Walk Unit)
    { w with unreadData := 0, unreadPadding := 0 } = _
  rw [allocLen_copyBuffer]
  rfl

theorem skipUnread_ok (h : Steady w) : skipUnread w = .ok () w.settled := by
  rw [skipUnread_eq h.toOpen]
  exact onSource_ok (skipMore_ok h.ready h.copyBuffer h.readable)

theorem skipUnread_short (h : Open w) (hshort : w.source.source.bytes.length < w.unread) :
    ∃ w', skipUnread w = .error (.malformed .truncated) w' ∧ w'.rules = w.rules ∧ w'.latch = none := by
  have hunread := h.unread
  have hlt : w.source.readable < w.unread := Nat.lt_of_le_of_lt (Nat.min_le_right _ _) hshort
  have hfault := skipMore_short h.ready h.copyBuffer hlt
  have hshortfall : w.source.shortfall = .malformed .truncated := if_pos (by omega)
  rw [skipUnread_eq h]
  obtain ⟨source, hskip⟩ := onSource_error (w := { w with unreadData := 0, unreadPadding := 0 }) hfault
  rw [hskip, hshortfall]
  exact ⟨_, rfl, rfl, h.latch⟩

/-! ### Reads of the data -/

/-- What reading `n` bytes of the data leaves. -/
def afterData (w : TarWalker) (n : Nat) : TarWalker :=
  { w with source := w.source.advanceBy n, unreadData := w.unreadData - n }

theorem readData_pos {buf : Nat} (h : Open w) (hbuf : buf ≠ 0) (hdata : w.unreadData ≠ 0)
    (hmore : w.source.source.bytes ≠ []) :
    ∃ n bytes, n ≤ w.unreadData ∧ n ≤ w.source.readable ∧ readData buf w = .ok bytes (w.afterData n) := by
  have hunread := h.unread
  have hlength := List.length_pos_iff.mpr hmore
  have hremaining : 0 < w.source.remaining := by
    unfold TarWalker.unread at hunread
    omega
  have hrequest : 0 < min buf w.unreadData := by omega
  obtain ⟨n, hn, hle, hfits, hread⟩ := readStream_pos h.ready hrequest (Nat.lt_min.mpr ⟨hremaining, hlength⟩)
  have htake := length_take_readable hfits
  refine ⟨n, w.source.source.bytes.take n, by omega, hfits, ?_⟩
  have hempty : (w.source.source.bytes.take n).isEmpty = false := by
    rw [List.isEmpty_eq_false_iff, ← List.length_pos_iff, htake]
    exact hn
  show (if buf = 0 ∨ w.unreadData = 0 then pure [] else _ : Walk Bytes) w = _
  rw [if_neg (not_or.mpr ⟨hbuf, hdata⟩)]
  refine (bind_of_ok (onSource_ok hread)).trans ?_
  simp only [hempty, Bool.false_eq_true, if_false]
  show EStateM.Result.ok _ _ = _
  rw [htake]
  rfl

theorem Open.afterData (h : Open w) (hdata : n ≤ w.unreadData) (hn : n ≤ w.source.remaining) : Open (w.afterData n) where
  latch := h.latch
  finished := h.finished
  ready := h.ready.advanceBy hn
  copyBuffer := h.copyBuffer
  unread := by
    have hunread := h.unread
    show w.unreadData - n + w.unreadPadding ≤ (w.source.advanceBy n).remaining
    rw [remaining_advanceBy hn]
    unfold TarWalker.unread at hunread
    omega

theorem settled_afterData (h : Open w) (hdata : n ≤ w.unreadData) : (w.afterData n).settled = w.settled := by
  have hsum : n + (w.unreadData - n + w.unreadPadding) = w.unread := by
    unfold unread
    omega
  have hsource : (w.source.advanceBy n).advanceBy (w.unreadData - n + w.unreadPadding) = w.source.advanceBy w.unread := by
    rw [advanceBy_advanceBy (hsum ▸ h.unread), hsum]
  unfold settled
  rw [← hsource]
  rfl

theorem readEntryData_of_latch {fault : ContentFault} {buf : Nat} (h : w.latch = some fault) :
    readEntryData buf w = .error fault w := by
  unfold readEntryData latched
  rw [h]
  rfl

theorem latched_of_open {α : Type} {x : Walk α} (h : w.latch = none) : latched x w =
    match x w with
    | .ok a w => .ok a w
    | .error fault w => .error fault { w with latch := w.latch.record fault } := by
  unfold latched
  rw [h]
  rfl

/-- Reads of data that is there leave the next header where it is. -/
theorem Steady.readAll (h : Steady w) (bufs : List Nat) :
    Steady (TarWalker.readAll bufs w) ∧ (TarWalker.readAll bufs w).settled = w.settled := by
  induction bufs generalizing w with
  | nil => exact ⟨h, rfl⟩
  | cons buf bufs ih =>
    unfold TarWalker.readAll readEntryData
    rw [latched_of_open h.latch]
    by_cases hempty : buf = 0 ∨ w.unreadData = 0
    · have hread : readData buf w = .ok [] w := by
        show (if buf = 0 ∨ w.unreadData = 0 then pure [] else _ : Walk Bytes) w = _
        rw [if_pos hempty]
        rfl
      rw [hread]
      exact ih h
    · obtain ⟨hbuf, hdata⟩ := not_or.mp hempty
      have hunread := h.whole
      have hmore : w.source.source.bytes ≠ [] := by
        intro hnil
        rw [hnil, unread, List.length_nil] at hunread
        omega
      obtain ⟨n, bytes, hle, hfits, hread⟩ := readData_pos h.toOpen hbuf hdata hmore
      have hsteady : Steady (w.afterData n) := by
        refine ⟨h.toOpen.afterData hle (hfits.trans (Nat.min_le_left _ _)), ?_⟩
        show w.unreadData - n + w.unreadPadding ≤ (w.source.advanceBy n).source.bytes.length
        rw [length_advanceBy]
        unfold unread at hunread
        omega
      rw [hread]
      exact ⟨(ih hsteady).1, (ih hsteady).2.trans (settled_afterData h.toOpen hle)⟩

/-- No read of the data of a truncated stream changes what the next call reports. -/
theorem Doomed.readAll (h : Doomed w) (bufs : List Nat) :
    Doomed (TarWalker.readAll bufs w) ∧ (TarWalker.readAll bufs w).rules = w.rules := by
  induction bufs generalizing w with
  | nil => exact ⟨h, rfl⟩
  | cons buf bufs ih =>
    unfold TarWalker.readAll
    rcases h with hlatch | ⟨hopen, hshort⟩
    · rw [readEntryData_of_latch hlatch]
      exact ih (.inl hlatch)
    unfold readEntryData
    rw [latched_of_open hopen.latch]
    by_cases hempty : buf = 0 ∨ w.unreadData = 0
    · have hread : readData buf w = .ok [] w := by
        show (if buf = 0 ∨ w.unreadData = 0 then pure [] else _ : Walk Bytes) w = _
        rw [if_pos hempty]
        rfl
      rw [hread]
      exact ih (.inr ⟨hopen, hshort⟩)
    obtain ⟨hbuf, hdata⟩ := not_or.mp hempty
    by_cases hend : w.source.source.bytes = []
    · have hread : readData buf w = .error (.malformed .truncated) w := by
        show (if buf = 0 ∨ w.unreadData = 0 then pure [] else _ : Walk Bytes) w = _
        rw [if_neg hempty]
        exact (bind_of_ok (onSource_ok (readStream_end hopen.ready (by omega) hend))).trans rfl
      rw [hread]
      dsimp only
      refine ih (.inl ?_)
      show w.latch.record _ = _
      rw [hopen.latch]
      rfl
    · obtain ⟨n, bytes, hle, hfits, hread⟩ := readData_pos hopen hbuf hdata hend
      have hdoomed : Doomed (w.afterData n) := by
        refine .inr ⟨hopen.afterData hle (hfits.trans (Nat.min_le_left _ _)), ?_⟩
        have := hfits.trans (Nat.min_le_right _ _)
        show (w.source.advanceBy n).source.bytes.length < w.unreadData - n + w.unreadPadding
        rw [length_advanceBy]
        unfold unread at hshort
        omega
      rw [hread]
      exact ih hdoomed

end TarWalker

end DeployCore
