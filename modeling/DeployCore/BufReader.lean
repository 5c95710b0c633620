import DeployCore.ByteStream
import DeployCore.Lib.Fallible

/-! # Buffered reading

`std::io::BufReader` over a counted reader of a byte string. What it reads depends on its view alone: the bytes not
yet handed on, how many of them can be, and the fault of reading on behind those. -/

namespace DeployCore
open Fallible CountingReader

/-- What is still to be read, and how far that goes. -/
structure View where
  unread : Bytes
  readable : Nat
  shortfall : ContentFault

namespace View

def advance (v : View) (n : Nat) : View :=
  ⟨v.unread.drop n, v.readable - n, v.shortfall⟩

/-- All that is unread can be read, and then comes the end, or else some of it cannot. -/
structure Sound (v : View) : Prop where
  fits : v.readable ≤ v.unread.length
  whole : v.readable = v.unread.length → v.shortfall = .malformed .truncated

variable {v : View} {n m : Nat}

theorem advance_zero : v.advance 0 = v := rfl

theorem advance_advance : (v.advance n).advance m = v.advance (n + m) := by
  simp only [advance, List.drop_drop, Nat.sub_sub]

theorem Sound.advance (h : v.Sound) (hn : n ≤ v.readable) : (v.advance n).Sound := by
  have hfits := h.fits
  refine ⟨?_, fun hwhole => h.whole ?_⟩
  · show v.readable - n ≤ (v.unread.drop n).length
    rw [List.length_drop]
    omega
  · have hwhole : v.readable - n = (v.unread.drop n).length := hwhole
    rw [List.length_drop] at hwhole
    omega

theorem Sound.length_take (h : v.Sound) (hn : n ≤ v.readable) : (v.unread.take n).length = n := by
  rw [List.length_take]
  exact Nat.min_eq_left (hn.trans h.fits)

theorem Sound.eq_nil (h : v.Sound) (hempty : v.unread = []) : v.readable = 0 ∧ v.shortfall = .malformed .truncated := by
  have hfits := h.fits
  rw [hempty, List.length_nil] at hfits
  have hzero : v.readable = 0 := by omega
  exact ⟨hzero, h.whole (by rw [hzero, hempty]; rfl)⟩

end View

namespace CountingReader
variable {r : StreamReader} {n : Nat}

def view (r : StreamReader) : View :=
  ⟨r.source.bytes, r.readable, r.shortfall⟩

theorem view_sound (r : StreamReader) : r.view.Sound := by
  refine ⟨Nat.min_le_right _ _, fun hwhole => ?_⟩
  have hwhole : min r.remaining r.source.bytes.length = r.source.bytes.length := hwhole
  exact if_pos (by omega)

theorem view_advanceBy (h : n ≤ r.readable) : (r.advanceBy n).view = r.view.advance n := by
  unfold view View.advance
  rw [readable_advanceBy h, shortfall_advanceBy h]
  rfl

theorem Ready.advance (h : Ready r) (hn : n ≤ r.readable) : Ready (r.advanceBy n) :=
  h.advanceBy (hn.trans (Nat.min_le_left _ _))

/-- What a read for at least a byte comes to. -/
theorem readStream_cases (h : Ready r) {buf : Nat} (hbuf : 0 < buf) :
    (∃ n, 0 < n ∧ n ≤ buf ∧ n ≤ r.readable ∧ r.readStream buf = (.ok (r.source.bytes.take n), r.advanceBy n)) ∨
    (r.source.bytes = [] ∧ r.readStream buf = (.ok [], r)) ∨
    r.readable = 0 ∧ r.source.bytes ≠ [] ∧ (r.readStream buf).1 = .error r.shortfall := by
  rcases Nat.eq_zero_or_pos r.readable with hzero | hpos
  · by_cases hempty : r.source.bytes = []
    · exact .inr (.inl ⟨hempty, readStream_end h hbuf hempty⟩)
    · have hlength := List.length_pos_iff.mpr hempty
      have hremaining : r.remaining = 0 := by
        unfold readable at hzero
        omega
      refine .inr (.inr ⟨hzero, hempty, ?_⟩)
      rw [readStream_spent h hbuf hremaining hempty, shortfall, if_neg (by omega)]
  · exact .inl (readStream_pos h hbuf hpos)

end CountingReader

/-- A reader with what it has read ahead. -/
structure BufReader where
  inner : StreamReader
  buffer : Bytes
  capacity : Nat

namespace BufReader

abbrev Reads := EStateM ContentFault BufReader

/-- A call of the reader inside. -/
def onInner {α : Type} (read : StreamReader → Except ContentFault α × StreamReader) : Reads α :=
  fun b =>
    match read b.inner with
    | (.ok a, inner) => .ok a { b with inner }
    | (.error fault, inner) => .error fault { b with inner }

/-- `BufRead::fill_buf`: what is buffered, read anew where nothing is. -/
def fillBuf : Reads Bytes := do
  let b ← get
  if b.buffer.isEmpty then
    let bytes ← onInner fun inner => inner.readStream b.capacity
    modify fun b => { b with buffer := bytes }
    pure bytes
  else pure b.buffer

def consume (n : Nat) : Reads Unit :=
  modify fun b => { b with buffer := b.buffer.drop n }

/-- `Read::read`: a request as long as the buffer goes past it when it is empty. -/
def read (len : Nat) : Reads Bytes := do
  let b ← get
  if b.buffer.isEmpty ∧ b.capacity ≤ len then onInner fun inner => inner.readStream len
  else
    let available ← fillBuf
    consume (min len available.length)
    pure (available.take len)

/-- Reads until `need` more bytes are there; each round brings one at least. -/
def readMore : Nat → (need : Nat) → (filled : Bytes) → Reads Bytes
  | _, 0, filled => pure filled
  | 0, _, _ => throw (.malformed .truncated)
  | fuel + 1, need, filled => do
    let bytes ← read need
    if bytes.isEmpty then throw (.malformed .truncated)
    else readMore fuel (need - bytes.length) (filled ++ bytes)

/-- `read_full`. -/
def readFull (len : Nat) : Reads Bytes :=
  readMore len len []

def view (b : BufReader) : View :=
  ⟨b.buffer ++ b.inner.source.bytes, b.buffer.length + b.inner.readable, b.inner.shortfall⟩

structure Good (b : BufReader) : Prop where
  inner : Ready b.inner
  capacity : 0 < b.capacity

variable {b : BufReader} {n len : Nat}

theorem view_sound (b : BufReader) : b.view.Sound := by
  have h := b.inner.view_sound
  refine ⟨?_, fun hwhole => h.whole ?_⟩
  · show b.buffer.length + b.inner.readable ≤ (b.buffer ++ b.inner.source.bytes).length
    rw [List.length_append]
    exact Nat.add_le_add_left h.fits _
  · have hwhole : b.buffer.length + b.inner.readable = (b.buffer ++ b.inner.source.bytes).length := hwhole
    rw [List.length_append] at hwhole
    exact Nat.add_left_cancel hwhole

theorem onInner_ok {α : Type} {read : StreamReader → Except ContentFault α × StreamReader} {a : α} {inner : StreamReader}
    (h : read b.inner = (.ok a, inner)) : onInner read b = .ok a { b with inner } := by
  unfold onInner
  rw [h]

theorem onInner_error {α : Type} {read : StreamReader → Except ContentFault α × StreamReader} {fault : ContentFault}
    (h : (read b.inner).1 = .error fault) : ∃ b', onInner read b = .error fault b' := by
  unfold onInner
  rcases hread : read b.inner with ⟨outcome, inner⟩
  rw [hread] at h
  obtain rfl : outcome = .error fault := h
  exact ⟨_, rfl⟩

/-- Reading ahead moves bytes into the buffer, not out of the view. -/
theorem view_ahead (hempty : b.buffer = []) (hn : n ≤ b.inner.readable) :
    ({ b with inner := b.inner.advanceBy n, buffer := b.inner.source.bytes.take n } : BufReader).view = b.view := by
  have hlength := b.inner.view_sound.length_take hn
  have hunread : b.inner.source.bytes.take n ++ b.inner.source.bytes.drop n = b.buffer ++ b.inner.source.bytes := by
    rw [List.take_append_drop, hempty, List.nil_append]
  have hreadable : (b.inner.source.bytes.take n).length + (b.inner.advanceBy n).readable =
      b.buffer.length + b.inner.readable := by
    rw [readable_advanceBy hn, hempty, List.length_nil]
    have hlength : (b.inner.source.bytes.take n).length = n := hlength
    omega
  show View.mk (_ ++ _) (_ + (b.inner.advanceBy n).readable) (b.inner.advanceBy n).shortfall = _
  rw [hreadable, shortfall_advanceBy hn]
  exact congrArg (View.mk · _ _) hunread

theorem fillBuf_cases (h : Good b) :
    (∃ b', fillBuf b = .ok b'.buffer b' ∧ b'.buffer ≠ [] ∧ Good b' ∧ b'.view = b.view) ∨
    (b.view.unread = [] ∧ fillBuf b = .ok [] b ∧ b.buffer = []) ∨
    b.view.readable = 0 ∧ b.view.unread ≠ [] ∧ ∃ b', fillBuf b = .error b.view.shortfall b' := by
  rcases hbuffer : b.buffer with _ | ⟨byte, bytes⟩
  · have hfill : fillBuf b = (onInner (fun inner => inner.readStream b.capacity) >>= fun bytes => do
        modify fun b => { b with buffer := bytes }
        pure bytes : Reads Bytes) b := by
      show (if b.buffer.isEmpty then _ else _ : Reads Bytes) b = _
      rw [if_pos (by rw [hbuffer]; rfl)]
    have hview : b.view = b.inner.view := by
      unfold view CountingReader.view
      rw [hbuffer, List.length_nil, Nat.zero_add]
      rfl
    rcases readStream_cases h.inner h.capacity with ⟨n, hpos, -, hle, hread⟩ | ⟨hempty, hread⟩ | ⟨hzero, hmore, hread⟩
    · refine .inl ⟨{ b with inner := b.inner.advanceBy n, buffer := b.inner.source.bytes.take n }, ?_, ?_, ?_, ?_⟩
      · rw [hfill, bind_of_ok (onInner_ok hread)]
        rfl
      · have hlength := b.inner.view_sound.length_take hle
        exact List.ne_nil_of_length_pos (hlength.symm ▸ hpos)
      · exact ⟨h.inner.advance hle, h.capacity⟩
      · exact view_ahead hbuffer hle
    · refine .inr (.inl ⟨by rw [hview]; exact hempty, ?_, rfl⟩)
      rw [hfill, bind_of_ok (onInner_ok hread)]
      show EStateM.Result.ok _ _ = _
      rw [← hbuffer]
    · obtain ⟨b', hb'⟩ : ∃ b', onInner (fun inner => inner.readStream b.capacity) b = .error b.inner.shortfall b' :=
        onInner_error hread
      refine .inr (.inr ⟨by rw [hview]; exact hzero, by rw [hview]; exact hmore, b', ?_⟩)
      rw [hfill, bind_of_error hb', hview]
      rfl
  · refine .inl ⟨b, ?_, by rw [hbuffer]; exact List.cons_ne_nil _ _, h, rfl⟩
    show (if b.buffer.isEmpty then _ else _ : Reads Bytes) b = _
    rw [if_neg (by rw [hbuffer]; exact Bool.false_ne_true)]
    rfl

theorem view_consume (hn : n ≤ b.buffer.length) :
    ({ b with buffer := b.buffer.drop n } : BufReader).view = b.view.advance n := by
  have hunread : b.buffer.drop n ++ b.inner.source.bytes = (b.buffer ++ b.inner.source.bytes).drop n := by
    rw [List.drop_append_of_le_length hn]
  have hreadable : (b.buffer.drop n).length + b.inner.readable = b.buffer.length + b.inner.readable - n := by
    rw [List.length_drop]
    omega
  unfold view View.advance
  rw [← hunread, ← hreadable]

theorem buffer_prefix (b : BufReader) : b.buffer = b.view.unread.take b.buffer.length := by
  show _ = (b.buffer ++ b.inner.source.bytes).take b.buffer.length
  rw [List.take_left]

/-- What a read for at least a byte comes to. -/
theorem read_cases (h : Good b) (hlen : 0 < len) :
    (∃ n b', 0 < n ∧ n ≤ len ∧ n ≤ b.view.readable ∧ read len b = .ok (b.view.unread.take n) b' ∧ Good b' ∧
      b'.view = b.view.advance n) ∨
    (b.view.unread = [] ∧ ∃ b', read len b = .ok [] b' ∧ Good b' ∧ b'.view = b.view) ∨
    b.view.readable = 0 ∧ b.view.unread ≠ [] ∧ ∃ b', read len b = .error b.view.shortfall b' := by
  have hread : read len b = (if b.buffer.isEmpty ∧ b.capacity ≤ len then onInner fun inner => inner.readStream len
      else fillBuf >>= fun available => do
        consume (min len available.length)
        pure (available.take len) : Reads Bytes) b := rfl
  by_cases hpast : b.buffer.isEmpty ∧ b.capacity ≤ len
  · rw [if_pos hpast] at hread
    rw [hread]
    have hbuffer : b.buffer = [] := List.isEmpty_iff.mp hpast.1
    have hview : b.view = b.inner.view := by
      unfold view CountingReader.view
      rw [hbuffer, List.length_nil, Nat.zero_add]
      rfl
    rw [hview]
    rcases readStream_cases h.inner hlen with ⟨n, hpos, hle, hreadable, hcall⟩ | ⟨hempty, hcall⟩ | ⟨hzero, hmore, hcall⟩
    · refine .inl ⟨n, _, hpos, hle, hreadable, onInner_ok hcall, ⟨h.inner.advance hreadable, h.capacity⟩, ?_⟩
      rw [← view_advanceBy hreadable]
      unfold view CountingReader.view
      rw [hbuffer, List.length_nil, Nat.zero_add]
      rfl
    · exact .inr (.inl ⟨hempty, _, onInner_ok hcall, h, hview⟩)
    · exact .inr (.inr ⟨hzero, hmore, onInner_error hcall⟩)
  · rw [if_neg hpast] at hread
    rw [hread]
    rcases fillBuf_cases h with ⟨b', hfill, hne, hgood, hview⟩ | ⟨hempty, hfill, hbuffer⟩ | ⟨hzero, hmore, b', hfill⟩
    · rw [bind_of_ok hfill]
      have hpos := List.length_pos_iff.mpr hne
      have hn : min len b'.buffer.length ≤ b'.buffer.length := Nat.min_le_right _ _
      refine .inl ⟨min len b'.buffer.length, { b' with buffer := b'.buffer.drop (min len b'.buffer.length) }, by omega,
        Nat.min_le_left _ _, ?_, ?_, ⟨hgood.inner, hgood.capacity⟩, ?_⟩
      · rw [← hview]
        exact hn.trans (Nat.le_add_right _ _)
      · have htake : b'.buffer.take len = b.view.unread.take (min len b'.buffer.length) := by
          rw [← hview, ← List.take_take, ← buffer_prefix]
        show EStateM.Result.ok (b'.buffer.take len) _ = _
        rw [htake]
      · rw [view_consume hn, hview]
    · rw [bind_of_ok hfill]
      refine .inr (.inl ⟨hempty, { b with buffer := b.buffer.drop (min len 0) }, ?_, ⟨h.inner, h.capacity⟩, ?_⟩)
      · show EStateM.Result.ok (([] : Bytes).take len) _ = _
        rw [List.take_nil]
        rfl
      · rw [Nat.min_zero, List.drop_zero]
    · exact .inr (.inr ⟨hzero, hmore, b', bind_of_error hfill⟩)

theorem readMore_cases {fuel need : Nat} (filled : Bytes) (h : Good b) (hfuel : need ≤ fuel) :
    (need ≤ b.view.readable ∧ ∃ b', readMore fuel need filled b = .ok (filled ++ b.view.unread.take need) b' ∧ Good b' ∧
      b'.view = b.view.advance need) ∨
    b.view.readable < need ∧ ∃ b', readMore fuel need filled b = .error b.view.shortfall b' := by
  induction fuel generalizing b need filled with
  | zero =>
    obtain rfl : need = 0 := by omega
    refine .inl ⟨Nat.zero_le _, b, ?_, h, rfl⟩
    rw [List.take_zero, List.append_nil]
    rfl
  | succ fuel ih =>
    rcases need with _ | need
    · refine .inl ⟨Nat.zero_le _, b, ?_, h, rfl⟩
      rw [List.take_zero, List.append_nil]
      rfl
    have hmore : readMore (fuel + 1) (need + 1) filled b = (read (need + 1) >>= fun bytes =>
        if bytes.isEmpty then throw (.malformed .truncated)
        else readMore fuel (need + 1 - bytes.length) (filled ++ bytes) : Reads Bytes) b := rfl
    rw [hmore]
    rcases read_cases h (Nat.succ_pos need) with ⟨n, b', hpos, hle, hreadable, hread, hgood, hview⟩ |
      ⟨hempty, b', hread, -, -⟩ | ⟨hzero, -, b', hread⟩
    · have hlength := b.view_sound.length_take hreadable
      have hnonempty : (b.view.unread.take n).isEmpty = false := by
        rw [List.isEmpty_eq_false_iff, ← List.length_pos_iff, hlength]
        exact hpos
      rw [bind_of_ok hread, hnonempty, hlength]
      have hfilled : filled ++ b.view.unread.take n ++ b'.view.unread.take (need + 1 - n) =
          filled ++ b.view.unread.take (need + 1) := by
        rw [hview, List.append_assoc]
        show filled ++ (b.view.unread.take n ++ (b.view.unread.drop n).take (need + 1 - n)) = _
        rw [← List.take_add, Nat.add_sub_cancel' hle]
      have hleft : b'.view.readable = b.view.readable - n := by rw [hview]; rfl
      have hshort : b'.view.shortfall = b.view.shortfall := by rw [hview]; rfl
      rcases ih (filled ++ b.view.unread.take n) hgood (by omega : need + 1 - n ≤ fuel) with
        ⟨hfits, b₂, hrest, hgood₂, hview₂⟩ | ⟨hlt, b₂, hrest⟩
      · refine .inl ⟨by omega, b₂, ?_, hgood₂, ?_⟩
        · rw [← hfilled]
          exact hrest
        · rw [hview₂, hview, View.advance_advance, Nat.add_sub_cancel' hle]
      · refine .inr ⟨by omega, b₂, ?_⟩
        rw [← hshort]
        exact hrest
    · obtain ⟨hzero, hshort⟩ := b.view_sound.eq_nil hempty
      refine .inr ⟨by omega, b', ?_⟩
      rw [bind_of_ok hread, hshort]
      rfl
    · exact .inr ⟨by omega, b', bind_of_error hread⟩

/-- What a read in full comes to. -/
theorem readFull_cases (h : Good b) (len : Nat) :
    (len ≤ b.view.readable ∧ ∃ b', readFull len b = .ok (b.view.unread.take len) b' ∧ Good b' ∧
      b'.view = b.view.advance len) ∨
    b.view.readable < len ∧ ∃ b', readFull len b = .error b.view.shortfall b' :=
  readMore_cases [] h le_rfl

end BufReader

end DeployCore
