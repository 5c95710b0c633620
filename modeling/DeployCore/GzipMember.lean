import DeployCore.GzipHeader
import DeployCore.Lib.Checks

/-! # One gzip member

The outcome of decoding a byte string, whatever it is cut into and whatever it is read into: its decoded bytes and a
clean end when it is exactly one member, and one and the same first fault when it is not. -/

namespace DeployCore
open Fallible CountingReader LittleEndian Incremental

/-! ### The trailer -/

/-- The verdict on what is behind the trailer. -/
def endVerdict (v : View) : Except ContentFault Unit :=
  if v.unread = [] then .ok ()
  else if v.readable = 0 then .error v.shortfall
  else if v.unread.take 1 ≠ [ID1] then .error (.malformed .gzipTrailingData)
  else if (v.advance 1).unread = [] then .error (.malformed .gzipTrailingData)
  else if (v.advance 1).readable = 0 then .error v.shortfall
  else if (v.advance 1).unread.take 1 = [ID2] then .error (.unsupported .concatenatedGzipMember)
  else .error (.malformed .gzipTrailingData)

def trailerVerdict (sum : UInt32) (decoded : Nat) (v : View) : Except ContentFault Unit :=
  if v.readable < 8 then .error v.shortfall
  else if (v.unread.take 8).take 4 ≠ toLE 4 sum.toNat then .error (.malformed .gzipCrc32)
  else if (v.unread.take 8).drop 4 ≠ (toLE 8 decoded).take 4 then .error (.malformed .gzipIsize)
  else endVerdict (v.advance 8)

section Trailer
variable {v : View} {b : BufReader} {sum : UInt32} {decoded : Nat}

theorem probe_cases (h : b.Good) :
    (b.view.unread = [] ∧ ∃ b₁, BufReader.read 1 b = .ok [] b₁) ∨
    (b.view.unread ≠ [] ∧ b.view.readable = 0 ∧ ∃ b₁, BufReader.read 1 b = .error b.view.shortfall b₁) ∨
    b.view.unread ≠ [] ∧ b.view.readable ≠ 0 ∧ ∃ b₁, BufReader.read 1 b = .ok (b.view.unread.take 1) b₁ ∧ b₁.Good ∧
      b₁.view = b.view.advance 1 := by
  rcases BufReader.read_cases h Nat.one_pos with ⟨n, b₁, hpos, hle, hreadable, hread, hgood, hview⟩ |
    ⟨hempty, b₁, hread, -, -⟩ | ⟨hzero, hmore, b₁, hread⟩
  · obtain rfl : n = 1 := by omega
    have hlength := b.view_sound.length_take hreadable
    refine .inr (.inr ⟨fun hempty => ?_, by omega, b₁, hread, hgood, hview⟩)
    rw [hempty] at hlength
    cases hlength
  · exact .inl ⟨hempty, b₁, hread⟩
  · exact .inr (.inl ⟨hmore, hzero, b₁, hread⟩)

theorem verifyEnd_outcome (h : b.Good) : outcome (verifyEnd b) = endVerdict b.view := by
  show outcome ((BufReader.read 1 >>= fun probe =>
      if probe.isEmpty then pure ()
      else if probe ≠ [ID1] then throw (.malformed .gzipTrailingData)
      else BufReader.read 1 >>= fun probe =>
        if probe = [ID2] then throw (.unsupported .concatenatedGzipMember)
        else throw (.malformed .gzipTrailingData) : BufReader.Reads Unit) b) = _
  unfold endVerdict
  rcases probe_cases h with ⟨hempty, b₁, hread⟩ | ⟨hmore, hzero, b₁, hread⟩ | ⟨hmore, hpos, b₁, hread, hgood, hview⟩
  · rw [bind_of_ok hread, if_pos hempty]
    rfl
  · rw [bind_of_error hread, if_neg hmore, if_pos hzero]
    rfl
  rw [bind_of_ok hread, if_neg hmore, if_neg hpos, ← hview]
  have hfirst : (b.view.unread.take 1).isEmpty = false := by
    rw [List.isEmpty_eq_false_iff, ne_eq, List.take_eq_nil_iff]
    exact not_or.mpr ⟨Nat.one_ne_zero, hmore⟩
  rw [hfirst]
  by_cases hid : b.view.unread.take 1 ≠ [ID1]
  · rw [if_pos hid, if_pos hid]
    rfl
  rw [if_neg hid, if_neg hid, if_neg Bool.false_ne_true]
  have hshort : b₁.view.shortfall = b.view.shortfall := by rw [hview]; rfl
  rcases probe_cases hgood with ⟨hempty, b₂, hread⟩ | ⟨hmore, hzero, b₂, hread⟩ | ⟨hmore, hpos, b₂, hread, -, -⟩
  · rw [bind_of_ok hread, if_pos hempty]
    rfl
  · rw [bind_of_error hread, if_neg hmore, if_pos hzero, hshort]
    rfl
  · rw [bind_of_ok hread, if_neg hmore, if_neg hpos]
    split <;> rfl

theorem verifyTrailer_outcome (h : b.Good) : outcome (verifyTrailer sum decoded b) = trailerVerdict sum decoded b.view := by
  unfold trailerVerdict verifyTrailer
  rcases BufReader.readFull_cases h 8 with ⟨hfits, b₁, hread, hgood, hview⟩ | ⟨hshort, b₁, hread⟩
  · rw [bind_of_ok hread, if_neg (Nat.not_lt.mpr hfits), ← hview]
    by_cases hsum : (b.view.unread.take 8).take 4 ≠ toLE 4 sum.toNat
    · rw [if_pos hsum, if_pos hsum]
      rfl
    by_cases hcount : (b.view.unread.take 8).drop 4 ≠ (toLE 8 decoded).take 4
    · rw [if_neg hsum, if_neg hsum, if_pos hcount, if_pos hcount]
      rfl
    · rw [if_neg hsum, if_neg hsum, if_neg hcount, if_neg hcount]
      exact verifyEnd_outcome hgood
  · rw [bind_of_error hread, if_pos hshort]
    rfl

theorem take_toLE (w k n : Nat) : (toLE (k + w) n).take k = toLE k n := by
  induction k generalizing n with
  | zero => rfl
  | succ k ih =>
    rw [Nat.succ_add_eq_add_succ, Nat.add_succ]
    exact congrArg (_ :: ·) (ih _)

/-- A trailer is accepted where nothing is behind it and all of it can be read. -/
theorem trailerVerdict_ok (h : v.Sound) : trailerVerdict sum decoded v = .ok () ↔
    v.unread = toLE 4 sum.toNat ++ toLE 4 decoded ∧ v.readable = v.unread.length := by
  have hisize : (toLE 8 decoded).take 4 = toLE 4 decoded := take_toLE 4 4 decoded
  have hlength (n : Nat) : (toLE 4 n).length = 4 := HeaderReader.length_toLE 4 n
  unfold trailerVerdict
  constructor
  · intro hok
    split at hok
    · cases hok
    next hfits =>
    split at hok
    · cases hok
    next hsum =>
    split at hok
    · cases hok
    next hcount =>
    rw [hisize] at hcount
    unfold endVerdict at hok
    split at hok
    swap
    · split_ifs at hok
    next hend =>
    have htake : v.unread.take 8 = v.unread := by
      have hsplit := List.take_append_drop 8 v.unread
      rwa [show v.unread.drop 8 = [] from hend, List.append_nil] at hsplit
    rw [htake] at hsum hcount
    have hunread : v.unread = toLE 4 sum.toNat ++ toLE 4 decoded := by
      rw [← not_not.mp hsum, ← not_not.mp hcount, List.take_append_drop]
    refine ⟨hunread, Nat.le_antisymm h.fits ?_⟩
    rw [hunread, List.length_append, hlength, hlength]
    omega
  · rintro ⟨hunread, hwhole⟩
    have height : v.unread.length = 8 := by
      rw [hunread, List.length_append, hlength, hlength]
    have htake : v.unread.take 8 = v.unread := List.take_of_length_le (by omega)
    have hsum : (v.unread.take 8).take 4 = toLE 4 sum.toNat := by
      rw [htake, hunread]
      exact List.take_left' (hlength _)
    have hcount : (v.unread.take 8).drop 4 = toLE 4 decoded := by
      rw [htake, hunread]
      exact List.drop_left' (hlength _)
    have hend : (v.advance 8).unread = [] := List.drop_of_length_le (by omega)
    rw [if_neg (by omega), if_neg (not_not.mpr hsum), if_neg (not_not.mpr (hcount.trans hisize.symm)), endVerdict,
      if_pos hend]

end Trailer

/-! ### The body -/

section Body
variable {σ : Type} {inflater : Decoder σ UInt8 UInt8} {format : Format UInt8 UInt8} {Holds : σ → Bytes → Bytes → Prop}
  {checksum : Bytes → UInt32} {v : View}

/-- What decoding comes to from the start of the body: the verdict on the trailer where the body is a whole stream, the
fault of reading on where it is cut short, or the inflater's. -/
inductive Settles (format : Format UInt8 UInt8) (checksum : Bytes → UInt32) (v : View) : Except ContentFault Bytes → Prop
  | ended {k} (hk : k ≤ v.readable) (hends : format.Ends (v.unread.take k)) :
      Settles format checksum v ((trailerVerdict (checksum (format.decoded (v.unread.take k)))
        (format.decoded (v.unread.take k)).length (v.advance k)).map fun _ => format.decoded (v.unread.take k))
  | cut (hgoes : format.Goes (v.unread.take v.readable)) : Settles format checksum v (.error v.shortfall)
  | astray (hastray : format.Astray (v.unread.take v.readable)) :
      Settles format checksum v (.error (.malformed .deflateData))

theorem take_take_readable {k : Nat} (hk : k ≤ v.readable) : (v.unread.take v.readable).take k = v.unread.take k := by
  rw [List.take_take, Nat.min_eq_left hk]

variable (format checksum) in
theorem Settles.exists (v : View) : ∃ outcome, Settles format checksum v outcome := by
  by_cases hends : ∃ k ≤ v.readable, format.Ends (v.unread.take k)
  · obtain ⟨k, hk, hends⟩ := hends
    exact ⟨_, .ended hk hends⟩
  by_cases hgoes : format.Goes (v.unread.take v.readable)
  · exact ⟨_, .cut hgoes⟩
  · refine ⟨_, .astray ⟨hgoes, fun k hk => hends ?_⟩⟩
    rw [List.take_take] at hk
    exact ⟨_, Nat.min_le_right _ _, hk⟩

/-- It comes to one outcome only. -/
theorem Settles.unique (hv : v.Sound) {a b : Except ContentFault Bytes} (ha : Settles format checksum v a)
    (hb : Settles format checksum v b) : a = b := by
  have hnot {k : Nat} (hk : k ≤ v.readable) (hends : format.Ends (v.unread.take k)) :
      ¬format.Goes (v.unread.take v.readable) ∧ ¬format.Astray (v.unread.take v.readable) := by
    rw [← take_take_readable hk] at hends
    exact ⟨Format.not_goes_of_ends hends, fun hastray => hastray.ends k hends⟩
  cases ha with
  | @ended k hk hends =>
    cases hb with
    | @ended j hj hends' =>
      obtain rfl := Format.ends_unique hends hends' (hk.trans hv.fits) (hj.trans hv.fits)
      rfl
    | cut hgoes => exact absurd hgoes (hnot hk hends).1
    | astray hastray => exact absurd hastray (hnot hk hends).2
  | cut hgoes =>
    cases hb with
    | ended hk hends => exact absurd hgoes (hnot hk hends).1
    | cut => rfl
    | astray hastray => exact absurd hgoes hastray.goes
  | astray hastray =>
    cases hb with
    | ended hk hends => exact absurd hastray (hnot hk hends).2
    | cut hgoes => exact absurd hgoes hastray.goes
    | astray => rfl

/-- So much of the body is read, and this much of what it decodes to is written. -/
structure Reading (format : Format UInt8 UInt8) (Holds : σ → Bytes → Bytes → Prop) (v : View) (m : Inflating σ) (read : Nat)
    (written : Bytes) : Prop where
  good : m.body.Good
  view : m.body.view = v.advance read
  fits : read ≤ v.readable
  crc : m.crc = written
  totalOut : m.totalOut = written.length
  holds : m.streamEnded = false → Holds m.decompress (v.unread.take read) written
  ended : m.streamEnded → format.Ends (v.unread.take read) ∧ format.decoded (v.unread.take read) = written

variable {m : Inflating σ} {read room : Nat} {written : Bytes}

theorem Reading.stays (hd : Decodes format inflater Holds) (h : Reading format Holds v m read written) :
    (format.Goes (v.unread.take read) ∨ format.Ends (v.unread.take read)) ∧
      written <+: format.decoded (v.unread.take read) := by
  rcases hended : m.streamEnded
  · exact hd.sound _ _ _ (h.holds hended)
  · obtain ⟨hends, hdecoded⟩ := h.ended hended
    exact ⟨.inr hends, hdecoded ▸ List.prefix_rfl⟩

theorem buffer_eq {body : BufReader} (hview : body.view = v.advance read) :
    body.buffer = (v.unread.drop read).take body.buffer.length :=
  (BufReader.buffer_prefix body).trans (by rw [hview]; rfl)

/-- What the inflater did with its input is kept. -/
theorem Reading.keep (hd : Decodes format inflater Holds) (h : Reading format Holds v m read written)
    (hopen : m.streamEnded = false) {body : BufReader} {progress : Progress σ UInt8} (hgood : body.Good)
    (hview : body.view = v.advance read) (hdecode : inflater.decode m.decompress body.buffer room = some progress) :
    ∃ m', Inflating.keep progress room { m with body } = .ok () m' ∧ m'.streamEnded = progress.ended ∧
      Reading format Holds v m' (read + progress.consumed) (written ++ progress.produced) := by
  have hholds := h.holds hopen
  obtain ⟨hconsumed, hproduced⟩ := hd.bounds _ _ _ _ _ _ hholds hdecode
  have hview' : ({ body with buffer := body.buffer.drop progress.consumed } : BufReader).view =
      v.advance (read + progress.consumed) := by
    rw [BufReader.view_consume hconsumed, hview, View.advance_advance]
  have hfits : read + progress.consumed ≤ v.readable := by
    have hbuffer : body.buffer.length ≤ body.view.readable := Nat.le_add_right _ _
    have hreadable : body.view.readable = v.readable - read := by rw [hview]; rfl
    have := h.fits
    omega
  have htake : v.unread.take read ++ body.buffer.take progress.consumed = v.unread.take (read + progress.consumed) := by
    rw [List.take_add, buffer_eq hview, List.take_take, Nat.min_eq_left hconsumed]
  refine ⟨{ m with
    body := { body with buffer := body.buffer.drop progress.consumed }
    decompress := progress.state
    totalOut := m.totalOut + progress.produced.length
    crc := m.crc ++ progress.produced
    streamEnded := progress.ended }, ?_, rfl, ⟨hgood.inner, hgood.capacity⟩, hview', hfits, ?_, ?_, ?_, ?_⟩
  · show (if room < progress.produced.length then throw _ else _ : Inflating.Runs σ Unit) _ = _
    rw [if_neg (Nat.not_lt.mpr hproduced)]
    rfl
  · show m.crc ++ progress.produced = _
    rw [h.crc]
  · show m.totalOut + progress.produced.length = _
    rw [h.totalOut, List.length_append]
  · intro hended
    rw [← htake]
    exact hd.goes _ _ _ _ _ _ hholds hdecode hended
  · intro hended
    rw [← htake]
    exact hd.ended _ _ _ _ _ _ hholds hdecode hended

theorem onBody_ok {α : Type} {p : BufReader.Reads α} {a : α} {body : BufReader} (h : p m.body = .ok a body) :
    Inflating.onBody p m = .ok a { m with body } := by
  unfold Inflating.onBody
  rw [h]

theorem onBody_error {α : Type} {p : BufReader.Reads α} {fault : ContentFault} {body : BufReader}
    (h : p m.body = .error fault body) : Inflating.onBody p m = .error fault { m with body } := by
  unfold Inflating.onBody
  rw [h]

/-- At the end of what can be read the body is cut short, or it is over and its trailer is. -/
theorem Reading.short (hd : Decodes format inflater Holds) (h : Reading format Holds v m read written)
    (hend : read = v.readable) : Settles format checksum v (.error v.shortfall) := by
  subst hend
  rcases (h.stays hd).1 with hgoes | hends
  · exact .cut hgoes
  · have hverdict {sum : UInt32} {count : Nat} : trailerVerdict sum count (v.advance v.readable) = .error v.shortfall := by
      rw [trailerVerdict, if_pos]
      · rfl
      · show v.readable - v.readable < 8
        omega
    have hsettles := @Settles.ended format checksum _ _ le_rfl hends
    rwa [hverdict] at hsettles

/-- What a round comes to. -/
inductive Rounds (format : Format UInt8 UInt8) (checksum : Bytes → UInt32) (Holds : σ → Bytes → Bytes → Prop) (v : View)
    (read : Nat) (written : Bytes) : EStateM.Result ContentFault (Inflating σ) (Option Bytes) → Prop
  | produced {bytes m read'} (h : Reading format Holds v m read' (written ++ bytes)) (hend : bytes = [] → m.streamEnded) :
      Rounds format checksum Holds v read written (.ok (some bytes) m)
  | again {m read'} (h : Reading format Holds v m read' written) (hlt : read < read') :
      Rounds format checksum Holds v read written (.ok none m)
  | stopped {fault m} (h : Settles format checksum v (.error fault)) :
      Rounds format checksum Holds v read written (.error fault m)

/-- What is buffered is given to the inflater; where nothing is, nothing is left. -/
theorem round_filled {body : BufReader} (hfill : BufReader.fillBuf m.body = .ok body.buffer body) :
    Inflating.round inflater room m = ((match inflater.decode m.decompress body.buffer room with
      | none => throw (.malformed .deflateData)
      | some progress => do
        Inflating.keep progress room
        if progress.produced ≠ [] then pure (some progress.produced)
        else if progress.ended then pure (some [])
        else if body.buffer.isEmpty then throw (.malformed .truncated)
        else if progress.consumed = 0 then throw (.malformed .deflateData)
        else pure none : Inflating.Runs σ (Option Bytes)) { m with body }) := by
  unfold Inflating.round
  rw [bind_of_ok (onBody_ok hfill)]
  rfl

theorem inflate_succ {fuel : Nat} (hopen : m.streamEnded = false) :
    Inflating.inflate inflater room (fuel + 1) m = (Inflating.round inflater room >>= fun produced =>
      match produced with
      | some produced => pure produced
      | none => Inflating.inflate inflater room fuel : Inflating.Runs σ Bytes) m := by
  show (if m.streamEnded then pure [] else _ : Inflating.Runs σ Bytes) m = _
  rewrite [if_neg (by rw [hopen]; exact Bool.false_ne_true)]
  rfl

theorem round_reading (hd : Decodes format inflater Holds) (hroom : 0 < room) (h : Reading format Holds v m read written)
    (hopen : m.streamEnded = false) : Rounds format checksum Holds v read written (Inflating.round inflater room m) := by
  have hfits := h.fits
  have hholds := h.holds hopen
  have hleft : m.body.view.readable = v.readable - read := by rw [h.view]; rfl
  have hgiven {body : BufReader} (hfill : BufReader.fillBuf m.body = .ok body.buffer body) (hgood : body.Good)
      (hview : body.view = v.advance read)
      (hempty : body.buffer = [] → read = v.readable ∧ v.shortfall = .malformed .truncated) :
      Rounds format checksum Holds v read written (Inflating.round inflater room m) := by
    have hahead : read + body.buffer.length ≤ v.readable := by
      have hbuffer : body.buffer.length ≤ body.view.readable := Nat.le_add_right _ _
      have hreadable : body.view.readable = v.readable - read := by rw [hview]; rfl
      omega
    have hbuffer : v.unread.take read ++ body.buffer = v.unread.take (read + body.buffer.length) := by
      rw [List.take_add, ← buffer_eq hview]
    rw [round_filled hfill]
    rcases hdecode : inflater.decode m.decompress body.buffer room with _ | progress
    · have hastray := hd.refuses _ _ _ _ _ hholds hdecode
      rw [hbuffer] at hastray
      have hrest := Format.astray_append hastray ((v.unread.take v.readable).drop (read + body.buffer.length))
      rw [← take_take_readable hahead, List.take_append_drop] at hrest
      exact .stopped (.astray hrest)
    obtain ⟨m', hkeep, hended, hreading⟩ := h.keep hd hopen hgood hview hdecode
    dsimp only
    rw [bind_of_ok hkeep]
    by_cases hproduced : progress.produced = []
    swap
    · rw [if_pos hproduced]
      exact .produced hreading fun hnil => absurd hnil hproduced
    rw [if_neg (not_not.mpr hproduced)]
    rcases hprogress : progress.ended
    swap
    · rw [if_pos rfl]
      rw [hproduced] at hreading
      exact .produced hreading fun _ => hended.trans hprogress
    rw [if_neg Bool.false_ne_true]
    obtain ⟨hconsumed, hgoes⟩ := hd.stuck _ _ _ _ _ _ hholds hroom hdecode hprogress hproduced
    rw [hproduced, List.append_nil] at hreading
    rcases hnil : body.buffer with _ | ⟨byte, bytes⟩
    · obtain ⟨hend, hshort⟩ := hempty hnil
      rw [hnil, List.append_nil, hend] at hgoes
      have hsettles := @Settles.cut format checksum _ hgoes
      rw [hshort] at hsettles
      exact .stopped hsettles
    · rw [hnil, List.length_cons] at hconsumed
      rw [if_neg (by exact Bool.false_ne_true), if_neg (by omega)]
      exact .again hreading (by omega)
  rcases BufReader.fillBuf_cases h.good with ⟨body, hfill, hne, hgood, hview⟩ | ⟨hempty, hfill, hbuffer⟩ |
    ⟨hzero, -, body, hfill⟩
  · exact hgiven hfill hgood (hview.trans h.view) fun hnil => absurd hnil hne
  · obtain ⟨hzero, hshort⟩ := m.body.view_sound.eq_nil hempty
    refine hgiven (hfill.trans (by rw [hbuffer])) h.good h.view fun _ => ⟨by omega, ?_⟩
    rw [← hshort, h.view]
    rfl
  · unfold Inflating.round
    rw [bind_of_error (onBody_error hfill), h.view]
    exact .stopped (h.short hd (by omega))

variable (checksum) in
theorem inflate_reading (hd : Decodes format inflater Holds) (hv : v.Sound) (hroom : 0 < room) {fuel : Nat}
    (h : Reading format Holds v m read written) (hfuel : v.unread.length - read < fuel) :
    (∃ produced m' read', Inflating.inflate inflater room fuel m = .ok produced m' ∧
      Reading format Holds v m' read' (written ++ produced) ∧ (produced = [] → m'.streamEnded)) ∨
    ∃ fault m', Inflating.inflate inflater room fuel m = .error fault m' ∧ Settles format checksum v (.error fault) := by
  induction fuel generalizing m read written with
  | zero => omega
  | succ fuel ih =>
    rcases hopen : m.streamEnded
    swap
    · refine .inl ⟨[], m, read, ?_, by rwa [List.append_nil], fun _ => hopen⟩
      show (if m.streamEnded then pure [] else _ : Inflating.Runs σ Bytes) m = _
      rw [if_pos hopen]
      rfl
    rw [inflate_succ hopen]
    have hround : Rounds format checksum Holds v read written (Inflating.round inflater room m) :=
      round_reading hd hroom h hopen
    rcases hresult : Inflating.round inflater room m with ⟨produced, m'⟩ | ⟨fault, m'⟩ <;> rw [hresult] at hround
    · rw [bind_of_ok hresult]
      cases hround with
      | produced hreading hend => exact .inl ⟨_, m', _, rfl, hreading, hend⟩
      | again hreading hlt =>
        have hfits := hreading.fits.trans hv.fits
        exact ih hreading (by omega)
    · rw [bind_of_error hresult]
      cases hround with
      | stopped hsettles => exact .inr ⟨fault, m', rfl, hsettles⟩

end Body

/-! ### The decoder -/

namespace GzipDecoder
variable {σ : Type} {inflater : Decoder σ UInt8 UInt8} {format : Format UInt8 UInt8} {Holds : σ → Bytes → Bytes → Prop}
  {checksum : Bytes → UInt32} {v : View} {d : GzipDecoder σ} {read room : Nat} {written : Bytes}

/-- The decoder is in the body, with no fault so far. -/
structure InBody (format : Format UInt8 UInt8) (Holds : σ → Bytes → Bytes → Prop) (v : View) (d : GzipDecoder σ) (body : BufReader)
    (read : Nat) (written : Bytes) : Prop where
  stage : d.stage = .body body
  latch : d.latch = none
  reading : Reading format Holds v ⟨body, d.inflate, d.totalOut, d.crc, d.streamEnded⟩ read written

/-- What a read into a buffer with room comes to. -/
inductive Call (format : Format UInt8 UInt8) (checksum : Bytes → UInt32) (Holds : σ → Bytes → Bytes → Prop) (v : View)
    (written : Bytes) : EStateM.Result ContentFault (GzipDecoder σ) Bytes → Prop
  | delivered {bytes : Bytes} {d : GzipDecoder σ} {body : BufReader} {read : Nat} (hne : bytes ≠ []) (h : InBody format Holds v d body read (written ++ bytes)) :
      Call format checksum Holds v written (.ok bytes d)
  | ended {d : GzipDecoder σ} (h : Settles format checksum v (.ok written)) : Call format checksum Holds v written (.ok [] d)
  | stopped {fault : ContentFault} {d : GzipDecoder σ} (h : Settles format checksum v (.error fault)) :
      Call format checksum Holds v written (.error fault d)

theorem finish_outcome {body : BufReader} (hstage : d.stage = .body body) :
    outcome (finish checksum d) = outcome (verifyTrailer (checksum d.crc) d.totalOut body) := by
  unfold finish
  rw [hstage]
  dsimp only
  rcases verifyTrailer (checksum d.crc) d.totalOut body with ⟨_, _⟩ | ⟨_, _⟩ <;> rfl

theorem decodeBody_eq {checksum : Bytes → UInt32} : decodeBody inflater checksum room d =
    (match d.stage with
      | .body body => inflateBody inflater body room >>= fun produced =>
        if produced ≠ [] then pure produced else finish checksum >>= fun _ => pure []
      | _ => pure [] : Decodes σ Bytes) d :=
  rfl

variable (checksum) in
theorem decodeBody_call (hd : Incremental.Decodes format inflater Holds) (hv : v.Sound) (hroom : 0 < room) {body : BufReader}
    (h : InBody format Holds v d body read written) :
    Call format checksum Holds v written (decodeBody inflater checksum room d) := by
  have hrun : decodeBody inflater checksum room d = (inflateBody inflater body room >>= fun produced =>
      if produced ≠ [] then pure produced
      else finish checksum >>= fun _ => pure [] : Decodes σ Bytes) d := by
    rw [decodeBody_eq, h.stage]
  have hunread : v.unread.length - read < body.buffer.length + body.inner.source.bytes.length + 1 := by
    have hview : body.view = v.advance read := h.reading.view
    have hlength := congrArg (fun w : View => w.unread.length) hview
    have hlength : (body.buffer ++ body.inner.source.bytes).length = (v.unread.drop read).length := hlength
    rw [List.length_append, List.length_drop] at hlength
    omega
  rw [hrun]
  rcases inflate_reading checksum hd hv hroom h.reading hunread with ⟨produced, m, read', hinflate, hreading, hend⟩ |
    ⟨fault, m, hinflate, hsettles⟩
  · have hbody : inflateBody inflater body room d = .ok produced { d with
        stage := .body m.body
        inflate := m.decompress
        totalOut := m.totalOut
        crc := m.crc
        streamEnded := m.streamEnded } := by
      unfold inflateBody
      rw [hinflate]
    rw [bind_of_ok hbody]
    by_cases hproduced : produced = []
    swap
    · rw [if_pos hproduced]
      exact .delivered hproduced ⟨rfl, h.latch, hreading⟩
    rw [if_neg (not_not.mpr hproduced)]
    rw [hproduced, List.append_nil] at hreading
    obtain ⟨hends, hdecoded⟩ := hreading.ended (hend hproduced)
    have hsettles := @Settles.ended format checksum _ _ hreading.fits hends
    obtain ⟨d', hd'⟩ : ∃ d', d' = { d with
      stage := .body m.body
      inflate := m.decompress
      totalOut := m.totalOut
      crc := m.crc
      streamEnded := m.streamEnded } := ⟨_, rfl⟩
    have hverdict : outcome (finish checksum d') = trailerVerdict (checksum written) written.length (v.advance read') := by
      rw [finish_outcome (hd' ▸ rfl : d'.stage = .body m.body), hd']
      show outcome (verifyTrailer (checksum m.crc) m.totalOut m.body) = _
      rw [verifyTrailer_outcome hreading.good, hreading.view, hreading.crc, hreading.totalOut]
    rw [hdecoded, ← hverdict] at hsettles
    rw [← hd']
    rcases hfinish : finish checksum d' with ⟨_, d''⟩ | ⟨fault, d''⟩ <;> rw [hfinish] at hsettles
    · rw [bind_of_ok hfinish]
      exact .ended hsettles
    · rw [bind_of_error hfinish]
      exact .stopped hsettles
  · have hbody : ∃ d', inflateBody inflater body room d = .error fault d' := by
      unfold inflateBody
      rw [hinflate]
      exact ⟨_, rfl⟩
    obtain ⟨d', hbody⟩ := hbody
    rw [bind_of_error hbody]
    exact .stopped hsettles

theorem read_zero (hlatch : d.latch = none) : GzipDecoder.read inflater checksum 0 d = .ok [] d := by
  unfold GzipDecoder.read
  rw [hlatch]
  rfl

variable (checksum) in
theorem read_call (hd : Incremental.Decodes format inflater Holds) (hv : v.Sound) (hroom : 0 < room) {body : BufReader}
    (h : InBody format Holds v d body read written) :
    Call format checksum Holds v written (GzipDecoder.read inflater checksum room d) := by
  have henter : enterBody checksum d = .ok () d := by
    unfold enterBody
    rw [h.stage]
  have hcall := decodeBody_call checksum hd hv hroom h
  have hdecode : decode inflater checksum room d = decodeBody inflater checksum room d := by
    unfold decode
    rw [if_neg (by omega), bind_of_ok henter]
  unfold GzipDecoder.read
  rw [h.latch]
  dsimp only [Latch.check]
  rw [hdecode]
  rcases hresult : decodeBody inflater checksum room d with ⟨bytes, d'⟩ | ⟨fault, d'⟩ <;> rw [hresult] at hcall
  · exact hcall
  · cases hcall with
    | stopped hsettles => exact .stopped hsettles

/-- No more than this is decoded. -/
def bound (format : Format UInt8 UInt8) (v : View) : Nat :=
  ((List.range (v.readable + 1)).map fun k => (format.decoded (v.unread.take k)).length).sum

theorem length_le_bound {k : Nat} (hk : k ≤ v.readable) (h : written <+: format.decoded (v.unread.take k)) :
    written.length ≤ bound format v := by
  refine h.length_le.trans ?_
  exact List.le_sum_of_mem (List.mem_map.mpr ⟨k, List.mem_range.mpr (Nat.lt_succ_of_le hk), rfl⟩)

variable (checksum) in
/-- The reads of the body come to what it settles to, once there have been enough of them. -/
theorem readAll_body (hd : Incremental.Decodes format inflater Holds) (hv : v.Sound) {body : BufReader}
    (h : InBody format Holds v d body read written) (rooms : List Nat) :
    ((readAll inflater checksum rooms d).verdict = some (.ok ()) →
      Settles format checksum v (.ok (written ++ (readAll inflater checksum rooms d).bytes))) ∧
    (∀ fault, (readAll inflater checksum rooms d).verdict = some (.error fault) →
      Settles format checksum v (.error fault)) ∧
    ((readAll inflater checksum rooms d).verdict = none →
      rooms.countP (· ≠ 0) + written.length ≤ bound format v) := by
  induction rooms generalizing d body read written with
  | nil =>
    refine ⟨nofun, nofun, fun _ => ?_⟩
    rw [List.countP_nil, Nat.zero_add]
    exact length_le_bound h.reading.fits (h.reading.stays hd).2
  | cons room rooms ih =>
    unfold readAll
    rcases Nat.eq_zero_or_pos room with rfl | hroom
    · rw [read_zero h.latch]
      dsimp only
      rw [if_neg (by simp), List.countP_cons_of_neg (by simp)]
      exact ih h
    have hcall := read_call checksum hd hv hroom h
    rw [List.countP_cons_of_pos (by simpa using hroom.ne')]
    cases hresult : GzipDecoder.read inflater checksum room d with
    | error fault d' =>
      rw [hresult] at hcall
      cases hcall with
      | stopped hsettles => exact ⟨nofun, by rintro _ ⟨⟩; exact hsettles, nofun⟩
    | ok bytes d' =>
      rw [hresult] at hcall
      dsimp only
      cases hcall with
      | ended hsettles =>
        rw [if_pos ⟨hroom.ne', rfl⟩]
        exact ⟨fun _ => by rwa [List.append_nil], nofun, nofun⟩
      | delivered hne hbody =>
        rw [if_neg fun hnil => hne hnil.2]
        obtain ⟨hok, herror, hnone⟩ := ih hbody
        refine ⟨fun hverdict => ?_, herror, fun hverdict => ?_⟩
        · rw [← List.append_assoc]
          exact hok hverdict
        · have hcount := hnone hverdict
          have hlength := List.length_pos_iff.mpr hne
          rw [List.length_append] at hcount
          omega

/-- What decoding comes to from the start of the header. -/
inductive Outcome (format : Format UInt8 UInt8) (checksum : Bytes → UInt32) (h : HeaderReader) :
    Except ContentFault Bytes → Prop
  | header {fault : ContentFault} {h' : HeaderReader} (hheader : HeaderReader.readHeader checksum 1 h = .error fault h') :
      Outcome format checksum h (.error fault)
  | body {h' : HeaderReader} {outcome : Except ContentFault Bytes}
      (hheader : HeaderReader.readHeader checksum 1 h = .ok () h')
      (hsettles : Settles format checksum h'.stored.view outcome) : Outcome format checksum h outcome

variable (format checksum) in
theorem Outcome.exists (h : HeaderReader) : ∃ outcome, Outcome format checksum h outcome := by
  rcases hheader : HeaderReader.readHeader checksum 1 h with ⟨_, h'⟩ | ⟨fault, h'⟩
  · obtain ⟨outcome, hsettles⟩ := Settles.exists format checksum h'.stored.view
    exact ⟨outcome, .body hheader hsettles⟩
  · exact ⟨_, .header hheader⟩

theorem Outcome.unique {h : HeaderReader} {a b : Except ContentFault Bytes} (ha : Outcome format checksum h a)
    (hb : Outcome format checksum h b) : a = b := by
  rcases ha with hheader | ⟨hheader, hsettles⟩ <;> rcases hb with hheader' | ⟨hheader', hsettles'⟩ <;>
    cases hheader.symm.trans hheader'
  · rfl
  · exact hsettles.unique (view_sound _) hsettles'

/-- The decoder has read nothing yet. -/
structure Fresh (inflater : Decoder σ UInt8 UInt8) (d : GzipDecoder σ) (stored : StreamReader) : Prop where
  stage : d.stage = .header stored
  latch : d.latch = none
  inflate : d.inflate = inflater.init
  totalOut : d.totalOut = 0
  crc : d.crc = []
  streamEnded : d.streamEnded = false
  copyBuffer : 0 < d.copyBuffer

/-- No more reads than this bring something. -/
theorem Outcome.enough (format : Format UInt8 UInt8) (checksum : Bytes → UInt32) (h : HeaderReader) : ∃ enough, ∀ h',
    HeaderReader.readHeader checksum 1 h = .ok () h' → bound format h'.stored.view ≤ enough := by
  rcases hheader : HeaderReader.readHeader checksum 1 h with ⟨_, h₁⟩ | ⟨fault, h₁⟩
  · refine ⟨bound format h₁.stored.view, fun h' heq => ?_⟩
    obtain ⟨-, rfl⟩ := EStateM.Result.ok.inj heq
    exact le_rfl
  · exact ⟨0, fun h' heq => by cases heq⟩

variable (checksum) in
theorem readAll_fresh (hd : Incremental.Decodes format inflater Holds) {h : HeaderReader} {stored : StreamReader}
    (hfresh : Fresh inflater d stored) (ht : HeaderReader.Twin h ⟨stored, d.header, []⟩) (rooms : List Nat) :
    ((readAll inflater checksum rooms d).verdict = some (.ok ()) →
      Outcome format checksum h (.ok (readAll inflater checksum rooms d).bytes)) ∧
    (∀ fault, (readAll inflater checksum rooms d).verdict = some (.error fault) →
      Outcome format checksum h (.error fault)) ∧
    ((readAll inflater checksum rooms d).verdict = none → rooms.countP (· ≠ 0) = 0 ∨
      ∃ h', HeaderReader.readHeader checksum 1 h = .ok () h' ∧ rooms.countP (· ≠ 0) ≤ bound format h'.stored.view) := by
  induction rooms with
  | nil => exact ⟨nofun, nofun, fun _ => .inl rfl⟩
  | cons room rooms ih =>
    rcases Nat.eq_zero_or_pos room with rfl | hroom
    · unfold readAll
      rw [read_zero hfresh.latch]
      dsimp only
      rw [if_neg (by simp), List.countP_cons_of_neg (by simp)]
      exact ih
    have hagree := HeaderReader.Alike.readHeader checksum Nat.one_pos hfresh.copyBuffer _ _ ht
    rcases hagree.cases with ⟨_, h₁, h₂, hheader, hheader', htwin⟩ | ⟨fault, h₁, h₂, hheader, hheader', -⟩
    · -- The header is read: from here on it is as if the decoder had been in the body already.
      obtain ⟨d', hd'⟩ : ∃ d', d' = { d with
          stage := .body ⟨h₂.stored, [], d.copyBuffer⟩
          header := h₂.budget } := ⟨_, rfl⟩
      have henter : enterBody checksum d = .ok () d' := by
        unfold enterBody
        rw [hfresh.stage]
        dsimp only
        rw [hheader', hd']
      have hagain : enterBody checksum d' = .ok () d' := by
        unfold enterBody
        rw [hd']
      have hbody : InBody format Holds h₁.stored.view d' ⟨h₂.stored, [], d.copyBuffer⟩ 0 [] := by
        refine ⟨by rw [hd'], by rw [hd']; exact hfresh.latch, ⟨⟨htwin.ready', hfresh.copyBuffer⟩, ?_, Nat.zero_le _, ?_, ?_, ?_, ?_⟩⟩
        · show View.mk _ (0 + h₂.stored.readable) _ = _
          rw [Nat.zero_add, htwin.view]
          rfl
        · rw [hd']
          exact hfresh.crc
        · rw [hd']
          exact hfresh.totalOut
        · intro _
          have hinit := hd.init
          rw [← hfresh.inflate] at hinit
          rw [hd']
          exact hinit
        · intro hended
          rw [hd'] at hended
          cases hended.symm.trans hfresh.streamEnded
      have hread : readAll inflater checksum (room :: rooms) d = readAll inflater checksum (room :: rooms) d' := by
        have hsame : GzipDecoder.read inflater checksum room d = GzipDecoder.read inflater checksum room d' := by
          have hlatch : d'.latch = none := by rw [hd']; exact hfresh.latch
          unfold GzipDecoder.read decode
          rw [hfresh.latch, hlatch, if_neg hroom.ne', bind_of_ok henter, bind_of_ok hagain]
          rfl
        unfold readAll
        rw [hsame]
      rw [hread]
      obtain ⟨hok, herror, hnone⟩ := readAll_body checksum hd (view_sound h₁.stored) hbody (room :: rooms)
      refine ⟨fun hverdict => .body hheader (hok hverdict), fun fault hverdict => .body hheader (herror fault hverdict),
        fun hverdict => .inr ⟨h₁, hheader, ?_⟩⟩
      exact (Nat.le_add_right _ _).trans (hnone hverdict)
    · have hread : ∃ d', GzipDecoder.read inflater checksum room d = .error fault d' := by
        have henter : ∃ d', enterBody checksum d = .error fault d' := by
          unfold enterBody
          rw [hfresh.stage]
          dsimp only
          rw [hheader']
          exact ⟨_, rfl⟩
        obtain ⟨d', henter⟩ := henter
        unfold GzipDecoder.read decode
        rw [hfresh.latch, if_neg hroom.ne', bind_of_error henter]
        exact ⟨_, rfl⟩
      obtain ⟨d', hread⟩ := hread
      unfold readAll
      rw [hread]
      exact ⟨nofun, by rintro _ ⟨⟩; exact .header hheader, nofun⟩

theorem settles_ok_iff {decoded : Bytes} (hv : v.Sound) : Settles format checksum v (.ok decoded) ↔
    ∃ k ≤ v.readable, format.Ends (v.unread.take k) ∧ format.decoded (v.unread.take k) = decoded ∧
      v.unread.drop k = toLE 4 (checksum decoded).toNat ++ toLE 4 decoded.length ∧ v.readable = v.unread.length := by
  have htrailer {k : Nat} (hk : k ≤ v.readable) : trailerVerdict (checksum decoded) decoded.length (v.advance k) = .ok () ↔
      v.unread.drop k = toLE 4 (checksum decoded).toNat ++ toLE 4 decoded.length ∧ v.readable = v.unread.length := by
    rw [trailerVerdict_ok (hv.advance hk)]
    refine and_congr_right fun _ => ?_
    show v.readable - k = (v.unread.drop k).length ↔ _
    have hfits := hv.fits
    rw [List.length_drop]
    omega
  constructor
  · intro hsettles
    obtain ⟨outcome, hsettles, hok⟩ : ∃ outcome, Settles format checksum v outcome ∧ outcome = .ok decoded := ⟨_, hsettles, rfl⟩
    cases hsettles with
    | @ended k hk hends =>
      obtain ⟨_, hverdict, rfl⟩ := Checks.map_ok hok
      exact ⟨k, hk, hends, rfl, (htrailer hk).mp hverdict⟩
    | cut => cases hok
    | astray => cases hok
  · rintro ⟨k, hk, hends, rfl, hrest⟩
    have hsettles := @Settles.ended format checksum _ _ hk hends
    rwa [(htrailer hk).mpr hrest] at hsettles

/-- Exactly one gzip member: a header within the limit, a whole deflate stream, and the trailer of what it decodes to. -/
def Member (format : Format UInt8 UInt8) (checksum : Bytes → UInt32) (limit : Nat) (bytes decoded : Bytes) : Prop :=
  ∃ header body, bytes = header ++ body ++ (toLE 4 (checksum decoded).toNat ++ toLE 4 (decoded.length % 2 ^ 32)) ∧
    HeaderReader.IsHeader checksum header ∧ header.length ≤ limit ∧ format.Ends body ∧ format.decoded body = decoded

theorem toLE_mod (w n : Nat) : toLE w (n % 256 ^ w) = toLE w n := by
  have h := toLE_ofLE (toLE w n)
  rwa [HeaderReader.length_toLE, ofLE_toLE] at h

theorem Outcome.ok_iff {h : HeaderReader} {decoded : Bytes} (hready : Ready h.stored) (hhashed : h.hashed = []) :
    Outcome format checksum h (.ok decoded) ↔
      Member format checksum h.budget.remaining h.stored.source.bytes decoded ∧
        h.stored.readable = h.stored.source.bytes.length := by
  have haccepts := HeaderReader.accepts_readHeader checksum Nat.one_pos
  have hview {n : Nat} (hn : n ≤ h.allowance) : (h.advance n).stored.view = h.stored.view.advance n :=
    view_advanceBy (HeaderReader.allowance_le hn).2
  have hcount : toLE 4 (decoded.length % 2 ^ 32) = toLE 4 decoded.length := toLE_mod 4 decoded.length
  unfold Member
  rw [hcount]
  constructor
  · rintro (_ | ⟨hheader, hsettles⟩)
    obtain ⟨n, hn, rfl, flags, fields, crc, hpiece, hfields, hcrc⟩ := haccepts.sound h () _ hready hheader
    rw [hhashed, List.nil_append] at hcrc
    rw [hview hn, settles_ok_iff (h.stored.view_sound.advance (HeaderReader.allowance_le hn).2)] at hsettles
    obtain ⟨k, hk, hends, hdecoded, htrailer, hwhole⟩ := hsettles
    have hunread : (h.stored.view.advance n).unread = h.stored.source.bytes.drop n := rfl
    have hreadable : (h.stored.view.advance n).readable = h.stored.readable - n := rfl
    rw [hunread] at hends hdecoded htrailer hwhole
    rw [hreadable, List.length_drop] at hwhole
    obtain ⟨hbudget, hle⟩ := HeaderReader.allowance_le hn
    refine ⟨⟨h.stored.source.bytes.take n, (h.stored.source.bytes.drop n).take k, ?_,
      ⟨flags, fields, crc, hpiece, hfields, hcrc⟩, ?_, hends, hdecoded⟩, ?_⟩
    · rw [← htrailer, List.append_assoc, List.take_append_drop, List.take_append_drop]
    · rw [length_take_readable hle]
      exact hbudget
    · have := hle.trans (Nat.min_le_right _ _)
      omega
  · rintro ⟨⟨header, body, hbytes, ⟨flags, fields, crc, hpiece, hfields, hcrc⟩, hlimit, hends, hdecoded⟩, hwhole⟩
    have hlength := congrArg List.length hbytes
    rw [List.length_append, List.length_append] at hlength
    have hn : header.length ≤ h.allowance := by
      unfold HeaderReader.allowance
      omega
    have htake : h.stored.source.bytes.take header.length = header := by
      rw [hbytes, List.append_assoc, List.take_left]
    have hdrop : h.stored.source.bytes.drop header.length = body ++ (toLE 4 (checksum decoded).toNat ++ toLE 4 decoded.length) := by
      rw [hbytes, List.append_assoc, List.drop_left]
    have hheader := haccepts.complete h header.length () hready hn
      ⟨flags, fields, crc, htake.trans hpiece, hfields, by rwa [hhashed, List.nil_append]⟩
    refine .body hheader ?_
    rw [hview hn, settles_ok_iff (h.stored.view_sound.advance (HeaderReader.allowance_le hn).2)]
    have hunread : (h.stored.view.advance header.length).unread = h.stored.source.bytes.drop header.length := rfl
    have hreadable : (h.stored.view.advance header.length).readable = h.stored.readable - header.length := rfl
    rw [hunread, hreadable, hdrop]
    refine ⟨body.length, by omega, ?_, ?_, List.drop_left, ?_⟩
    · rwa [List.take_left]
    · rwa [List.take_left]
    · rw [List.length_append]
      omega

/-- The outcome of decoding a byte string is one, whatever the bytes are cut into, however long the copy buffers are and
whatever is read into: its decoded bytes and a clean end exactly when it is one gzip member that the stored budgets have
room for, and otherwise one first fault. Enough reads come to it. -/
theorem gzip_outcome (hd : Incremental.Decodes format inflater Holds) (checksum : Bytes → UInt32) (bytes : Bytes)
    (own : ResourceLimit) (shared : List Budget) (header : ResourceLimit) :
    ∃ (outcome : Except ContentFault Bytes) (enough : Nat),
      (∀ decoded, outcome = .ok decoded ↔ Member format checksum header.max bytes decoded ∧
        ∀ budget ∈ Budget.ofLimit own :: shared, bytes.length ≤ budget.remaining) ∧
      ∀ serves chunk copyBuffer rooms,
        let stored := CountingReader.ofSource ⟨bytes, serves⟩ own shared chunk
        let delivered := readAll inflater checksum rooms (ofStored inflater stored header copyBuffer)
        (delivered.verdict = some (.ok ()) → outcome = .ok delivered.bytes) ∧
        (∀ fault, delivered.verdict = some (.error fault) → outcome = .error fault) ∧
        (enough < rooms.countP (· ≠ 0) → delivered.verdict.isSome) := by
  obtain ⟨h, hh⟩ : ∃ h : HeaderReader, h = ⟨CountingReader.ofSource ⟨bytes, fun _ n => n⟩ own shared 1, .ofLimit header, []⟩ :=
    ⟨_, rfl⟩
  obtain ⟨outcome, houtcome⟩ := Outcome.exists format checksum h
  obtain ⟨enough, henough⟩ := Outcome.enough format checksum h
  refine ⟨outcome, enough, fun decoded => ?_, fun serves chunk copyBuffer rooms => ?_⟩
  · have hready : Ready h.stored := hh ▸ ready_ofSource _ own shared 1
    have hok : Outcome format checksum h (.ok decoded) ↔ _ := Outcome.ok_iff hready (by rw [hh])
    have hsame : outcome = .ok decoded ↔ Outcome format checksum h (.ok decoded) :=
      ⟨fun heq => heq ▸ houtcome, houtcome.unique⟩
    have hroom : h.stored.readable = h.stored.source.bytes.length ↔
        ∀ budget ∈ Budget.ofLimit own :: shared, bytes.length ≤ budget.remaining := by
      rw [hh]
      exact min_eq_right_iff.trans le_remaining_iff
    rw [hsame, hok, hroom, hh]
    rfl
  · intro stored delivered
    have hfresh : Fresh inflater (ofStored inflater stored header copyBuffer) stored :=
      ⟨rfl, rfl, rfl, rfl, rfl, rfl, Nat.lt_of_lt_of_le Nat.one_pos (Nat.le_max_right _ _)⟩
    have htwin : HeaderReader.Twin h ⟨stored, (ofStored inflater stored header copyBuffer).header, []⟩ := by
      rw [hh]
      exact ⟨ready_ofSource _ own shared 1, ready_ofSource _ own shared chunk, rfl, rfl, rfl⟩
    obtain ⟨hok, herror, hnone⟩ := readAll_fresh checksum hd hfresh htwin rooms
    refine ⟨fun hverdict => houtcome.unique (hok hverdict), fun fault hverdict => houtcome.unique (herror fault hverdict),
      fun hlt => ?_⟩
    rw [Option.isSome_iff_ne_none]
    intro hverdict
    rcases hnone hverdict with hzero | ⟨h', hheader, hle⟩
    · omega
    · exact absurd (hle.trans (henough h' hheader)) (Nat.not_le.mpr hlt)

/-! ### Stored blocks

The deflate streams that only have stored blocks, and their inflater. -/

inductive StoredBlocks
  | header
  | lengths (final : Bool) (seen : Bytes)
  | data (final : Bool) (left : Nat)
  | done

def StoredBlocks.behind (final : Bool) (left : Nat) : StoredBlocks :=
  if left ≠ 0 then .data final left else if final then .done else .header

def StoredBlocks.step : StoredBlocks → UInt8 → Option (StoredBlocks × Bytes)
  | .header, byte => if (byte >>> 1) &&& 3 = 0 then some (.lengths (byte &&& 1 = 1) [], []) else none
  | .lengths final seen, byte =>
    if seen.length < 3 then some (.lengths final (seen ++ [byte]), [])
    else if ofLE (seen.take 2) + ofLE (seen.drop 2 ++ [byte]) = 0xffff then some (.behind final (ofLE (seen.take 2)), [])
    else none
  | .data final left, byte => some (.behind final (left - 1), [byte])
  | .done, _ => none

def StoredBlocks.halted : StoredBlocks → Bool
  | .done => true
  | _ => false

def storedBlocks : Machine StoredBlocks UInt8 UInt8 where
  init := .header
  step := StoredBlocks.step
  halted := StoredBlocks.halted
  init_halted := rfl
  step_halted := by
    rintro (_ | _ | _ | _) byte h
    any_goals cases h
    rfl

def crc32 (bytes : Bytes) : UInt32 :=
  let shift (crc : UInt32) := if crc &&& 1 = 1 then (crc >>> 1) ^^^ 0xedb88320 else crc >>> 1
  ~~~bytes.foldl (fun crc byte => shift^[8] (crc ^^^ byte.toUInt32)) 0xffffffff

/-- A header without optional fields. -/
def plainHeader : Bytes := [ID1, ID2, CM_DEFLATE, 0, 0, 0, 0, 0, 0, 255]

/-- One stored block of two bytes, in a member. -/
def storedMember : Bytes := plainHeader ++ [1, 2, 0, 0xfd, 0xff, 104, 105] ++ [0xac, 0x2a, 0x93, 0xd8] ++ [2, 0, 0, 0]

def wideLimit (resource : LimitResource) : ResourceLimit := ⟨resource, 4096, by decide⟩

/-- Reads of a string of stored blocks, in these pieces. -/
def decodeStored (bytes : Bytes) (serves : Nat → Nat → Nat) (rooms : List Nat) : Delivered :=
  readAll storedBlocks.decoder crc32 rooms (ofStored storedBlocks.decoder
    (CountingReader.ofSource ⟨bytes, serves⟩ (wideLimit .storedLayerBlob) [] 512) (wideLimit .gzipHeader) 512)

theorem storedMember_decodes : Member storedBlocks.format crc32 4096 storedMember [104, 105] := by
  obtain ⟨outcome, enough, hok, hrun⟩ := gzip_outcome (Machine.decodes storedBlocks) crc32 storedMember
    (wideLimit .storedLayerBlob) [] (wideLimit .gzipHeader)
  have hend : (decodeStored storedMember (fun _ n => n) [1, 1, 1]).verdict = some (.ok ()) := by decide +kernel
  have hbytes : (decodeStored storedMember (fun _ n => n) [1, 1, 1]).bytes = [104, 105] := by decide +kernel
  have houtcome := (hrun (fun _ n => n) 512 512 [1, 1, 1]).1 hend
  exact ((hok _).mp (houtcome.trans (congrArg Except.ok hbytes))).1

/-- A stored block of one byte, and behind it a block of no type. -/
def brokenMember : Bytes := plainHeader ++ [0, 1, 0, 0xfe, 0xff, 65] ++ [7]

/-- How much is delivered before a fault does depend on the pieces: what the inflater decodes in the call that fails is
lost. -/
theorem delivered_before_fault : ¬∀ (serves serves' : Nat → Nat → Nat) (rooms : List Nat),
    (decodeStored brokenMember serves rooms).verdict.isSome → (decodeStored brokenMember serves' rooms).verdict.isSome →
      (decodeStored brokenMember serves rooms).bytes = (decodeStored brokenMember serves' rooms).bytes := by
  intro h
  have hbytes := h (fun _ n => n) (fun _ _ => 1) [8, 8] (by decide +kernel) (by decide +kernel)
  exact absurd hbytes (by decide +kernel)

end GzipDecoder

end DeployCore
