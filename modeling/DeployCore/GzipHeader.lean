import DeployCore.GzipDecoder

/-! # The gzip header

What the header reader accepts, field by field, and that its outcome depends on the view of the stored bytes alone. -/

namespace DeployCore
open Fallible CountingReader LittleEndian

namespace HeaderReader
variable {α β : Type} {h h' : HeaderReader} {n m len : Nat}

/-- How many bytes more the header may have, and the stored reader can give. -/
def allowance (h : HeaderReader) : Nat :=
  min h.budget.remaining h.stored.readable

def advance (h : HeaderReader) (n : Nat) : HeaderReader :=
  ⟨h.stored.advanceBy n, h.budget.after n, h.hashed ++ h.stored.source.bytes.take n⟩

/-- The fault of a field that is too long: the header's own limit comes first. -/
def refusal (h : HeaderReader) (len : Nat) : ContentFault :=
  if h.budget.remaining < len then h.budget.exceeded else h.stored.shortfall

theorem allowance_le (hn : n ≤ h.allowance) : n ≤ h.budget.remaining ∧ n ≤ h.stored.readable :=
  ⟨hn.trans (Nat.min_le_left _ _), hn.trans (Nat.min_le_right _ _)⟩

theorem allowance_advance (hn : n ≤ h.allowance) : (h.advance n).allowance = h.allowance - n := by
  obtain ⟨hbudget, hreadable⟩ := allowance_le hn
  show min (h.budget.after n).remaining (h.stored.advanceBy n).readable = _
  rw [Budget.remaining_after hbudget, readable_advanceBy hreadable]
  unfold allowance
  omega

theorem advance_zero : h.advance 0 = h := by
  unfold advance
  rw [advanceBy_zero, Budget.after_zero, List.take_zero, List.append_nil]

theorem advance_advance (hn : n + m ≤ h.allowance) : (h.advance n).advance m = h.advance (n + m) := by
  obtain ⟨hbudget, hreadable⟩ := allowance_le hn
  have hstored := advanceBy_advanceBy (hreadable.trans (Nat.min_le_left _ _))
  have hhashed : h.hashed ++ h.stored.source.bytes.take n ++ (h.stored.source.bytes.drop n).take m =
      h.hashed ++ h.stored.source.bytes.take (n + m) := by
    rw [List.append_assoc, ← List.take_add]
  unfold advance
  rw [hstored, Budget.after_after hbudget]
  exact congrArg (HeaderReader.mk _ _) hhashed

theorem onStored_ok {read : StreamReader → Except ContentFault α × StreamReader} {a : α} {stored : StreamReader}
    (hread : read h.stored = (.ok a, stored)) : onStored read h = .ok a { h with stored } := by
  unfold onStored
  rw [hread]

theorem onStored_error {read : StreamReader → Except ContentFault α × StreamReader} {fault : ContentFault}
    {stored : StreamReader} (hread : read h.stored = (.error fault, stored)) :
    onStored read h = .error fault { h with stored } := by
  unfold onStored
  rw [hread]

theorem field_ok (hready : Ready h.stored) (hlen : len ≤ h.allowance) :
    field len h = .ok (h.stored.source.bytes.take len) (h.advance len) := by
  obtain ⟨hbudget, hreadable⟩ := allowance_le hlen
  have hcheck : check len h = .ok () h := by
    show lift (h.budget.check len) h = _
    rw [Budget.check, if_pos hbudget]
    rfl
  have hread : onStored (fun stored => stored.readFull len) h =
      .ok (h.stored.source.bytes.take len) { h with stored := h.stored.advanceBy len } :=
    onStored_ok (readFull_ok hready hreadable)
  have hcharge : charge (h.stored.source.bytes.take len) { h with stored := h.stored.advanceBy len } =
      .ok () (h.advance len) := by
    show ((lift (h.budget.charge (h.stored.source.bytes.take len).length) >>= _ : Reads Unit) _) = _
    rw [length_take_readable hreadable, Budget.charge_eq hbudget]
    rfl
  unfold field
  rw [bind_of_ok hcheck, bind_of_ok hread, bind_of_ok hcharge]
  rfl

theorem field_error (hready : Ready h.stored) (hlen : h.allowance < len) :
    ∃ h', field len h = .error (h.refusal len) h' := by
  unfold refusal
  by_cases hbudget : h.budget.remaining < len
  · have hcheck : check len h = .error h.budget.exceeded h := by
      show lift (h.budget.check len) h = _
      rw [Budget.check, if_neg (by omega)]
      rfl
    rw [if_pos hbudget]
    exact ⟨h, bind_of_error hcheck⟩
  · have hreadable : h.stored.readable < len := by
      unfold allowance at hlen
      omega
    have hcheck : check len h = .ok () h := by
      show lift (h.budget.check len) h = _
      rw [Budget.check, if_pos (by omega)]
      rfl
    have hshort := readFull_short hready hreadable
    rw [if_neg hbudget]
    unfold field
    rw [bind_of_ok hcheck]
    rcases hread : h.stored.readFull len with ⟨outcome, stored⟩
    rw [hread] at hshort
    obtain rfl : outcome = .error h.stored.shortfall := hshort
    exact ⟨{ h with stored }, bind_of_error (onStored_error hread)⟩

theorem ready_advance (hready : Ready h.stored) (hn : n ≤ h.allowance) : Ready (h.advance n).stored :=
  hready.advance (allowance_le hn).2

theorem skipMore_ok {chunk fuel left : Nat} (hready : Ready h.stored) (hchunk : 0 < chunk) (hfuel : left ≤ fuel)
    (hleft : left ≤ h.allowance) : skipMore chunk fuel left h = .ok () (h.advance left) := by
  induction fuel generalizing h left with
  | zero =>
    obtain rfl : left = 0 := by omega
    rw [advance_zero]
    rfl
  | succ fuel ih =>
    rcases left with _ | left
    · rw [advance_zero]
      rfl
    have hstep : min chunk (left + 1) ≤ h.allowance := (Nat.min_le_right _ _).trans hleft
    have hrest : skipMore chunk fuel (left + 1 - min chunk (left + 1)) (h.advance (min chunk (left + 1))) = _ :=
      ih (ready_advance hready hstep) (by omega) (by rw [allowance_advance hstep]; omega)
    show (field (min chunk (left + 1)) >>= fun _ => skipMore chunk fuel (left + 1 - min chunk (left + 1)) : Reads Unit) h = _
    rw [bind_of_ok (field_ok hready hstep), hrest, advance_advance (by omega),
      Nat.add_sub_cancel' (Nat.min_le_right _ _)]

theorem skipMore_error {chunk fuel left : Nat} (hready : Ready h.stored) (hchunk : 0 < chunk) (hfuel : left ≤ fuel)
    (hbudget : left ≤ h.budget.remaining) (hshort : h.stored.readable < left) :
    ∃ h', skipMore chunk fuel left h = .error h.stored.shortfall h' := by
  induction fuel generalizing h left with
  | zero => omega
  | succ fuel ih =>
    rcases left with _ | left
    · omega
    show ∃ h', (field (min chunk (left + 1)) >>= fun _ => skipMore chunk fuel (left + 1 - min chunk (left + 1)) : Reads Unit) h = _
    rcases Nat.lt_or_ge h.allowance (min chunk (left + 1)) with hlt | hle
    · obtain ⟨h', herror⟩ := field_error hready hlt
      refine ⟨h', (bind_of_error herror).trans ?_⟩
      rw [refusal, if_neg (by omega)]
    · obtain ⟨hbudget', hreadable⟩ := allowance_le hle
      have hleft : (h.advance (min chunk (left + 1))).budget.remaining = h.budget.remaining - min chunk (left + 1) :=
        Budget.remaining_after hbudget'
      have hread : (h.advance (min chunk (left + 1))).stored.readable = h.stored.readable - min chunk (left + 1) :=
        readable_advanceBy hreadable
      have hrest : left + 1 - min chunk (left + 1) ≤ fuel := by omega
      obtain ⟨h', herror⟩ := ih (ready_advance hready hle) hrest (by omega) (by omega)
      refine ⟨h', (bind_of_ok (field_ok hready hle)).trans (herror.trans ?_)⟩
      show EStateM.Result.error (h.stored.advanceBy _).shortfall _ = _
      rw [shortfall_advanceBy hreadable]

/-- Skipping comes to what a field as long would. -/
theorem skip_ok {copyBuffer : Nat} (hready : Ready h.stored) (hcopy : 0 < copyBuffer) (hlen : len ≤ h.allowance) :
    skip len copyBuffer h = .ok () (h.advance len) := by
  have hcheck : check len h = .ok () h := by
    show lift (h.budget.check len) h = _
    rw [Budget.check, if_pos (allowance_le hlen).1]
    rfl
  have hchunk : 0 < min EXTRA_CHUNK copyBuffer := by
    unfold EXTRA_CHUNK
    omega
  unfold skip
  rw [bind_of_ok hcheck, skipMore_ok hready hchunk le_rfl hlen]

theorem skip_error {copyBuffer : Nat} (hready : Ready h.stored) (hcopy : 0 < copyBuffer) (hlen : h.allowance < len) :
    ∃ h', skip len copyBuffer h = .error (h.refusal len) h' := by
  unfold refusal skip
  by_cases hbudget : h.budget.remaining < len
  · have hcheck : check len h = .error h.budget.exceeded h := by
      show lift (h.budget.check len) h = _
      rw [Budget.check, if_neg (by omega)]
      rfl
    rw [if_pos hbudget]
    exact ⟨h, bind_of_error hcheck⟩
  · have hcheck : check len h = .ok () h := by
      show lift (h.budget.check len) h = _
      rw [Budget.check, if_pos (by omega)]
      rfl
    have hchunk : 0 < min EXTRA_CHUNK copyBuffer := by
      unfold EXTRA_CHUNK
      omega
    unfold allowance at hlen
    rw [if_neg hbudget, bind_of_ok hcheck]
    exact skipMore_error hready hchunk le_rfl (by omega) (by omega)

/-! ### One outcome for every cut of the bytes -/

/-- Two readers with the same view, which have had the same header so far. -/
structure Twin (h h' : HeaderReader) : Prop where
  ready : Ready h.stored
  ready' : Ready h'.stored
  view : h.stored.view = h'.stored.view
  budget : h.budget = h'.budget
  hashed : h.hashed = h'.hashed

/-- From twins the two come to twins with the same value, or to the same fault. -/
def Alike (p q : Reads α) : Prop :=
  ∀ h h', Twin h h' → Agree (fun _ => Twin) (fun _ _ => True) (p h) (q h')

namespace Twin

theorem bytes (ht : Twin h h') : h.stored.source.bytes = h'.stored.source.bytes :=
  congrArg View.unread ht.view

theorem allowance (ht : Twin h h') : h.allowance = h'.allowance := by
  have hreadable : h.stored.readable = h'.stored.readable := congrArg View.readable ht.view
  rw [HeaderReader.allowance, hreadable, ht.budget]
  rfl

theorem refusal (ht : Twin h h') : h.refusal len = h'.refusal len := by
  have hshortfall : h.stored.shortfall = h'.stored.shortfall := congrArg View.shortfall ht.view
  rw [HeaderReader.refusal, hshortfall, ht.budget]
  rfl

theorem advance (ht : Twin h h') (hn : n ≤ h.allowance) : Twin (h.advance n) (h'.advance n) where
  ready := ready_advance ht.ready hn
  ready' := ready_advance ht.ready' (ht.allowance ▸ hn)
  view := by
    have hn' : n ≤ h'.allowance := ht.allowance ▸ hn
    show (h.stored.advanceBy n).view = (h'.stored.advanceBy n).view
    rw [view_advanceBy (allowance_le hn).2, view_advanceBy (allowance_le hn').2, ht.view]
  budget := congrArg (Budget.after · n) ht.budget
  hashed := by
    show h.hashed ++ h.stored.source.bytes.take n = h'.hashed ++ h'.stored.source.bytes.take n
    rw [ht.hashed, ht.bytes]

end Twin

namespace Alike

theorem pure (a : α) : Alike (Pure.pure a) (Pure.pure a) :=
  fun _ _ ht => Agree.pure ht

theorem throw (fault : ContentFault) :
    Alike (MonadExcept.throw fault : Reads α) (MonadExcept.throw fault) :=
  fun _ _ _ => Agree.throw trivial

theorem bind {p q : Reads α} {f g : α → Reads β} (h : Alike p q) (hnext : ∀ a, Alike (f a) (g a)) :
    Alike (p >>= f) (q >>= g) :=
  fun r r' ht => (h r r' ht).bind fun a s s' ht' => hnext a s s' ht'

theorem ite {p q p' q' : Reads α} (c : Prop) [Decidable c] (h : Alike p p') (h' : Alike q q') :
    Alike (if c then p else q) (if c then p' else q') := by
  split
  · exact h
  · exact h'

theorem field (len : Nat) : Alike (field len) (field len) := by
  intro h h' ht
  rcases Nat.lt_or_ge h.allowance len with hlt | hle
  · obtain ⟨s, hs⟩ := field_error ht.ready hlt
    obtain ⟨s', hs'⟩ := field_error ht.ready' (ht.allowance ▸ hlt)
    rw [hs, hs', ht.refusal]
    exact .error trivial
  · rw [field_ok ht.ready hle, field_ok ht.ready' (ht.allowance ▸ hle), ht.bytes]
    exact .ok (ht.advance hle)

theorem skip (len : Nat) {copyBuffer copyBuffer' : Nat} (hcopy : 0 < copyBuffer) (hcopy' : 0 < copyBuffer') :
    Alike (skip len copyBuffer) (skip len copyBuffer') := by
  intro h h' ht
  rcases Nat.lt_or_ge h.allowance len with hlt | hle
  · obtain ⟨s, hs⟩ := skip_error ht.ready hcopy hlt
    obtain ⟨s', hs'⟩ := skip_error ht.ready' hcopy' (ht.allowance ▸ hlt)
    rw [hs, hs', ht.refusal]
    exact .error trivial
  · rw [skip_ok ht.ready hcopy hle, skip_ok ht.ready' hcopy' (ht.allowance ▸ hle)]
    exact .ok (ht.advance hle)

theorem skipUntilZero (fuel : Nat) : Alike (skipUntilZero fuel) (skipUntilZero fuel) := by
  induction fuel with
  | zero => exact throw _
  | succ fuel ih => exact (field 1).bind fun byte => ite _ (pure ()) ih

theorem skipText (flags flag : UInt8) : Alike (skipText flags flag) (skipText flags flag) := by
  refine ite _ (fun h h' ht => ?_) (pure ())
  show Agree _ _ (HeaderReader.skipUntilZero (h.stored.source.bytes.length + 1) h)
    (HeaderReader.skipUntilZero (h'.stored.source.bytes.length + 1) h')
  rw [ht.bytes]
  exact skipUntilZero _ h h' ht

theorem checkHeaderCrc (checksum : Bytes → UInt32) (flags : UInt8) :
    Alike (checkHeaderCrc checksum flags) (checkHeaderCrc checksum flags) := by
  refine ite _ (fun h h' ht => ?_) (pure ())
  have hrest : Alike (HeaderReader.field 2 >>= fun recorded =>
      if recorded = (toLE 4 (checksum h.hashed).toNat).take 2 then Pure.pure ()
      else MonadExcept.throw (gzipHeaderFault .headerCrc)) (HeaderReader.field 2 >>= fun recorded =>
      if recorded = (toLE 4 (checksum h'.hashed).toNat).take 2 then Pure.pure ()
      else MonadExcept.throw (gzipHeaderFault .headerCrc)) := by
    rw [ht.hashed]
    exact (field 2).bind fun recorded => ite _ (pure ()) (throw _)
  exact hrest h h' ht

/-- The copy buffer changes nothing either. -/
theorem readHeader (checksum : Bytes → UInt32) {copyBuffer copyBuffer' : Nat} (hcopy : 0 < copyBuffer)
    (hcopy' : 0 < copyBuffer') : Alike (readHeader checksum copyBuffer) (readHeader checksum copyBuffer') := by
  refine bind ?_ fun _ => bind ?_ fun _ => bind ?_ fun flags => (field 4).bind fun _ => (field 1).bind fun _ =>
    (field 1).bind fun _ => bind ?_ fun _ => (skipText _ _).bind fun _ => (skipText _ _).bind fun _ =>
    checkHeaderCrc _ _
  · exact (field 1).bind fun _ => ite _ (throw _) ((field 1).bind fun _ => ite _ (throw _) (pure ()))
  · exact (field 1).bind fun _ => ite _ (throw _) (pure ())
  · exact (field 1).bind fun _ => ite _ (throw _) (pure _)
  · exact ite _ ((field 2).bind fun xlen => skip _ hcopy hcopy') (pure ())

end Alike

/-! ### What the header is -/

/-- The reader reads exactly the pieces of the language, which may depend on what was read before them. -/
structure Accepts (p : Reads α) (L : Bytes → Bytes → α → Prop) : Prop where
  sound : ∀ h a h', Ready h.stored → p h = .ok a h' →
    ∃ n ≤ h.allowance, h' = h.advance n ∧ L h.hashed (h.stored.source.bytes.take n) a
  complete : ∀ h n a, Ready h.stored → n ≤ h.allowance → L h.hashed (h.stored.source.bytes.take n) a →
    p h = .ok a (h.advance n)

namespace Accepts
variable {p : Reads α} {f : α → Reads β} {L : Bytes → Bytes → α → Prop} {M : α → Bytes → Bytes → β → Prop}

theorem pure (a : α) : Accepts (Pure.pure a) fun _ piece b => piece = [] ∧ b = a where
  sound := by
    rintro h _ _ - ⟨⟩
    exact ⟨0, Nat.zero_le _, advance_zero.symm, rfl, rfl⟩
  complete := by
    rintro h n _ hready hn ⟨hnil, rfl⟩
    have hlength := length_take_readable (allowance_le hn).2
    rw [hnil] at hlength
    obtain rfl : 0 = n := hlength
    rw [advance_zero]
    rfl

theorem throw (fault : ContentFault) : Accepts (MonadExcept.throw fault : Reads α) fun _ _ _ => False where
  sound := by
    rintro h a h' - hrun
    cases hrun
  complete := by
    rintro h n a - - hfalse
    exact hfalse.elim

theorem bind (h : Accepts p L) (hnext : ∀ a, Accepts (f a) (M a)) : Accepts (p >>= f) fun before piece b =>
    ∃ first second a, piece = first ++ second ∧ L before first a ∧ M a (before ++ first) second b where
  sound r b r₂ hready hrun := by
    obtain ⟨a, r₁, hp, hf⟩ := bind_ok hrun
    obtain ⟨n, hn, rfl, hfirst⟩ := h.sound r a r₁ hready hp
    obtain ⟨m, hm, rfl, hsecond⟩ := (hnext a).sound _ b r₂ (ready_advance hready hn) hf
    rw [allowance_advance hn] at hm
    exact ⟨n + m, by omega, advance_advance (by omega), _, _, a, List.take_add, hfirst, hsecond⟩
  complete := by
    rintro r n b hready hn ⟨first, second, a, hpiece, hfirst, hsecond⟩
    have hlength := length_take_readable (allowance_le hn).2
    have hlengths := congrArg List.length hpiece
    rw [hlength, List.length_append] at hlengths
    have htake : r.stored.source.bytes.take first.length = first := by
      have hshort := congrArg (List.take first.length) hpiece
      rwa [List.take_take, Nat.min_eq_left (by omega), List.take_left] at hshort
    have hdrop : (r.stored.source.bytes.drop first.length).take second.length = second := by
      have hrest := congrArg (List.drop first.length) hpiece
      rwa [List.drop_take, List.drop_left, hlengths, Nat.add_sub_cancel_left] at hrest
    have hn₁ : first.length ≤ r.allowance := by omega
    rw [← htake] at hfirst
    rw [bind_of_ok (h.complete r _ a hready hn₁ hfirst), hlengths, ← advance_advance (by omega)]
    refine (hnext a).complete _ _ b (ready_advance hready hn₁) (by rw [allowance_advance hn₁]; omega) ?_
    show M a (r.hashed ++ r.stored.source.bytes.take first.length) ((r.stored.source.bytes.drop first.length).take _) b
    rw [htake, hdrop]
    exact hsecond

theorem congr {L' : Bytes → Bytes → α → Prop} (h : Accepts p L) (heq : ∀ before piece a, L before piece a ↔ L' before piece a) :
    Accepts p L' where
  sound r a r' hready hrun := by
    obtain ⟨n, hn, hr', hpiece⟩ := h.sound r a r' hready hrun
    exact ⟨n, hn, hr', (heq _ _ _).mp hpiece⟩
  complete r n a hready hn hpiece := h.complete r n a hready hn ((heq _ _ _).mpr hpiece)

theorem field (len : Nat) : Accepts (field len) fun _ piece a => piece.length = len ∧ a = piece where
  sound h a h' hready hrun := by
    rcases Nat.lt_or_ge h.allowance len with hlt | hle
    · obtain ⟨s, hs⟩ := field_error hready hlt
      cases hs.symm.trans hrun
    · cases (field_ok hready hle).symm.trans hrun
      exact ⟨len, hle, rfl, length_take_readable (allowance_le hle).2, rfl⟩
  complete := by
    rintro h n a hready hn ⟨hlength, rfl⟩
    obtain rfl : n = len := (length_take_readable (allowance_le hn).2).symm.trans hlength
    exact field_ok hready hn

theorem skip (len : Nat) {copyBuffer : Nat} (hcopy : 0 < copyBuffer) :
    Accepts (skip len copyBuffer) fun _ piece _ => piece.length = len where
  sound h a h' hready hrun := by
    rcases Nat.lt_or_ge h.allowance len with hlt | hle
    · obtain ⟨s, hs⟩ := skip_error hready hcopy hlt
      cases hs.symm.trans hrun
    · cases (skip_ok hready hcopy hle).symm.trans hrun
      exact ⟨len, hle, rfl, length_take_readable (allowance_le hle).2⟩
  complete h n _ hready hn hlength := by
    obtain rfl : n = len := (length_take_readable (allowance_le hn).2).symm.trans hlength
    exact skip_ok hready hcopy hn

/-- A check of what a field reads. -/
theorem guarded {q : Reads α} (c : Prop) [Decidable c] (fault : ContentFault) (h : Accepts q L) :
    Accepts (if c then MonadExcept.throw fault else q) fun before piece a => ¬c ∧ L before piece a := by
  split
  next hc => exact (throw fault).congr fun _ _ _ => by simp [hc]
  next hc => exact h.congr fun _ _ _ => by simp [hc]

end Accepts

/-- A text up to its zero byte. -/
def ZeroTerminated (piece : Bytes) : Prop :=
  ∃ text, piece = text ++ [0] ∧ 0 ∉ text

theorem zeroTerminated_cons {byte : UInt8} {piece : Bytes} :
    ZeroTerminated (byte :: piece) ↔ byte = 0 ∧ piece = [] ∨ byte ≠ 0 ∧ ZeroTerminated piece := by
  constructor
  · rintro ⟨_ | ⟨first, text⟩, heq, hmem⟩
    · cases heq
      exact .inl ⟨rfl, rfl⟩
    · cases heq
      obtain ⟨hne, hmem⟩ := not_or.mp (mt List.mem_cons.mpr hmem)
      exact .inr ⟨Ne.symm hne, text, rfl, hmem⟩
  · rintro (⟨rfl, rfl⟩ | ⟨hne, text, rfl, hmem⟩)
    · exact ⟨[], rfl, List.not_mem_nil⟩
    · exact ⟨byte :: text, rfl, mt List.mem_cons.mp (not_or.mpr ⟨Ne.symm hne, hmem⟩)⟩

theorem accepts_skipUntilZero (fuel : Nat) :
    Accepts (skipUntilZero fuel) fun _ piece _ => ZeroTerminated piece ∧ piece.length ≤ fuel := by
  induction fuel with
  | zero =>
    refine (Accepts.throw _).congr fun _ piece _ => ⟨False.elim, ?_⟩
    rintro ⟨⟨text, rfl, -⟩, hlength⟩
    rw [List.length_append, List.length_singleton] at hlength
    omega
  | succ fuel ih =>
    have hnext (byte : Bytes) : Accepts (if byte = [0] then Pure.pure () else skipUntilZero fuel) fun _ piece _ =>
        byte = [0] ∧ piece = [] ∨ byte ≠ [0] ∧ ZeroTerminated piece ∧ piece.length ≤ fuel := by
      split
      next hzero => exact (Accepts.pure ()).congr fun _ _ _ => by simp [hzero]
      next hzero => exact ih.congr fun _ _ _ => by simp [hzero]
    refine ((Accepts.field 1).bind hnext).congr fun before piece _ => ⟨?_, ?_⟩
    · rintro ⟨first, second, _, rfl, ⟨hlength, rfl⟩, hrest⟩
      obtain ⟨byte, rfl⟩ := List.length_eq_one_iff.mp hlength
      rw [List.singleton_append, zeroTerminated_cons, List.length_cons]
      rcases hrest with ⟨hzero, rfl⟩ | ⟨hzero, htext, hfuel⟩
      · exact ⟨.inl ⟨(List.cons.inj hzero).1, rfl⟩, by simp⟩
      · exact ⟨.inr ⟨fun heq => hzero (congrArg (· :: []) heq), htext⟩, by omega⟩
    · rintro ⟨htext, hfuel⟩
      rcases piece with _ | ⟨byte, piece⟩
      · obtain ⟨text, heq, -⟩ := htext
        exact absurd heq.symm (List.append_ne_nil_of_right_ne_nil _ (List.cons_ne_nil _ _))
      · rw [List.length_cons] at hfuel
        refine ⟨[byte], piece, [byte], rfl, ⟨rfl, rfl⟩, ?_⟩
        rcases zeroTerminated_cons.mp htext with ⟨rfl, rfl⟩ | ⟨hne, htext⟩
        · exact .inl ⟨rfl, rfl⟩
        · exact .inr ⟨fun heq => hne (List.cons.inj heq).1, htext, by omega⟩

theorem accepts_skipZeroTerminated : Accepts skipZeroTerminated fun _ piece _ => ZeroTerminated piece where
  sound h a h' hready hrun := by
    obtain ⟨n, hn, heq, htext, -⟩ := (accepts_skipUntilZero _).sound h a h' hready hrun
    exact ⟨n, hn, heq, htext⟩
  complete h n a hready hn htext := by
    refine (accepts_skipUntilZero _).complete h n a hready hn ⟨htext, ?_⟩
    rw [List.length_take]
    omega

/-- The extra field, if the flags say there is one. -/
def Extra (flags : UInt8) (piece : Bytes) : Prop :=
  if flags &&& FEXTRA ≠ 0 then ∃ xlen extra, piece = xlen ++ extra ∧ xlen.length = 2 ∧ extra.length = ofLE xlen else piece = []

/-- A name or a comment, if the flags say there is one. -/
def Text (flags flag : UInt8) (piece : Bytes) : Prop :=
  if flags &&& flag ≠ 0 then ZeroTerminated piece else piece = []

/-- The checksum of the header before it, if the flags say there is one. -/
def HeaderCrc (checksum : Bytes → UInt32) (flags : UInt8) (before piece : Bytes) : Prop :=
  if flags &&& FHCRC ≠ 0 then piece = (toLE 4 (checksum before).toNat).take 2 else piece = []

theorem accepts_skipExtra (flags : UInt8) {copyBuffer : Nat} (hcopy : 0 < copyBuffer) :
    Accepts (skipExtra flags copyBuffer) fun _ piece _ => Extra flags piece := by
  unfold skipExtra Extra
  split
  · refine ((Accepts.field 2).bind fun xlen => Accepts.skip (ofLE xlen) hcopy).congr fun before piece _ => ⟨?_, ?_⟩
    · rintro ⟨xlen, extra, _, rfl, ⟨hlength, rfl⟩, hextra⟩
      exact ⟨_, extra, rfl, hlength, hextra⟩
    · rintro ⟨xlen, extra, rfl, hlength, hextra⟩
      exact ⟨xlen, extra, xlen, rfl, ⟨hlength, rfl⟩, hextra⟩
  · exact (Accepts.pure ()).congr fun _ _ _ => by simp

theorem accepts_skipText (flags flag : UInt8) : Accepts (skipText flags flag) fun _ piece _ => Text flags flag piece := by
  unfold skipText Text
  split
  · exact accepts_skipZeroTerminated
  · exact (Accepts.pure ()).congr fun _ _ _ => by simp

theorem length_toLE (w n : Nat) : (toLE w n).length = w := by
  induction w generalizing n with
  | zero => rfl
  | succ w ih => exact congrArg (· + 1) (ih _)

theorem accepts_checkHeaderCrc (checksum : Bytes → UInt32) (flags : UInt8) :
    Accepts (checkHeaderCrc checksum flags) fun before piece _ => HeaderCrc checksum flags before piece := by
  unfold checkHeaderCrc HeaderCrc
  split
  swap
  · exact (Accepts.pure ()).congr fun _ _ _ => by simp
  have hnext (sum : Bytes) (recorded : Bytes) : Accepts (if recorded = sum then Pure.pure ()
      else MonadExcept.throw (gzipHeaderFault .headerCrc) : Reads Unit) fun _ piece _ => recorded = sum ∧ piece = [] := by
    split
    next heq => exact (Accepts.pure ()).congr fun _ _ _ => by simp [heq]
    next hne => exact (Accepts.throw _).congr fun _ _ _ => by simp [hne]
  have hread (sum : Bytes) (hsum : sum.length = 2) : Accepts (field 2 >>= fun recorded =>
      if recorded = sum then Pure.pure () else MonadExcept.throw (gzipHeaderFault .headerCrc) : Reads Unit)
      fun _ piece _ => piece = sum := by
    refine ((Accepts.field 2).bind (hnext sum)).congr fun before piece _ => ⟨?_, ?_⟩
    · rintro ⟨_, _, _, rfl, ⟨-, rfl⟩, rfl, rfl⟩
      rw [List.append_nil]
    · rintro rfl
      exact ⟨piece, [], piece, (List.append_nil _).symm, ⟨hsum, rfl⟩, rfl, rfl⟩
  have hlength (before : Bytes) : ((toLE 4 (checksum before).toNat).take 2).length = 2 := by
    rw [List.length_take, length_toLE]
    rfl
  exact {
    sound := fun h a h' hready hrun => (hread _ (hlength h.hashed)).sound h a h' hready hrun
    complete := fun h n a hready hn hpiece => (hread _ (hlength h.hashed)).complete h n a hready hn hpiece }

/-- A byte that has to be there. -/
theorem accepts_expect (byte : UInt8) (fault : ContentFault) {q : Reads α} {L : Bytes → Bytes → α → Prop} (h : Accepts q L) :
    Accepts (do let id ← field 1; if id ≠ [byte] then MonadExcept.throw fault else q) fun before piece a =>
      ∃ rest, piece = byte :: rest ∧ L (before ++ [byte]) rest a := by
  refine ((Accepts.field 1).bind fun id => h.guarded (id ≠ [byte]) fault).congr fun before piece a => ⟨?_, ?_⟩
  · rintro ⟨_, rest, _, rfl, ⟨-, rfl⟩, hid, hrest⟩
    rw [not_not] at hid
    subst hid
    exact ⟨rest, rfl, hrest⟩
  · rintro ⟨rest, rfl, hrest⟩
    exact ⟨[byte], rest, [byte], rfl, ⟨rfl, rfl⟩, not_not.mpr rfl, hrest⟩

theorem accepts_readFlags : Accepts readFlags fun _ piece flags => piece = [flags] ∧ flags &&& RESERVED_FLAGS = 0 := by
  refine ((Accepts.field 1).bind fun flags => (Accepts.pure (flags.headD 0)).guarded
    (flags.headD 0 &&& RESERVED_FLAGS ≠ 0) (gzipHeaderFault .reservedFlags)).congr fun before piece flags => ⟨?_, ?_⟩
  · rintro ⟨_, _, _, rfl, ⟨hlength, rfl⟩, hflags, rfl, rfl⟩
    rename_i first
    obtain ⟨byte, rfl⟩ := List.length_eq_one_iff.mp hlength
    exact ⟨rfl, not_not.mp hflags⟩
  · rintro ⟨rfl, hflags⟩
    exact ⟨[flags], [], [flags], rfl, ⟨rfl, rfl⟩, not_not.mpr hflags, rfl, rfl⟩

/-- A header without its checksum: magic, method, flags, six bytes that say nothing here, and the fields that the flags
announce. -/
def HeaderFields (flags : UInt8) (fields : Bytes) : Prop :=
  ∃ fixed extra name comment, fields = [ID1, ID2, CM_DEFLATE, flags] ++ fixed ++ extra ++ name ++ comment ∧
    flags &&& RESERVED_FLAGS = 0 ∧ fixed.length = 6 ∧ Extra flags extra ∧ Text flags FNAME name ∧
    Text flags FCOMMENT comment

/-- A gzip header. -/
def IsHeader (checksum : Bytes → UInt32) (header : Bytes) : Prop :=
  ∃ flags fields crc, header = fields ++ crc ∧ HeaderFields flags fields ∧ HeaderCrc checksum flags fields crc

theorem accepts_magic : Accepts magic fun _ piece _ => piece = [ID1, ID2] := by
  refine (accepts_expect ID1 _ (accepts_expect ID2 _ (Accepts.pure ()))).congr fun before piece _ => ⟨?_, ?_⟩
  · rintro ⟨_, rfl, _, rfl, rfl, -⟩
    rfl
  · rintro rfl
    exact ⟨_, rfl, _, rfl, rfl, rfl⟩

theorem accepts_method : Accepts method fun _ piece _ => piece = [CM_DEFLATE] := by
  refine (accepts_expect CM_DEFLATE _ (Accepts.pure ())).congr fun before piece _ => ⟨?_, ?_⟩
  · rintro ⟨_, rfl, rfl, -⟩
    rfl
  · rintro rfl
    exact ⟨_, rfl, rfl, rfl⟩

theorem accepts_readHeader (checksum : Bytes → UInt32) {copyBuffer : Nat} (hcopy : 0 < copyBuffer) :
    Accepts (readHeader checksum copyBuffer) fun before piece _ => ∃ flags fields crc, piece = fields ++ crc ∧
      HeaderFields flags fields ∧ HeaderCrc checksum flags (before ++ fields) crc := by
  refine (accepts_magic.bind fun _ => accepts_method.bind fun _ => accepts_readFlags.bind fun flags =>
    (Accepts.field 4).bind fun _ => (Accepts.field 1).bind fun _ => (Accepts.field 1).bind fun _ =>
    (accepts_skipExtra flags hcopy).bind fun _ => (accepts_skipText flags FNAME).bind fun _ =>
    (accepts_skipText flags FCOMMENT).bind fun _ => accepts_checkHeaderCrc checksum flags).congr
    fun before piece _ => ⟨?_, ?_⟩
  · rintro ⟨_, _, _, rfl, rfl, _, _, _, rfl, rfl, _, _, flags, rfl, ⟨rfl, hflags⟩, mtime, _, _, rfl, ⟨hmtime, -⟩, xfl, _, _,
      rfl, ⟨hxfl, -⟩, os, _, _, rfl, ⟨hos, -⟩, extra, _, _, rfl, hextra, name, _, _, rfl, hname, comment, crc, _, rfl,
      hcomment, hcrc⟩
    refine ⟨flags, [ID1, ID2, CM_DEFLATE, flags] ++ (mtime ++ xfl ++ os) ++ extra ++ name ++ comment, crc, by simp,
      ⟨mtime ++ xfl ++ os, extra, name, comment, rfl, hflags, ?_, hextra, hname, hcomment⟩, ?_⟩
    · rw [List.length_append, List.length_append, hmtime, hxfl, hos]
    · simpa using hcrc
  · rintro ⟨flags, _, crc, rfl, ⟨fixed, extra, name, comment, rfl, hflags, hfixed, hextra, hname, hcomment⟩, hcrc⟩
    obtain ⟨mtime, xfl, os, rfl, hmtime, hxfl, hos⟩ : ∃ mtime xfl os, fixed = mtime ++ (xfl ++ os) ∧ mtime.length = 4 ∧
        xfl.length = 1 ∧ os.length = 1 := by
      refine ⟨fixed.take 4, (fixed.drop 4).take 1, (fixed.drop 4).drop 1, ?_, ?_, ?_, ?_⟩
      · rw [List.take_append_drop, List.take_append_drop]
      all_goals simp [hfixed]
    refine ⟨[ID1, ID2], [CM_DEFLATE] ++ ([flags] ++ (mtime ++ (xfl ++ (os ++ (extra ++ (name ++ (comment ++ crc))))))), (),
      by simp, rfl, [CM_DEFLATE], _, (), rfl, rfl, [flags], _, flags, rfl, ⟨rfl, hflags⟩, mtime, _, mtime, rfl, ⟨hmtime, rfl⟩,
      xfl, _, xfl, rfl, ⟨hxfl, rfl⟩, os, _, os, rfl, ⟨hos, rfl⟩, extra, _, (), rfl, hextra, name, _, (), rfl, hname, comment,
      crc, (), rfl, hcomment, ?_⟩
    simpa using hcrc

end HeaderReader

end DeployCore
