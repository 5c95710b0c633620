import DeployCore.Io
import DeployCore.Limits
import DeployCore.Lib.Writes

/-! # Bounded writers

`LimitWriter` and `BoundedVec`: writers that refuse the byte which would cross a limit before it is passed on or
stored. Pointers are 64 bits wide, so `usize` is `u64`; what the allocator and the inner writer do is arbitrary. -/

namespace DeployCore
open Writes

/-- The most bytes a slice or an allocation holds. -/
def ISIZE_MAX : Nat := 9223372036854775807

def MIN_GROWTH : Nat := 64

/-- A limit as one writer is held to it: the configured value a fault reports, and the bytes it may take. -/
structure Ceiling where
  resource : LimitResource
  limit : UInt64
  allowance : UInt64
  deriving DecidableEq

structure LimitFault where
  resource : LimitResource
  limit : UInt64
  deriving DecidableEq

/-- How a write fails. A panic is not an error a caller sees: it ends the operation. -/
inductive BoundedFault
  | limit (fault : LimitFault)
  | alloc
  | lengthOverflow
  | io (error : IoError)
  | panicked
  deriving DecidableEq

def Ceiling.fault (ceiling : Ceiling) : LimitFault :=
  ⟨ceiling.resource, ceiling.limit⟩

def remainingFrom : List Ceiling → Nat → Nat → Except LimitFault Nat
  | [], _, smallest => .ok smallest
  | ceiling :: ceilings, used, smallest =>
    let left := ceiling.allowance.toNat - used
    if left = 0 then .error ceiling.fault else remainingFrom ceilings used (min smallest left)

/-- The bytes left under the tightest ceiling once `used` are taken, or the fault of the first that is exhausted. -/
def remaining (ceilings : List Ceiling) (used : Nat) : Except LimitFault Nat :=
  remainingFrom ceilings used U64_MAX

/-! ### `LimitWriter` -/

structure LimitWriter (σ : Type) where
  inner : σ
  ceilings : List Ceiling
  passed : Nat

def LimitWriter.write {σ : Type} (inner : Writer σ UInt8 IoError) : Writer (LimitWriter σ) UInt8 BoundedFault :=
  fun writer buf =>
    if buf.isEmpty then (.ok 0, writer)
    else
      match remaining writer.ceilings writer.passed with
      | .error fault => (.error (.limit fault), writer)
      | .ok left =>
        let chunk := buf.take (min left buf.length)
        match inner writer.inner chunk with
        | (.error error, state) => (.error (.io error), { writer with inner := state })
        | (.ok n, state) =>
          let written := min n chunk.length
          if writer.passed + written ≤ U64_MAX then
            (.ok written, { writer with inner := state, passed := writer.passed + written })
          else (.error .lengthOverflow, { writer with inner := state })

/-! ### `BoundedVec` -/

/-- What answers a reservation of so many bytes behind so many others: the capacity there is then, if any. -/
structure Allocator (σ : Type) where
  reserve : σ → Nat → Nat → Option Nat × σ
  enough : ∀ {s len additional capacity}, (reserve s len additional).1 = some capacity →
    len + additional ≤ capacity ∧ capacity ≤ ISIZE_MAX

/-- The buffer, with the reservations asked for so far: the length each was asked at and the bytes beyond it. -/
structure BoundedVec where
  bytes : Bytes
  capacity : Nat
  ceilings : List Ceiling
  reservations : List (Nat × Nat)

def BoundedVec.new (ceilings : List Ceiling) : BoundedVec :=
  ⟨[], 0, ceilings, []⟩

section BoundedVec
variable {σ : Type} (allocator : Allocator σ)

/-- Room for `needed` more bytes, `cap` being the most the buffer may ever hold. -/
def BoundedVec.grow (vec : BoundedVec) (s : σ) (needed cap : Nat) : Except BoundedFault Unit × BoundedVec × σ :=
  let len := vec.bytes.length
  let required := len + needed
  if U64_MAX < required then (.error .alloc, vec, s)
  else if required ≤ vec.capacity then (.ok (), vec, s)
  else
    let doubled := max (min (len * 2) U64_MAX) MIN_GROWTH
    let target := max (min doubled cap) required
    let additional := target - len
    let asked := { vec with reservations := (len, additional) :: vec.reservations }
    match allocator.reserve s len additional with
    | (none, s) => (.error .alloc, asked, s)
    | (some capacity, s) => (.ok (), { asked with capacity := capacity }, s)

/-- The sum `used + left` panics where it overflows in a build that checks, and wraps in one that does not. -/
def BoundedVec.write (overflowChecks : Bool) : Writer (BoundedVec × σ) UInt8 BoundedFault :=
  fun (vec, s) buf =>
    if buf.isEmpty then (.ok 0, vec, s)
    else
      let used := vec.bytes.length
      match remaining vec.ceilings used with
      | .error fault => (.error (.limit fault), vec, s)
      | .ok left =>
        let chunk := buf.take (min left buf.length)
        if overflowChecks && decide (U64_MAX < used + left) then (.error .panicked, vec, s)
        else
          match vec.grow allocator s chunk.length ((used + left) % (U64_MAX + 1)) with
          | (.error fault, vec, s) => (.error fault, vec, s)
          | (.ok (), vec, s) => (.ok chunk.length, { vec with bytes := vec.bytes ++ chunk }, s)

end BoundedVec

/-! ### What the writers are for -/

/-- So many bytes are within every allowance. -/
def Fits (ceilings : List Ceiling) (n : Nat) : Prop :=
  ∀ ceiling ∈ ceilings, n ≤ ceiling.allowance.toNat

/-- The first ceiling of the list that `used` bytes leave nothing of. -/
def FirstExhausted (ceilings : List Ceiling) (used : Nat) (ceiling : Ceiling) : Prop :=
  ∃ before after, ceilings = before ++ ceiling :: after ∧ ceiling.allowance.toNat ≤ used ∧
    ∀ other ∈ before, used < other.allowance.toNat

/-- A slice. -/
def Slice (buf : Bytes) : Prop :=
  buf.length ≤ ISIZE_MAX

/-- What a write does to what is kept: `written` are all the bytes written so far. -/
inductive Keeps (ceilings : List Ceiling) (refused : Prop) (kept buf : Bytes) : Except BoundedFault Nat → Bytes → Prop
  | nothing (h : buf = []) : Keeps ceilings refused kept buf (.ok 0) kept
  | exhausted {ceiling : Ceiling} (hne : buf ≠ []) (h : FirstExhausted ceilings kept.length ceiling) :
      Keeps ceilings refused kept buf (.error (.limit ceiling.fault)) kept
  | stored {chunk : Bytes} (hne : chunk ≠ []) (h : Longest (Fits ceilings) 0 (kept ++ buf) (kept ++ chunk)) :
      Keeps ceilings refused kept buf (.ok chunk.length) (kept ++ chunk)
  | refused (hne : buf ≠ []) (hroom : Fits ceilings (kept.length + 1)) (h : refused) :
      Keeps ceilings refused kept buf (.error .alloc) kept

/-- Whatever is fed to the buffer in whatever pieces, and whatever the allocator refuses, it holds what was written so
far, within every allowance; it never asked for more; and the next write keeps the longest front of everything
written that fits, or is refused in the name of the first exhausted ceiling. -/
def VecKeeps (overflowChecks : Bool) (ceilings : List Ceiling) : Prop :=
  ∀ (σ : Type) (allocator : Allocator σ) (start : σ) (text : Bytes) (vec : BoundedVec) (s : σ) (rest : Bytes),
    Feeds (BoundedVec.write allocator overflowChecks) Slice (.new ceilings, start) text (vec, s) rest →
      text = vec.bytes ++ rest ∧ Fits ceilings vec.bytes.length ∧
      (∀ reservation ∈ vec.reservations, Fits ceilings (reservation.1 + reservation.2)) ∧
      ∀ buf answer after s', buf <+: rest → Slice buf →
        BoundedVec.write allocator overflowChecks (vec, s) buf = (answer, after, s') →
          Keeps ceilings (∃ additional, (allocator.reserve s vec.bytes.length additional).1 = none) vec.bytes buf answer
            after.bytes

/-- What the inner writer makes of a chunk is what the write does. -/
def LimitWriter.pass {σ : Type} (inner : Writer σ UInt8 IoError) (writer : LimitWriter σ) (chunk : Bytes) :
    Except BoundedFault Nat × LimitWriter σ :=
  match inner writer.inner chunk with
  | (.error error, state) => (.error (.io error), { writer with inner := state })
  | (.ok n, state) =>
    (.ok (min n chunk.length), { writer with inner := state, passed := writer.passed + min n chunk.length })

/-- What a write does: the inner writer sees a chunk of what is to be written, or the write is refused without it. -/
inductive Passes {σ : Type} (inner : Writer σ UInt8 IoError) (ceilings : List Ceiling) (writer : LimitWriter σ)
    (before buf : Bytes) : Except BoundedFault Nat × LimitWriter σ → Prop
  | nothing (h : buf = []) : Passes inner ceilings writer before buf (.ok 0, writer)
  | exhausted {ceiling : Ceiling} (hne : buf ≠ []) (h : FirstExhausted ceilings writer.passed ceiling) :
      Passes inner ceilings writer before buf (.error (.limit ceiling.fault), writer)
  | passed {chunk : Bytes} (hne : chunk ≠ []) (h : Longest (Fits ceilings) 0 (before ++ buf) (before ++ chunk)) :
      Passes inner ceilings writer before buf (writer.pass inner chunk)

/-- Whatever is fed to the writer in whatever pieces, and whatever the inner writer takes of it or fails with, it has
passed on what was written so far, within every allowance; and of the next write the inner writer sees the longest
front of everything written that fits, or nothing where a ceiling is exhausted, the first of which is named. -/
def WriterPasses (ceilings : List Ceiling) : Prop :=
  ∀ (σ : Type) (inner : Writer σ UInt8 IoError) (start : σ) (text : Bytes) (writer : LimitWriter σ) (rest : Bytes),
    Feeds (LimitWriter.write inner) Slice ⟨start, ceilings, 0⟩ text writer rest →
      ∃ before, text = before ++ rest ∧ before.length = writer.passed ∧ Fits ceilings writer.passed ∧
        ∀ buf, buf <+: rest → Slice buf → Passes inner ceilings writer before buf (writer.write inner buf)

/-! ### What is left -/

section Remaining
variable {ceilings : List Ceiling} {used smallest left n : Nat} {fault : LimitFault}

theorem Fits.mono {m : Nat} (h : Fits ceilings n) (hle : m ≤ n) : Fits ceilings m :=
  fun ceiling hmem => hle.trans (h ceiling hmem)

theorem fits_zero : Fits ceilings 0 :=
  fun _ _ => Nat.zero_le _

theorem fits_cons {ceiling : Ceiling} : Fits (ceiling :: ceilings) n ↔ n ≤ ceiling.allowance.toNat ∧ Fits ceilings n :=
  List.forall_mem_cons

theorem remainingFrom_ok (h : remainingFrom ceilings used smallest = .ok left) :
    Fits ceilings (used + 1) ∧ ∀ n, n ≤ left ↔ n ≤ smallest ∧ (n = 0 ∨ Fits ceilings (used + n)) := by
  induction ceilings generalizing smallest with
  | nil =>
    cases h
    exact ⟨nofun, fun n => ⟨fun hle => ⟨hle, .inr nofun⟩, And.left⟩⟩
  | cons ceiling ceilings ih =>
    unfold remainingFrom at h
    dsimp only at h
    split at h
    · cases h
    next hleft =>
    obtain ⟨hroom, hiff⟩ := ih h
    refine ⟨fits_cons.mpr ⟨by omega, hroom⟩, fun n => ?_⟩
    rw [hiff, fits_cons, Nat.le_min]
    constructor
    · rintro ⟨⟨hsmallest, hle⟩, hfits⟩
      exact ⟨hsmallest, hfits.imp_right fun hfits => ⟨by omega, hfits⟩⟩
    · rintro ⟨hsmallest, hfits⟩
      rcases hfits with rfl | ⟨hle, hfits⟩
      · exact ⟨⟨hsmallest, Nat.zero_le _⟩, .inl rfl⟩
      · exact ⟨⟨hsmallest, by omega⟩, .inr hfits⟩

theorem remainingFrom_error (h : remainingFrom ceilings used smallest = .error fault) :
    ∃ ceiling, FirstExhausted ceilings used ceiling ∧ fault = ceiling.fault := by
  induction ceilings generalizing smallest with
  | nil => cases h
  | cons ceiling ceilings ih =>
    unfold remainingFrom at h
    dsimp only at h
    split at h
    next hleft =>
      cases h
      exact ⟨ceiling, ⟨[], ceilings, rfl, by omega, nofun⟩, rfl⟩
    next hleft =>
      obtain ⟨exhausted, ⟨before, after, rfl, hle, hbefore⟩, hfault⟩ := ih h
      exact ⟨exhausted, ⟨ceiling :: before, after, rfl, hle, List.forall_mem_cons.mpr ⟨by omega, hbefore⟩⟩, hfault⟩

/-- What the tightest ceiling leaves. -/
structure Left (ceilings : List Ceiling) (used left : Nat) : Prop where
  pos : 0 < left
  room : Fits ceilings (used + 1)
  le_max : left ≤ U64_MAX
  iff_fits : ∀ n, 0 < n → n ≤ U64_MAX → (Fits ceilings (used + n) ↔ n ≤ left)

theorem remaining_ok (h : remaining ceilings used = .ok left) : Left ceilings used left := by
  obtain ⟨hroom, hiff⟩ := remainingFrom_ok h
  refine ⟨(hiff 1).mpr ⟨by decide, .inr hroom⟩, hroom, ((hiff left).mp le_rfl).1, fun n hpos hmax => ?_⟩
  rw [hiff, or_iff_right (Nat.ne_of_gt hpos), and_iff_right hmax]

/-- The chunk that is taken of a slice is the longest front that fits. -/
theorem Left.longest {buf kept : Bytes} (h : Left ceilings kept.length left) (hfits : Fits ceilings kept.length)
    (hbuf : Slice buf) : Longest (Fits ceilings) 0 (kept ++ buf) (kept ++ buf.take (min left buf.length)) := by
  refine Longest.append ?_
  rw [Nat.zero_add, ← List.take_take, List.take_length]
  refine Longest.take fun n hn => ?_
  rcases Nat.eq_zero_or_pos n with rfl | hpos
  · exact ⟨fun _ => Nat.zero_le _, fun _ => hfits⟩
  · exact h.iff_fits n hpos (hn.trans (hbuf.trans (by decide)))

theorem Left.take_ne_nil {buf : Bytes} (h : Left ceilings used left) (hne : buf ≠ []) : buf.take (min left buf.length) ≠ [] := by
  rw [← List.length_pos_iff, List.length_take]
  have := List.length_pos_iff.mpr hne
  have := h.pos
  omega

/-- What a ceiling leaves, with what is used, is within a `u64`. -/
theorem Left.sum_le (h : Left ceilings used left) (hne : ceilings ≠ []) : used + left ≤ U64_MAX := by
  obtain ⟨ceiling, rest, rfl⟩ := List.exists_cons_of_ne_nil hne
  have hfits := (h.iff_fits left h.pos h.le_max).mpr le_rfl ceiling List.mem_cons_self
  have := ceiling.allowance.toNat_lt
  unfold U64_MAX
  omega

end Remaining

/-! ### The buffer -/

namespace BoundedVec
variable {σ : Type} {allocator : Allocator σ} {ceilings : List Ceiling} {vec : BoundedVec} {s : σ} {overflowChecks : Bool}

/-- What holds of the buffer between writes. -/
structure Held (ceilings : List Ceiling) (vec : BoundedVec) : Prop where
  same : vec.ceilings = ceilings
  fits : Fits ceilings vec.bytes.length
  stored : vec.bytes.length ≤ vec.capacity
  capacity_le : vec.capacity ≤ ISIZE_MAX
  asked : ∀ reservation ∈ vec.reservations, Fits ceilings (reservation.1 + reservation.2)

theorem held_new : (new ceilings).Held ceilings :=
  ⟨rfl, fits_zero, le_rfl, Nat.zero_le _, nofun⟩

/-- Growing changes no byte, asks for no more than `cap`, and fails only where the allocator does. -/
theorem grow_spec {needed cap : Nat} {answer : Except BoundedFault Unit} {after : BoundedVec} {s' : σ}
    (hgrow : vec.grow allocator s needed cap = (answer, after, s')) (h : vec.Held ceilings)
    (hneeded : vec.bytes.length + needed ≤ U64_MAX) (hcap : Fits ceilings (max cap (vec.bytes.length + needed))) :
    after.Held ceilings ∧ after.bytes = vec.bytes ∧
      (answer = .ok () ∧ vec.bytes.length + needed ≤ after.capacity ∨
        answer = .error .alloc ∧ ∃ additional, (allocator.reserve s vec.bytes.length additional).1 = none) := by
  unfold grow at hgrow
  dsimp only at hgrow
  rw [if_neg (Nat.not_lt.mpr hneeded)] at hgrow
  split at hgrow
  next hroom =>
    cases hgrow
    exact ⟨h, rfl, .inl ⟨rfl, hroom⟩⟩
  next =>
    obtain ⟨target, htarget⟩ : ∃ target, target =
      max (min (max (min (vec.bytes.length * 2) U64_MAX) MIN_GROWTH) cap) (vec.bytes.length + needed) := ⟨_, rfl⟩
    rw [← htarget] at hgrow
    have hrequired : vec.bytes.length + needed ≤ target := htarget ▸ Nat.le_max_right _ _
    have hmost : target ≤ max cap (vec.bytes.length + needed) := htarget ▸ max_le_max (min_le_right _ _) le_rfl
    have hle : vec.bytes.length ≤ target := (Nat.le_add_right _ _).trans hrequired
    have hasked : ∀ reservation ∈ (vec.bytes.length, target - vec.bytes.length) :: vec.reservations,
        Fits ceilings (reservation.1 + reservation.2) := by
      refine List.forall_mem_cons.mpr ⟨?_, h.asked⟩
      rw [Nat.add_sub_cancel' hle]
      exact hcap.mono hmost
    rcases hreserve : allocator.reserve s vec.bytes.length (target - vec.bytes.length) with ⟨_ | capacity, s''⟩
    · rw [hreserve] at hgrow
      cases hgrow
      exact ⟨⟨h.same, h.fits, h.stored, h.capacity_le, hasked⟩, rfl, .inr ⟨rfl, _, by rw [hreserve]⟩⟩
    · rw [hreserve] at hgrow
      cases hgrow
      obtain ⟨henough, hmax⟩ := allocator.enough (congrArg Prod.fst hreserve)
      rw [Nat.add_sub_cancel' hle] at henough
      exact ⟨⟨h.same, h.fits, hle.trans henough, hmax, hasked⟩, rfl, .inl ⟨rfl, hrequired.trans henough⟩⟩

/-- One write keeps the longest front that fits, unless the sum it computes overflows: it does so only without a
ceiling. -/
theorem write_keeps {buf : Bytes} {answer : Except BoundedFault Nat} {after : BoundedVec} {s' : σ}
    (hwrite : write allocator overflowChecks (vec, s) buf = (answer, after, s')) (h : vec.Held ceilings) (hbuf : Slice buf)
    (hsum : ceilings ≠ [] ∨ overflowChecks = false) :
    after.Held ceilings ∧
      Keeps ceilings (∃ additional, (allocator.reserve s vec.bytes.length additional).1 = none) vec.bytes buf answer
        after.bytes := by
  unfold write at hwrite
  dsimp only at hwrite
  split at hwrite
  next hempty =>
    cases hwrite
    exact ⟨h, .nothing (List.isEmpty_iff.mp hempty)⟩
  next hempty =>
  have hne : buf ≠ [] := fun hnil => hempty (List.isEmpty_iff.mpr hnil)
  rw [h.same] at hwrite
  rcases hremaining : remaining ceilings vec.bytes.length with fault | left
  · rw [hremaining] at hwrite
    cases hwrite
    obtain ⟨ceiling, hfirst, rfl⟩ := remainingFrom_error hremaining
    exact ⟨h, .exhausted hne hfirst⟩
  rw [hremaining] at hwrite
  have hleft := remaining_ok hremaining
  have hlongest := hleft.longest h.fits hbuf
  have hchunk := hleft.take_ne_nil hne
  have hchunkLen : (buf.take (min left buf.length)).length ≤ left :=
    (List.length_take_le _ _).trans (Nat.min_le_left _ _)
  have hslice : (buf.take (min left buf.length)).length ≤ ISIZE_MAX := (List.length_take_le' _ _).trans hbuf
  dsimp only at hwrite
  generalize buf.take (min left buf.length) = chunk at hwrite hlongest hchunk hchunkLen hslice
  have hno : ¬(overflowChecks && decide (U64_MAX < vec.bytes.length + left)) = true := by
    rw [Bool.and_eq_true, decide_eq_true_eq]
    rintro ⟨hchecks, hover⟩
    rcases hsum with hsum | hsum
    · exact absurd (hleft.sum_le hsum) (Nat.not_le.mpr hover)
    · exact Bool.false_ne_true (hsum.symm.trans hchecks)
  rw [if_neg hno] at hwrite
  have hcap : Fits ceilings (max ((vec.bytes.length + left) % (U64_MAX + 1)) (vec.bytes.length + chunk.length)) :=
    ((hleft.iff_fits left hleft.pos hleft.le_max).mpr le_rfl).mono
      (max_le (Nat.mod_le _ _) (Nat.add_le_add_left hchunkLen _))
  have hneeded : vec.bytes.length + chunk.length ≤ U64_MAX :=
    (Nat.add_le_add (h.stored.trans h.capacity_le) hslice).trans (by decide)
  rcases hgrow : vec.grow allocator s chunk.length ((vec.bytes.length + left) % (U64_MAX + 1)) with ⟨grown, after', s''⟩
  rw [hgrow] at hwrite
  obtain ⟨hheld, hbytes, ⟨rfl, hroom⟩ | ⟨rfl, hrefused⟩⟩ := grow_spec hgrow h hneeded hcap
  · cases hwrite
    rw [hbytes]
    refine ⟨⟨hheld.same, ?_, ?_, hheld.capacity_le, hheld.asked⟩, .stored hchunk hlongest⟩
    · simpa using hlongest.room
    · rw [List.length_append]
      exact hroom
  · cases hwrite
    rw [hbytes]
    exact ⟨hheld, .refused hne hleft.room hrefused⟩

/-- What a write kept is what it says it took of the slice. -/
theorem taken_of_keeps {refused : Prop} {kept buf rest kept' : Bytes} {n : Nat}
    (h : Keeps ceilings refused kept buf (.ok n) kept') (hfront : buf <+: rest) : kept' ++ rest.drop n = kept ++ rest := by
  rcases h with h | _ | ⟨-, hlongest⟩
  · rfl
  · obtain ⟨tail, rfl⟩ := ((List.prefix_append_right_inj _).mp hlongest.front).trans hfront
    simp

theorem kept_of_keeps {refused : Prop} {kept buf kept' : Bytes} {fault : BoundedFault}
    (h : Keeps ceilings refused kept buf (.error fault) kept') : kept' = kept := by
  cases h <;> rfl

theorem vecKeeps (hsum : ceilings ≠ [] ∨ overflowChecks = false) : VecKeeps overflowChecks ceilings := by
  intro σ allocator start text vec s rest hfeeds
  have hinv : text = vec.bytes ++ rest ∧ vec.Held ceilings := hfeeds.invariant
    (fun state rest => text = state.1.bytes ++ rest ∧ state.1.Held ceilings) ⟨rfl, held_new⟩
    (fun _ _ _ _ _ ⟨htext, hheld⟩ hfront hslice hwrite =>
      have hkept := write_keeps hwrite hheld hslice hsum
      ⟨htext.trans (taken_of_keeps hkept.2 hfront).symm, hkept.1⟩)
    (fun _ _ _ _ _ ⟨htext, hheld⟩ _ hslice hwrite =>
      have hkept := write_keeps hwrite hheld hslice hsum
      ⟨kept_of_keeps hkept.2 ▸ htext, hkept.1⟩)
  exact ⟨hinv.1, hinv.2.fits, hinv.2.asked, fun _ _ _ _ _ hslice hwrite => (write_keeps hwrite hinv.2 hslice hsum).2⟩

end BoundedVec

/-! ### The passing writer -/

namespace LimitWriter
variable {σ : Type} {inner : Writer σ UInt8 IoError} {ceilings : List Ceiling} {writer : LimitWriter σ}

/-- One write passes the longest front that fits, and counts what of it the inner writer takes. -/
theorem write_passes {before buf : Bytes} (hne : ceilings ≠ []) (hceilings : writer.ceilings = ceilings)
    (hbefore : before.length = writer.passed) (hfits : Fits ceilings writer.passed) (hbuf : Slice buf) :
    Passes inner ceilings writer before buf (writer.write inner buf) := by
  unfold write
  split
  next hempty => exact .nothing (List.isEmpty_iff.mp hempty)
  next hempty =>
  have hbufNe : buf ≠ [] := fun hnil => hempty (List.isEmpty_iff.mpr hnil)
  subst hceilings
  rcases hremaining : remaining writer.ceilings writer.passed with fault | left
  · obtain ⟨ceiling, hfirst, rfl⟩ := remainingFrom_error hremaining
    exact .exhausted hbufNe hfirst
  have hleft := remaining_ok hremaining
  have hlongest := (hbefore ▸ hleft).longest (hbefore ▸ hfits) hbuf
  have hchunk := hleft.take_ne_nil hbufNe
  have hchunkLen : (buf.take (min left buf.length)).length ≤ left :=
    (List.length_take_le _ _).trans (Nat.min_le_left _ _)
  have hsum := hleft.sum_le hne
  dsimp only
  generalize buf.take (min left buf.length) = chunk at hlongest hchunk hchunkLen ⊢
  have hpass : (match inner writer.inner chunk with
      | (.error error, state) => (.error (.io error), { writer with inner := state })
      | (.ok n, state) =>
        if writer.passed + min n chunk.length ≤ U64_MAX then
          (.ok (min n chunk.length), { writer with inner := state, passed := writer.passed + min n chunk.length })
        else (.error .lengthOverflow, { writer with inner := state })) = writer.pass inner chunk := by
    unfold pass
    rcases inner writer.inner chunk with ⟨error | n, state⟩
    · rfl
    · dsimp only
      rw [if_pos]
      have := Nat.min_le_right n chunk.length
      omega
  exact hpass ▸ .passed hchunk hlongest

/-- What one write leaves: what was passed on so far, and its count. -/
structure Passed (ceilings : List Ceiling) (text : Bytes) (writer : LimitWriter σ) (rest : Bytes) : Prop where
  same : writer.ceilings = ceilings
  fits : Fits ceilings writer.passed
  split : ∃ before, text = before ++ rest ∧ before.length = writer.passed

theorem passed_of_write {text rest buf : Bytes} {answer : Except BoundedFault Nat} {writer' : LimitWriter σ}
    (hwrite : writer.write inner buf = (answer, writer')) (hne : ceilings ≠ []) (h : Passed ceilings text writer rest)
    (hfront : buf <+: rest) (hbuf : Slice buf) :
    (∀ n, answer = .ok n → Passed ceilings text writer' (rest.drop n)) ∧
      ∀ fault, answer = .error fault → Passed ceilings text writer' rest := by
  obtain ⟨before, htext, hbefore⟩ := h.split
  have hpasses : Passes inner ceilings writer before buf (writer.write inner buf) :=
    write_passes hne h.same hbefore h.fits hbuf
  rw [hwrite] at hpasses
  generalize hanswer : (answer, writer') = both at hpasses
  rcases hpasses with h' | h' | ⟨hchunk, hlongest⟩
  · cases hanswer
    exact ⟨by rintro _ ⟨⟩; exact h, nofun⟩
  · cases hanswer
    exact ⟨nofun, fun _ _ => h⟩
  next chunk =>
  unfold pass at hanswer
  rcases hinner : inner writer.inner chunk with ⟨error | n, state⟩ <;> rw [hinner] at hanswer
  · cases hanswer
    exact ⟨nofun, fun _ _ => ⟨h.same, h.fits, h.split⟩⟩
  · cases hanswer
    refine ⟨?_, nofun⟩
    rintro _ ⟨⟩
    obtain ⟨tail, rfl⟩ := ((List.prefix_append_right_inj _).mp hlongest.front).trans hfront
    refine ⟨h.same, hlongest.room.mono ?_, before ++ chunk.take n, ?_, ?_⟩
    · rw [Nat.zero_add, List.length_append, hbefore]
      exact Nat.add_le_add_left (Nat.min_le_right _ _) _
    · have hcut : chunk.take n ++ (chunk ++ tail).drop (min n chunk.length) = chunk ++ tail := by
        rw [List.drop_append_of_le_length (Nat.min_le_right _ _), ← List.append_assoc, List.take_eq_take_min,
          List.take_append_drop]
      rw [htext, List.append_assoc, hcut]
    · rw [List.length_append, List.length_take, hbefore]

theorem writerPasses (hne : ceilings ≠ []) : WriterPasses ceilings := by
  intro σ inner start text writer rest hfeeds
  have hinv := hfeeds.invariant (Passed ceilings text) ⟨rfl, fits_zero, [], rfl, rfl⟩
    (fun _ _ _ _ _ h hfront hslice hwrite => (passed_of_write hwrite hne h hfront hslice).1 _ rfl)
    (fun _ _ _ _ _ h hfront hslice hwrite => (passed_of_write hwrite hne h hfront hslice).2 _ rfl)
  obtain ⟨before, htext, hbefore⟩ := hinv.split
  exact ⟨before, htext, hbefore, hinv.fits, fun _ _ hslice => write_passes hne hinv.same hbefore hinv.fits hslice⟩

/-- An inner writer that takes all it is given. -/
def takesAll : Writer Unit UInt8 IoError :=
  fun _ buf => (.ok buf.length, ())

theorem write_unbounded {passed : Nat} {buf : Bytes} (hne : buf ≠ []) (hbuf : Slice buf) :
    LimitWriter.write takesAll ⟨(), [], passed⟩ buf =
      if passed + buf.length ≤ U64_MAX then (.ok buf.length, ⟨(), [], passed + buf.length⟩)
      else (.error .lengthOverflow, ⟨(), [], passed⟩) := by
  have hempty : ¬buf.isEmpty = true := fun h => hne (List.isEmpty_iff.mp h)
  have hwhole : buf.take (min U64_MAX buf.length) = buf := by
    rw [Nat.min_eq_right (hbuf.trans (by decide)), List.take_length]
  unfold write
  rw [if_neg hempty]
  show (if passed + min (buf.take (min U64_MAX buf.length)).length (buf.take (min U64_MAX buf.length)).length ≤ U64_MAX
    then _ else _) = _
  rw [hwhole, Nat.min_self]

/-- Without a ceiling nothing bounds the count, and it overflows where a `u64` does. -/
theorem not_writerPasses : ¬WriterPasses [] := by
  intro h
  obtain ⟨half, hhalf⟩ : ∃ half : Bytes, half.length = ISIZE_MAX := ⟨List.replicate ISIZE_MAX 0, List.length_replicate⟩
  have hne : half ≠ [] := by
    rintro rfl
    exact absurd hhalf (by decide)
  have hwrote (passed : Nat) (hle : passed ≤ ISIZE_MAX) : LimitWriter.write takesAll ⟨(), [], passed⟩ half =
      (.ok half.length, ⟨(), [], passed + half.length⟩) := by
    rw [write_unbounded hne hhalf.le, if_pos]
    rw [hhalf]
    exact (Nat.add_le_add_right hle _).trans (by decide)
  have hfeeds : Feeds (LimitWriter.write takesAll) Slice ⟨(), [], 0⟩ (half ++ (half ++ [0, 0])) _ _ := .start
  have hfeeds := hfeeds.wrote (List.prefix_append _ _) hhalf.le (hwrote 0 (Nat.zero_le _))
  rw [List.drop_left] at hfeeds
  have hfeeds := hfeeds.wrote (List.prefix_append _ _) hhalf.le (hwrote _ (by rw [hhalf]; decide))
  rw [List.drop_left] at hfeeds
  obtain ⟨before, -, -, -, hnext⟩ := h Unit takesAll () _ _ _ hfeeds
  have hslice : Slice [0, 0] := show 2 ≤ ISIZE_MAX by decide
  have hpasses := hnext [0, 0] List.prefix_rfl hslice
  rw [write_unbounded (List.cons_ne_nil _ _) hslice, hhalf, if_neg (by decide)] at hpasses
  generalize hanswer : (Except.error BoundedFault.lengthOverflow, (⟨(), [], 0 + ISIZE_MAX + ISIZE_MAX⟩ : LimitWriter Unit)) = answer
    at hpasses
  rcases hpasses with h' | h' | h'
  all_goals exact absurd (congrArg Prod.fst hanswer) (by nofun)

end LimitWriter

/-- An allocator that refuses nothing an allocation can hold. -/
def generous : Allocator Unit where
  reserve _ len additional := (if len + additional ≤ ISIZE_MAX then some (len + additional) else none, ())
  enough h := by
    split at h
    next hle =>
      cases h
      exact ⟨le_rfl, hle⟩
    · cases h

/-- The second of two writes overflows the sum: without a ceiling the most there is, a whole `u64`, is always left. -/
theorem not_vecKeeps : ¬VecKeeps true [] := by
  intro h
  have hfirst : BoundedVec.write generous true (.new [], ()) [0] = (.ok 1, ⟨[0], 64, [], [(0, 64)]⟩, ()) := by
    simp [BoundedVec.write, BoundedVec.new, BoundedVec.grow, remaining, remainingFrom, generous, U64_MAX, ISIZE_MAX, MIN_GROWTH]
  have hsecond : BoundedVec.write generous true (⟨[0], 64, [], [(0, 64)]⟩, ()) [0] =
      (.error .panicked, ⟨[0], 64, [], [(0, 64)]⟩, ()) := by
    simp [BoundedVec.write, remaining, remainingFrom, U64_MAX]
  have hslice : Slice [0] := show 1 ≤ ISIZE_MAX by decide
  have hfeeds : Feeds (BoundedVec.write generous true) Slice (.new [], ()) [0, 0] _ _ :=
    Feeds.start.wrote ⟨[0], rfl⟩ hslice hfirst
  have hkeeps := (h Unit generous () _ _ _ _ hfeeds).2.2.2 [0] _ _ _ List.prefix_rfl hslice hsecond
  cases hkeeps

/-- Two bytes written one by one to a buffer without a ceiling: the second write panics. -/
theorem panics_without_ceiling :
    (BoundedVec.write generous true (BoundedVec.write generous true (.new [], ()) [97]).2 [98]).1 = .error .panicked ∧
      ¬(VecKeeps true [] ∧ WriterPasses []) := by
  refine ⟨?_, fun h => not_vecKeeps h.1⟩
  simp [BoundedVec.write, BoundedVec.new, BoundedVec.grow, remaining, remainingFrom, generous, U64_MAX, ISIZE_MAX, MIN_GROWTH]

/-- Both writers keep to every list of ceilings but the empty one. There the buffer alone does, where sums wrap. -/
theorem boundedWriters_iff (overflowChecks : Bool) (ceilings : List Ceiling) :
    (VecKeeps overflowChecks ceilings ∧ WriterPasses ceilings ↔ ceilings ≠ []) ∧
      (VecKeeps overflowChecks ceilings ↔ ceilings ≠ [] ∨ overflowChecks = false) := by
  constructor
  · constructor
    · rintro ⟨-, hpasses⟩ rfl
      exact LimitWriter.not_writerPasses hpasses
    · exact fun hne => ⟨BoundedVec.vecKeeps (.inl hne), LimitWriter.writerPasses hne⟩
  · constructor
    · intro hkeeps
      by_contra hnot
      rw [not_or, not_not, Bool.not_eq_false] at hnot
      obtain ⟨rfl, rfl⟩ := hnot
      exact not_vecKeeps hkeeps
    · exact BoundedVec.vecKeeps

end DeployCore
