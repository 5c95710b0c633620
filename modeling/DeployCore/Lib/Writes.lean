import Mathlib

/-! # Writers that take a part of what they are given

A write is answered with how many items it took, always from the front, or with why it took none. A text is fed
to a writer in pieces of any size, each write beginning where the last one stopped. -/

namespace Writes
variable {σ α ε : Type}

/-- `kept` is the longest front of `whole` that fits behind the `used` items already there. -/
structure Longest (fits : Nat → Prop) (used : Nat) (whole kept : List α) : Prop where
  front : kept <+: whole
  room : fits (used + kept.length)
  longest : ∀ other, other <+: whole → fits (used + other.length) → other.length ≤ kept.length

namespace Longest
variable {fits : Nat → Prop} {used left : Nat} {whole kept kept' before : List α}

theorem unique (h : Longest fits used whole kept) (h' : Longest fits used whole kept') : kept = kept' := by
  have hlen : kept.length = kept'.length := Nat.le_antisymm (h'.longest _ h.front h.room) (h.longest _ h'.front h'.room)
  exact (List.prefix_of_prefix_length_le h.front h'.front hlen.le).eq_of_length hlen

/-- With room for `left` more items, the longest front is that long, or the whole. -/
theorem take (h : ∀ n, n ≤ whole.length → (fits (used + n) ↔ n ≤ left)) : Longest fits used whole (whole.take left) where
  front := List.take_prefix _ _
  room := (h _ (List.length_take_le' _ _)).mpr (List.length_take_le _ _)
  longest other hother hfits := by
    have hleft := (h _ hother.length_le).mp hfits
    rw [List.length_take]
    exact Nat.le_min.mpr ⟨hleft, hother.length_le⟩

/-- Behind items that all fit, the longest front of the rest completes the longest front of the whole. -/
theorem append (h : Longest fits (used + before.length) whole kept) : Longest fits used (before ++ whole) (before ++ kept) where
  front := List.prefix_append_right_inj before |>.mpr h.front
  room := by
    rw [List.length_append, ← Nat.add_assoc]
    exact h.room
  longest other hother hfits := by
    rw [List.length_append]
    rcases Nat.le_total other.length before.length with hle | hle
    · exact hle.trans (Nat.le_add_right _ _)
    · obtain ⟨rest, rfl⟩ := List.prefix_of_prefix_length_le (List.prefix_append before whole) hother hle
      rw [List.length_append] at hfits ⊢
      rw [← Nat.add_assoc] at hfits
      exact Nat.add_le_add_left (h.longest rest ((List.prefix_append_right_inj before).mp hother) hfits) _

end Longest

/-- A write: how many of the items it is given it took, or why it took none. -/
abbrev Writer (σ α ε : Type) := σ → List α → Except ε Nat × σ

/-- The states a writer comes to while a text is fed to it from `start`, each write a `Piece` of what is still to be
written, and what is still to be written there. A write that fails may be tried again. -/
inductive Feeds (write : Writer σ α ε) (Piece : List α → Prop) (start : σ) (text : List α) : σ → List α → Prop
  | start : Feeds write Piece start text start text
  | wrote {s s' : σ} {rest piece : List α} {n : Nat} (h : Feeds write Piece start text s rest) (hfront : piece <+: rest)
      (hpiece : Piece piece) (hwrite : write s piece = (.ok n, s')) : Feeds write Piece start text s' (rest.drop n)
  | failed {s s' : σ} {rest piece : List α} {e : ε} (h : Feeds write Piece start text s rest) (hfront : piece <+: rest)
      (hpiece : Piece piece) (hwrite : write s piece = (.error e, s')) : Feeds write Piece start text s' rest

/-- What one write preserves, of the state and what is still to be written, holds throughout. -/
theorem Feeds.invariant {write : Writer σ α ε} {Piece : List α → Prop} {start s : σ} {text rest : List α}
    (h : Feeds write Piece start text s rest) (Inv : σ → List α → Prop) (hstart : Inv start text)
    (hwrote : ∀ s rest piece n s', Inv s rest → piece <+: rest → Piece piece → write s piece = (.ok n, s') →
      Inv s' (rest.drop n))
    (hfailed : ∀ s rest piece e s', Inv s rest → piece <+: rest → Piece piece → write s piece = (.error e, s') →
      Inv s' rest) : Inv s rest := by
  induction h with
  | start => exact hstart
  | wrote _ hfront hpiece hwrite ih => exact hwrote _ _ _ _ _ ih hfront hpiece hwrite
  | failed _ hfront hpiece hwrite ih => exact hfailed _ _ _ _ _ ih hfront hpiece hwrite

end Writes
