import Mathlib

/-! # UTF-8

Bytes of encoded characters, told apart where they are ASCII, and the strings that bytes decode to. -/

namespace Utf8
variable {c : Char} {b : UInt8} {m : List Char} {t u : List UInt8}

def encode (m : List Char) : List UInt8 :=
  m.flatMap String.utf8EncodeChar

theorem encode_cons : encode (c :: m) = String.utf8EncodeChar c ++ encode m := rfl

theorem encodeChar_ascii (h : c.toNat < 0x80) : String.utf8EncodeChar c = [UInt8.ofNat c.toNat] := by
  have hle : c.val.toNat ≤ 0x7F := Nat.le_of_lt_succ h
  rw [String.utf8EncodeChar, if_pos hle]
  rfl

theorem high_ofNat {n : Nat} (hlow : 0x80 ≤ n) (hhigh : n < 0x100) : 0x80 ≤ UInt8.ofNat n := by
  rw [UInt8.le_iff_toNat_le, UInt8.toNat_ofNat_of_lt' hhigh]
  exact hlow

theorem le_of_mem_encodeChar (h : 0x80 ≤ c.toNat) : ∀ b ∈ String.utf8EncodeChar c, 0x80 ≤ b := by
  have hv : ¬c.val.toNat ≤ 0x7F := Nat.not_le.mpr h
  rw [String.utf8EncodeChar, if_neg hv]
  intro b hb
  split_ifs at hb <;> simp only [List.mem_cons, List.not_mem_nil, or_false] at hb
  · rcases hb with rfl | rfl <;> exact high_ofNat (by omega) (by omega)
  · rcases hb with rfl | rfl | rfl <;> exact high_ofNat (by omega) (by omega)
  · rcases hb with rfl | rfl | rfl | rfl <;> exact high_ofNat (by omega) (by omega)

/-- An ASCII byte is a whole character. -/
theorem encode_eq_cons (hb : b < 0x80) (h : encode m = b :: t) :
    ∃ c m', m = c :: m' ∧ c.toNat = b.toNat ∧ encode m' = t := by
  rcases m with _ | ⟨c, m'⟩
  · cases h
  rw [encode_cons] at h
  rcases Nat.lt_or_ge c.toNat 0x80 with hlt | hge
  · rw [encodeChar_ascii hlt] at h
    obtain ⟨hbyte, htail⟩ := List.cons.inj h
    refine ⟨c, m', rfl, ?_, htail⟩
    rw [← hbyte, UInt8.toNat_ofNat_of_lt' (Nat.lt_trans hlt (by decide))]
  · obtain ⟨a, w, hcons⟩ := List.exists_cons_of_ne_nil (String.utf8EncodeChar_ne_nil (c := c))
    have hhigh := le_of_mem_encodeChar hge a (hcons ▸ List.mem_cons_self)
    rw [hcons] at h
    rw [(List.cons.inj h).1] at hhigh
    exact absurd hb (UInt8.not_lt.mpr hhigh)

theorem encode_eq_append (hu : ∀ b ∈ u, b < 0x80) (h : encode m = u ++ t) :
    ∃ m', encode m' = t ∧ m'.length ≤ m.length := by
  induction u generalizing m with
  | nil => exact ⟨m, h, Nat.le_refl _⟩
  | cons b u ih =>
    obtain ⟨c, m', rfl, -, hm'⟩ := encode_eq_cons (hu b List.mem_cons_self) h
    obtain ⟨m'', hm'', hle⟩ := ih (fun b hb => hu b (List.mem_cons_of_mem _ hb)) hm'
    exact ⟨m'', hm'', Nat.le_succ_of_le hle⟩

theorem encode_append (m m' : List Char) : encode (m ++ m') = encode m ++ encode m' :=
  List.flatMap_append

theorem exists_encode_of_ascii (hu : ∀ b ∈ u, b < 0x80) : ∃ m, encode m = u := by
  induction u with
  | nil => exact ⟨[], rfl⟩
  | cons b u ih =>
    obtain ⟨m, rfl⟩ := ih fun b hb => hu b (List.mem_cons_of_mem _ hb)
    have hb : b.toNat < 0x80 := UInt8.lt_iff_toNat_lt.mp (hu b List.mem_cons_self)
    have hvalid : b.toNat.isValidChar := .inl (Nat.lt_trans hb (by decide))
    have hchar : (Char.ofNatAux b.toNat hvalid).toNat = b.toNat := rfl
    refine ⟨Char.ofNatAux b.toNat hvalid :: m, ?_⟩
    rw [encode_cons, encodeChar_ascii (c := Char.ofNatAux b.toNat hvalid) hb, hchar, UInt8.ofNat_toNat, List.singleton_append]

theorem fromUTF8?_encode : String.fromUTF8? (encode m).toByteArray = some (String.ofList m) := by
  have hvalid : (encode m).toByteArray.IsValidUTF8 := .intro m rfl
  rw [String.fromUTF8?, dif_pos hvalid]
  rfl

theorem exists_of_fromUTF8? {s : String} (h : String.fromUTF8? t.toByteArray = some s) :
    ∃ m, t = encode m ∧ s = String.ofList m := by
  rw [String.fromUTF8?] at h
  split at h
  · next hvalid =>
    obtain ⟨m, hm⟩ := hvalid
    cases h
    refine ⟨m, List.toByteArray_inj.mp hm, ?_⟩
    rw [← String.toByteArray_inj]
    exact hm
  · cases h

end Utf8
