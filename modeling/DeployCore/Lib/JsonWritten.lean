import DeployCore.Lib.JsonGrammar
import DeployCore.Lib.JsonWrite

/-! # Compact JSON is JSON

What the compact writer makes of a value without floats is a JSON text, nested as deep as the value, in which an
object repeats a key only where the value does. -/

namespace Json
open JsonText

/-! ### Strings -/

theorem escapeByte_high {b : UInt8} (h : 0x80 ≤ b) : escapeByte b = [b] := by
  have hne (n : UInt8) (hn : n < 0x80) : b ≠ n := by
    rintro rfl
    exact absurd h (UInt8.not_le.mpr hn)
  have hlow : ¬b < 32 := UInt8.not_lt.mpr (UInt8.le_trans (by decide) h)
  simp [escapeByte, hne, hlow]

theorem flatMap_escapeByte_high {bs : List UInt8} (h : ∀ b ∈ bs, 0x80 ≤ b) : bs.flatMap escapeByte = bs := by
  induction bs with
  | nil => rfl
  | cons b bs ih =>
    rw [List.flatMap_cons, escapeByte_high (h b List.mem_cons_self), ih fun b' hb' => h b' (.tail _ hb')]
    rfl

/-- The escape of a control character names it. -/
theorem hex4_control {n : Nat} (h : n < 32) : Hex4 [48, 48, hexNumeral (.ofNat n / 16), hexNumeral (.ofNat n % 16)] n := by
  have hdigits : ∀ n < 32, hexDigit? (hexNumeral (.ofNat n / 16)) = some (n / 16) ∧
      hexDigit? (hexNumeral (.ofNat n % 16)) = some (n % 16) := by decide +kernel
  have hn : ((0 * 16 + 0) * 16 + n / 16) * 16 + n % 16 = n := by omega
  have hmk := @Hex4.mk 48 48 _ _ 0 0 _ _ rfl rfl (hdigits n h).1 (hdigits n h).2
  rwa [hn] at hmk

/-- A character of ASCII is written as itself or as an escape of it. -/
theorem content_ascii {c : Char} {w : List UInt8} {cs : List Char} (hc : c.toNat < 0x80) (hw : Content w cs) :
    Content (escapeByte (.ofNat c.toNat) ++ w) (c :: cs) := by
  have hchar (n : Nat) (hn : n < 0x80) (h : UInt8.ofNat c.toNat = .ofNat n) : c = .ofNat n := by
    have htoNat := congrArg UInt8.toNat h
    rw [UInt8.toNat_ofNat', UInt8.toNat_ofNat', Nat.mod_eq_of_lt (by omega), Nat.mod_eq_of_lt (by omega)] at htoNat
    rw [← htoNat, Char.ofNat_toNat]
  unfold escapeByte
  split_ifs with h₁ h₂ h₃ h₄ h₅ h₆ h₇ h₈
  · rw [hchar 34 (by decide) h₁]
    exact .escape (.short rfl) hw
  · rw [hchar 92 (by decide) h₂]
    exact .escape (.short rfl) hw
  · rw [hchar 8 (by decide) h₃]
    exact .escape (.short rfl) hw
  · rw [hchar 9 (by decide) h₄]
    exact .escape (.short rfl) hw
  · rw [hchar 10 (by decide) h₅]
    exact .escape (.short rfl) hw
  · rw [hchar 12 (by decide) h₆]
    exact .escape (.short rfl) hw
  · rw [hchar 13 (by decide) h₇]
    exact .escape (.short rfl) hw
  · have hlt : c.toNat < 32 := by
      have := UInt8.lt_iff_toNat_lt.mp h₈
      rw [UInt8.toNat_ofNat', Nat.mod_eq_of_lt (by omega)] at this
      exact this
    exact .escape (e := 117 :: _) (.unit (hex4_control hlt)) hw
  · rw [← Utf8.encodeChar_ascii hc]
    refine .plain ?_ hw
    have hlow : ¬c.toNat < 32 := fun hlt => h₈ (UInt8.lt_iff_toNat_lt.mpr (by
      rw [UInt8.toNat_ofNat', Nat.mod_eq_of_lt (by omega)]
      exact hlt))
    have hquote : c ≠ '"' := by rintro rfl; exact h₁ rfl
    have hbackslash : c ≠ '\\' := by rintro rfl; exact h₂ rfl
    simp [unescaped, hquote, hbackslash, Nat.not_lt.mp hlow]

theorem content_encode (cs : List Char) : Content ((Utf8.encode cs).flatMap escapeByte) cs := by
  induction cs with
  | nil => exact .nil
  | cons c cs ih =>
    rw [Utf8.encode_cons, List.flatMap_append]
    rcases Nat.lt_or_ge c.toNat 0x80 with hc | hc
    · rw [Utf8.encodeChar_ascii hc, List.flatMap_singleton]
      exact content_ascii hc ih
    · rw [flatMap_escapeByte_high (Utf8.le_of_mem_encodeChar hc)]
      refine .plain ?_ ih
      have hquote : c ≠ '"' := by rintro rfl; exact absurd hc (by decide)
      have hbackslash : c ≠ '\\' := by rintro rfl; exact absurd hc (by decide)
      simp [unescaped, hquote, hbackslash, Nat.le_trans (by decide : 0x20 ≤ 0x80) hc]

/-- Characters that may stand for themselves are written so. -/
theorem flatMap_escapeByte_unescaped {cs : List Char} (h : ∀ c ∈ cs, unescaped c = true) :
    (Utf8.encode cs).flatMap escapeByte = Utf8.encode cs := by
  induction cs with
  | nil => rfl
  | cons c cs ih =>
    have hc := h c List.mem_cons_self
    simp only [unescaped, Bool.and_eq_true, decide_eq_true_eq] at hc
    rw [Utf8.encode_cons, List.flatMap_append, ih fun d hd => h d (.tail _ hd)]
    rcases Nat.lt_or_ge c.toNat 0x80 with hlow | hhigh
    · have hbyte : (UInt8.ofNat c.toNat).toNat = c.toNat := by
        rw [UInt8.toNat_ofNat', Nat.mod_eq_of_lt (by omega)]
      have hne (b : UInt8) (hb : c.toNat ≠ b.toNat) : UInt8.ofNat c.toNat ≠ b := fun heq => hb (by rw [← hbyte, heq])
      have hchar (d : Char) (hd : c ≠ d) : c.toNat ≠ d.toNat := fun heq => hd (by
        rw [← Char.ofNat_toNat c, heq, Char.ofNat_toNat])
      have hcontrol : ¬UInt8.ofNat c.toNat < 32 := fun hlt => by
        have := UInt8.lt_iff_toNat_lt.mp hlt
        rw [hbyte] at this
        exact absurd hc.1.1 (Nat.not_le.mpr this)
      have hspecial (b : UInt8) (hb : b < 32) : UInt8.ofNat c.toNat ≠ b := fun heq => hcontrol (heq ▸ hb)
      rw [Utf8.encodeChar_ascii hlow, List.flatMap_singleton, escapeByte, if_neg (hne 34 (hchar '"' hc.1.2)),
        if_neg (hne 92 (hchar '\\' hc.2)), if_neg (hspecial 8 (by decide)), if_neg (hspecial 9 (by decide)),
        if_neg (hspecial 10 (by decide)), if_neg (hspecial 12 (by decide)), if_neg (hspecial 13 (by decide)),
        if_neg hcontrol]
    · rw [flatMap_escapeByte_high (Utf8.le_of_mem_encodeChar hhigh)]

theorem writeString_unescaped {s : String} (h : ∀ c ∈ s.toList, unescaped c = true) :
    writeString s = 34 :: Utf8.encode s.toList ++ [34] := by
  rw [writeString, flatMap_escapeByte_unescaped h]

theorem scalar_writeString (s : String) : Scalar (writeString s) :=
  .string (content_encode s.toList)

theorem key_writeString (s : String) : Key (writeString s ++ [58]) s := by
  have hkey := Key.mk ws_nil (content_encode s.toList) ws_nil
  rw [String.ofList_toList] at hkey
  simpa [writeString] using hkey

/-! ### Numbers -/

theorem whole_write (n : Nat) : Whole (Decimal.write n) := by
  have hdigits : AllDigits (Decimal.write n) := fun b hb => by
    obtain ⟨hlow, hhigh⟩ := Decimal.mem_write hb
    simp only [isDigit, Bool.and_eq_true, decide_eq_true_eq, UInt8.le_iff_toNat_le]
    exact ⟨hlow, hhigh⟩
  rcases Nat.eq_zero_or_pos n with rfl | hpos
  · exact .zero
  · have hhead := Decimal.head?_write (Nat.ne_of_gt hpos)
    rcases hw : Decimal.write n with _ | ⟨d, w⟩
    · exact absurd hw Decimal.write_ne_nil
    · rw [hw] at hhead hdigits
      exact .digits (hdigits d List.mem_cons_self) (fun h => hhead (congrArg some h)) fun b hb => hdigits b (.tail _ hb)

theorem number_write {n : Number} {float : UInt64 → List UInt8} (h : n.isInt = true) : JsonText.Number (n.write float) := by
  rcases n with n | n | bits
  · simpa [Number.write] using JsonText.Number.mk .absent (whole_write n.toNat) .absent .absent
  · simpa [Number.write] using JsonText.Number.mk .minus (whole_write n.natAbs) .absent .absent
  · cases h

/-! ### Values -/

mutual

/-- The document a value is written as. -/
def Value.toText : Value → Json.Text
  | .null => .null
  | .bool b => .bool b
  | .num n => .num n
  | .str s => .str s
  | .arr items => .arr (itemsText items)
  | .obj members => .obj (membersText members)

def itemsText : List Value → List Json.Text
  | [] => []
  | item :: items => item.toText :: itemsText items

def membersText : List (String × Value) → List (Option String × Json.Text)
  | [] => []
  | (key, value) :: members => (some key, value.toText) :: membersText members

end

mutual

/-- At most `room` containers are nested, and no object repeats a key. -/
def Value.fits : Value → Nat → Bool
  | .arr items, room => 0 < room && itemsFit items (room - 1)
  | .obj members, room => 0 < room && decide (members.map Prod.fst).Nodup && membersFit members (room - 1)
  | _, _ => true

def itemsFit : List Value → Nat → Bool
  | [], _ => true
  | item :: items, room => item.fits room && itemsFit items room

def membersFit : List (String × Value) → Nat → Bool
  | [], _ => true
  | (_, value) :: members, room => value.fits room && membersFit members room

end

section Values
variable {float : UInt64 → List UInt8}

mutual

theorem Value.text_write : ∀ {v : Value} {room : Nat}, v.integral = true → v.fits room = true →
    JsonText.Value true room (v.write float)
  | .null, _, _, _ => by
    rw [Value.write]
    exact .scalar (.literal (by decide))
  | .bool b, _, _, _ => by
    cases b <;> rw [Value.write] <;> exact .scalar (.literal (by decide))
  | .num n, _, hint, _ => by
    rw [Value.integral] at hint
    rw [Value.write]
    exact .scalar (.number (number_write hint))
  | .str s, _, _, _ => by
    rw [Value.write]
    exact .scalar (scalar_writeString s)
  | .arr items, room, hint, hfits => by
    rw [Value.integral] at hint
    rw [Value.fits, Bool.and_eq_true, decide_eq_true_eq] at hfits
    obtain ⟨room, rfl⟩ := Nat.exists_eq_succ_of_ne_zero (Nat.ne_of_gt hfits.1)
    rcases items with _ | ⟨item, items⟩
    · rw [Value.write]
      exact .emptyArray (s := []) ws_nil
    · have hfits := hfits.2
      rw [itemsFit, Bool.and_eq_true] at hfits
      rw [itemsIntegral, Bool.and_eq_true] at hint
      obtain ⟨w, hw, helements⟩ := elements_write (Value.text_write hint.1 hfits.1) hint.2 hfits.2
      rw [Value.write, hw]
      exact .array helements
  | .obj members, room, hint, hfits => by
    rw [Value.integral] at hint
    rw [Value.fits, Bool.and_eq_true, Bool.and_eq_true, decide_eq_true_eq, decide_eq_true_eq] at hfits
    obtain ⟨⟨hroom, hkeys⟩, hfits⟩ := hfits
    obtain ⟨room, rfl⟩ := Nat.exists_eq_succ_of_ne_zero (Nat.ne_of_gt hroom)
    rcases members with _ | ⟨⟨key, value⟩, members⟩
    · rw [Value.write]
      exact .emptyObject (s := []) ws_nil
    · rw [membersFit, Bool.and_eq_true] at hfits
      rw [membersIntegral, Bool.and_eq_true] at hint
      obtain ⟨w, hw, hmembers⟩ := members_write key (Value.text_write hint.1 hfits.1) hint.2 hfits.2
      rw [Value.write, hw]
      exact .object hmembers fun _ => hkeys

theorem elements_write : ∀ {items : List Value} {room : Nat} {v : List UInt8}, JsonText.Value true room v →
    itemsIntegral items = true → itemsFit items room = true →
    ∃ w, v ++ writeItems float items = w ++ [93] ∧ Elements true room w
  | [], _, v, hv, _, _ => by
    refine ⟨v, by rw [writeItems], ?_⟩
    simpa using Elements.last (s := []) (t := []) ws_nil hv ws_nil
  | item :: items, room, v, hv, hint, hfits => by
    rw [itemsFit, Bool.and_eq_true] at hfits
    rw [itemsIntegral, Bool.and_eq_true] at hint
    obtain ⟨w, hw, helements⟩ := elements_write (Value.text_write hint.1 hfits.1) hint.2 hfits.2
    refine ⟨v ++ 44 :: w, by rw [writeItems, hw]; simp, ?_⟩
    simpa using Elements.more (s := []) (t := []) ws_nil hv ws_nil helements

theorem members_write (key : String) : ∀ {members : List (String × Value)} {room : Nat} {v : List UInt8},
    JsonText.Value true room v → membersIntegral members = true → membersFit members room = true →
    ∃ w, writeString key ++ 58 :: (v ++ writeMembers float members) = w ++ [125] ∧
      JsonText.Members true room w (key :: members.map Prod.fst)
  | [], _, v, hv, _, _ => by
    refine ⟨writeString key ++ 58 :: v, by rw [writeMembers]; simp, ?_⟩
    simpa using JsonText.Members.last (s := []) (t := []) (key_writeString key) ws_nil hv ws_nil
  | (key', value) :: members, room, v, hv, hint, hfits => by
    rw [membersFit, Bool.and_eq_true] at hfits
    rw [membersIntegral, Bool.and_eq_true] at hint
    obtain ⟨w, hw, hmembers⟩ := members_write key' (Value.text_write hint.1 hfits.1) hint.2 hfits.2
    refine ⟨writeString key ++ 58 :: (v ++ 44 :: w), by rw [writeMembers, hw]; simp, ?_⟩
    simpa using JsonText.Members.more (s := []) (t := []) (key_writeString key) ws_nil hv
      ws_nil hmembers

end

end Values

end Json
