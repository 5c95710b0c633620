import DeployCore.Lib.BigEndian
import DeployCore.TarHeader

/-! # What the numeric fields of a tar header spell

`Spells` is what a numeric field means, by the two notations: octal digits between blanks, or two's complement behind
the marker bit. `parseNumeric` reads it where it is a `u64` and refuses every other field, and a block is accepted where
what its checksum field records is the sum of its bytes, unsigned or signed. -/

namespace DeployCore
open LittleEndian

/-- Spaces, octal digits, then NUL or space bytes to the end. -/
def IsOctal (field digits : Bytes) : Prop :=
  ∃ leading terminator, field = leading ++ digits ++ terminator ∧ (∀ byte ∈ leading, byte = SPACE) ∧
    (∀ byte ∈ digits, isOctalDigit byte = true) ∧ ∀ byte ∈ terminator, byte = NUL ∨ byte = SPACE

/-- The number that octal digits spell, the most significant first. -/
def octalValue (digits : Bytes) : Nat :=
  Nat.ofDigits 8 (digits.reverse.map fun digit => digit.toNat - 48)

/-- The number that a base-256 field spells: two's complement in the bits behind its marker. -/
def base256Value (field : Bytes) : Int :=
  (BitVec.ofNat (8 * field.length - 1) (BigEndian.value field)).toInt

/-- What a numeric field spells, in octal or, behind a marker, in base 256. An empty field spells nothing. -/
inductive Spells : Bytes → Int → Prop
  | octal {first rest digits} (h : IsOctal (first :: rest) digits) : Spells (first :: rest) (octalValue digits)
  | base256 {first rest} (hmarker : first &&& BASE256_MARKER ≠ 0) :
      Spells (first :: rest) (base256Value (first :: rest))

section Accumulate
variable {base value n : Nat} {digits : List Nat}

theorem le_horner (hbase : 0 < base) (value : Nat) (digits : List Nat) :
    value ≤ digits.foldl (fun n digit => n * base + digit) value := by
  induction digits generalizing value with
  | nil => exact le_rfl
  | cons digit digits ih =>
    have hmul := Nat.le_mul_of_pos_right value hbase
    have hrest := ih (value * base + digit)
    rw [List.foldl_cons]
    omega

/-- Only the number that the digits spell decides whether they overflow. -/
theorem accumulate_eq_some_iff (hbase : 0 < base) (hvalue : value ≤ U64_MAX) :
    accumulate base value digits = some n ↔
      digits.foldl (fun n digit => n * base + digit) value = n ∧ n ≤ U64_MAX := by
  induction digits generalizing value with
  | nil =>
    rw [accumulate, Option.some.injEq, List.foldl_nil]
    exact ⟨fun heq => ⟨heq, heq ▸ hvalue⟩, And.left⟩
  | cons digit digits ih =>
    rw [accumulate, List.foldl_cons]
    split
    next hnext => exact ih hnext
    next hnext =>
      have hrest := le_horner hbase (value * base + digit) digits
      simp only [reduceCtorEq, false_iff]
      omega

end Accumulate

/-! ### Octal -/

theorem octalValue_eq_foldl (digits : Bytes) :
    octalValue digits = (digits.map fun digit => digit.toNat - 48).foldl (fun n digit => n * 8 + digit) 0 := by
  rw [octalValue, List.map_reverse, Nat.ofDigits_eq_foldr, List.foldr_reverse]
  congr 1
  funext n digit
  simp only [Nat.cast_id]
  ring

theorem isOctalDigit_iff {byte : UInt8} : isOctalDigit byte = true ↔ 48 ≤ byte.toNat ∧ byte.toNat ≤ 55 := by
  rw [isOctalDigit, Bool.and_eq_true, decide_eq_true_eq, decide_eq_true_eq]
  exact Iff.rfl

theorem octalValue_lt {digits : Bytes} (h : ∀ byte ∈ digits, isOctalDigit byte = true) :
    octalValue digits < 8 ^ digits.length := by
  have hlt : ∀ x ∈ digits.reverse.map (fun digit => digit.toNat - 48), x < 8 := by
    intro x hx
    obtain ⟨byte, hbyte, rfl⟩ := List.mem_map.mp hx
    have hdigit := (isOctalDigit_iff.mp (h byte (List.mem_reverse.mp hbyte))).2
    omega
  have hvalue := Nat.ofDigits_lt_base_pow_length (by norm_num) hlt
  rwa [List.length_map, List.length_reverse] at hvalue

theorem not_isOctalDigit {byte : UInt8} (h : byte = NUL ∨ byte = SPACE) : isOctalDigit byte = false := by
  rcases h with rfl | rfl <;> rfl

theorem ne_space_of_isOctalDigit {byte : UInt8} (h : isOctalDigit byte = true) : byte ≠ SPACE := by
  rintro rfl
  cases h

theorem toNat_sub_zero {byte : UInt8} (h : isOctalDigit byte = true) : (byte - ZERO).toNat = byte.toNat - 48 :=
  UInt8.toNat_sub_of_le _ _ (isOctalDigit_iff.mp h).1

/-- The digits are what is behind the leading spaces, up to the first byte that is not one. -/
theorem isOctal_iff {field digits : Bytes} : IsOctal field digits ↔
    digits = (field.dropWhile (· == SPACE)).takeWhile isOctalDigit ∧
      (((field.dropWhile (· == SPACE)).dropWhile isOctalDigit).all fun byte => byte == NUL || byte == SPACE) = true := by
  constructor
  · rintro ⟨leading, terminator, rfl, hleading, hdigits, hterminator⟩
    have hbehind : ∃ behind, (leading ++ digits ++ terminator).dropWhile (· == SPACE) = digits ++ behind ∧
        ∀ byte ∈ behind, byte = NUL ∨ byte = SPACE := by
      rw [List.append_assoc, List.dropWhile_append_of_pos fun byte hbyte => beq_iff_eq.mpr (hleading byte hbyte)]
      rcases digits with _ | ⟨digit, digits⟩
      · exact ⟨terminator.dropWhile (· == SPACE), rfl, fun byte hbyte =>
          hterminator byte ((List.dropWhile_sublist _).subset hbyte)⟩
      · have hdigit := ne_space_of_isOctalDigit (hdigits digit List.mem_cons_self)
        refine ⟨terminator, ?_, hterminator⟩
        rw [List.cons_append, List.dropWhile_cons_of_neg (by simpa using hdigit)]
    obtain ⟨behind, hdrop, hblank⟩ := hbehind
    have htake : behind.takeWhile isOctalDigit = [] ∧ behind.dropWhile isOctalDigit = behind := by
      rcases behind with _ | ⟨byte, behind⟩
      · exact ⟨rfl, rfl⟩
      · have hbyte := not_isOctalDigit (hblank byte List.mem_cons_self)
        exact ⟨List.takeWhile_cons_of_neg (by simp [hbyte]), List.dropWhile_cons_of_neg (by simp [hbyte])⟩
    rw [hdrop, List.takeWhile_append_of_pos hdigits, List.dropWhile_append_of_pos hdigits, htake.1, htake.2,
      List.append_nil, List.all_eq_true]
    refine ⟨rfl, fun byte hbyte => ?_⟩
    simpa using hblank byte hbyte
  · rintro ⟨rfl, hblank⟩
    refine ⟨field.takeWhile (· == SPACE), (field.dropWhile (· == SPACE)).dropWhile isOctalDigit, ?_,
      fun byte hbyte => ?_, fun byte hbyte => List.mem_takeWhile_imp hbyte, fun byte hbyte => ?_⟩
    · rw [List.append_assoc, List.takeWhile_append_dropWhile, List.takeWhile_append_dropWhile]
    · simpa using List.mem_takeWhile_imp hbyte
    · simpa using List.all_eq_true.mp hblank byte hbyte

theorem IsOctal.octalValue_lt {field digits : Bytes} (h : IsOctal field digits) :
    octalValue digits < 8 ^ field.length := by
  obtain ⟨leading, terminator, rfl, -, hdigits, -⟩ := h
  have hlength : digits.length ≤ (leading ++ digits ++ terminator).length := by
    simp only [List.length_append]
    omega
  exact (DeployCore.octalValue_lt hdigits).trans_le (Nat.pow_le_pow_right (by norm_num) hlength)

theorem marker_of_lt {byte : UInt8} (h : byte.toNat < 128) : byte &&& BASE256_MARKER = 0 := by
  have hall : ∀ n < 128, UInt8.ofNat n &&& BASE256_MARKER = 0 := by decide +kernel
  have hbyte := hall byte.toNat h
  rwa [UInt8.ofNat_toNat] at hbyte

/-- No octal field has the marker of the other notation. -/
theorem IsOctal.marker {first : UInt8} {rest digits : Bytes} (h : IsOctal (first :: rest) digits) :
    first &&& BASE256_MARKER = 0 := by
  obtain ⟨leading, terminator, hfield, hleading, hdigits, hterminator⟩ := h
  have hmem : first ∈ leading ++ digits ++ terminator := hfield ▸ List.mem_cons_self
  apply marker_of_lt
  rcases List.mem_append.mp hmem with hmem | hmem
  · rcases List.mem_append.mp hmem with hmem | hmem
    · rw [hleading first hmem]
      decide
    · have hdigit := (isOctalDigit_iff.mp (hdigits first hmem)).2
      omega
  · rcases hterminator first hmem with rfl | rfl <;> decide

theorem IsOctal.unique {field digits digits' : Bytes} (h : IsOctal field digits) (h' : IsOctal field digits') :
    digits = digits' :=
  (isOctal_iff.mp h).1.trans (isOctal_iff.mp h').1.symm

/-- An octal field reads as the number that its digits spell, where this is a `u64`. -/
theorem parseOctal_eq_some_iff {field : Bytes} {n length : Nat} : parseOctal field = some (n, length) ↔
    ∃ digits, IsOctal field digits ∧ digits.length = length ∧ octalValue digits = n ∧ n ≤ U64_MAX := by
  have hmap : ∀ digits : Bytes, (∀ byte ∈ digits, isOctalDigit byte = true) →
      (digits.map fun digit => (digit - ZERO).toNat) = digits.map fun digit => digit.toNat - 48 :=
    fun digits hdigits => List.map_congr_left fun byte hbyte => toNat_sub_zero (hdigits byte hbyte)
  unfold parseOctal
  dsimp only
  rw [hmap _ fun byte hbyte => List.mem_takeWhile_imp hbyte]
  split
  next hblank =>
    simp only [Option.map_eq_some_iff, Prod.mk.injEq, accumulate_eq_some_iff (by norm_num : 0 < 8) (Nat.zero_le U64_MAX),
      ← octalValue_eq_foldl]
    constructor
    · rintro ⟨value, ⟨hvalue, hle⟩, rfl, hlength⟩
      exact ⟨_, isOctal_iff.mpr ⟨rfl, hblank⟩, hlength, hvalue, hle⟩
    · rintro ⟨digits, hoctal, hlength, hvalue, hle⟩
      obtain ⟨rfl, -⟩ := isOctal_iff.mp hoctal
      exact ⟨n, ⟨hvalue, hle⟩, rfl, hlength⟩
  next hblank =>
    simp only [reduceCtorEq, false_iff]
    rintro ⟨digits, hoctal, -⟩
    exact hblank (isOctal_iff.mp hoctal).2

/-! ### Base 256 -/

/-- A first byte with the marker: the sign is worth one bit more than the magnitude. -/
theorem toNat_mod_marker {byte : UInt8} (h : byte &&& BASE256_MARKER ≠ 0) :
    byte.toNat % 128 = (byte &&& BASE256_FIRST_MAGNITUDE).toNat + (if byte &&& BASE256_SIGN = 0 then 0 else 64) ∧
      (byte &&& BASE256_FIRST_MAGNITUDE).toNat < 64 := by
  have hall : ∀ n < 256, UInt8.ofNat n &&& BASE256_MARKER ≠ 0 →
      (UInt8.ofNat n).toNat % 128 = (UInt8.ofNat n &&& BASE256_FIRST_MAGNITUDE).toNat +
        (if UInt8.ofNat n &&& BASE256_SIGN = 0 then 0 else 64) ∧
      (UInt8.ofNat n &&& BASE256_FIRST_MAGNITUDE).toNat < 64 := by decide +kernel
  have hbyte := hall byte.toNat byte.toNat_lt
  rw [UInt8.ofNat_toNat] at hbyte
  exact hbyte h

theorem mod_marker {a p v : Nat} (hv : v < p) : (a * p + v) % (128 * p) = a % 128 * p + v := by
  have hlt : a % 128 < 128 := Nat.mod_lt _ (by norm_num)
  have hsplit : a * p + v = 128 * p * (a / 128) + (a % 128 * p + v) := by
    calc a * p + v = (128 * (a / 128) + a % 128) * p + v := by rw [Nat.div_add_mod]
      _ = _ := by ring
  have hsmall : a % 128 * p + v < 128 * p := by
    calc a % 128 * p + v < (a % 128 + 1) * p := by rw [Nat.add_mul]; omega
      _ ≤ 128 * p := Nat.mul_le_mul_right _ hlt
  rw [hsplit, Nat.mul_add_mod, Nat.mod_eq_of_lt hsmall]

/-- Behind the marker and the sign are the magnitude of the first byte and the other bytes. -/
theorem base256Value_cons {first : UInt8} {rest : Bytes} (hmarker : first &&& BASE256_MARKER ≠ 0) :
    base256Value (first :: rest) =
      (((first &&& BASE256_FIRST_MAGNITUDE).toNat * 256 ^ rest.length + BigEndian.value rest : Nat) : Int) -
        if first &&& BASE256_SIGN = 0 then 0 else ((64 * 256 ^ rest.length : Nat) : Int) := by
  obtain ⟨hmod, hmagnitude⟩ := toNat_mod_marker hmarker
  have hrest := BigEndian.value_lt rest
  have hwidth : 8 * (first :: rest).length - 1 = 8 * rest.length + 7 := by
    rw [List.length_cons]
    omega
  have hpow : 2 ^ (8 * rest.length + 7) = 128 * 256 ^ rest.length := by
    rw [pow_add, BigEndian.two_pow_mul]
    ring
  have htoNat : (BitVec.ofNat (8 * rest.length + 7) (BigEndian.value (first :: rest))).toNat =
      first.toNat % 128 * 256 ^ rest.length + BigEndian.value rest := by
    rw [BitVec.toNat_ofNat, hpow, BigEndian.value_cons, mod_marker hrest]
  have hscale : ((first &&& BASE256_FIRST_MAGNITUDE).toNat + 1) * 256 ^ rest.length ≤ 64 * 256 ^ rest.length :=
    Nat.mul_le_mul_right _ hmagnitude
  rw [Nat.add_mul, Nat.one_mul] at hscale
  rw [base256Value, hwidth, BitVec.toInt_eq_toNat_cond, htoNat, hpow, hmod]
  by_cases hsign : first &&& BASE256_SIGN = 0
  · rw [if_pos hsign, if_pos hsign, Nat.add_zero, if_pos (by omega), sub_zero]
  · rw [if_neg hsign, if_neg hsign, Nat.add_mul, if_neg (by omega)]
    push_cast
    ring

theorem base256Value_neg {first : UInt8} (rest : Bytes) (hmarker : first &&& BASE256_MARKER ≠ 0)
    (hsign : first &&& BASE256_SIGN ≠ 0) : base256Value (first :: rest) < 0 := by
  have hmagnitude := (toNat_mod_marker hmarker).2
  have hrest := BigEndian.value_lt rest
  have hscale : ((first &&& BASE256_FIRST_MAGNITUDE).toNat + 1) * 256 ^ rest.length ≤ 64 * 256 ^ rest.length :=
    Nat.mul_le_mul_right _ hmagnitude
  rw [Nat.add_mul, Nat.one_mul] at hscale
  rw [base256Value_cons hmarker, if_neg hsign]
  omega

theorem foldl_eq_value {start : Nat} {rest : Bytes} :
    (rest.map UInt8.toNat).foldl (fun n digit => n * 256 + digit) start =
      start * 256 ^ rest.length + BigEndian.value rest := by
  induction rest generalizing start with
  | nil => simp [BigEndian.value]
  | cons byte rest ih =>
    rw [List.map_cons, List.foldl_cons, ih, BigEndian.value_cons, List.length_cons, pow_succ]
    ring

/-! ### Numeric fields -/

theorem Spells.octal_of_marker {first : UInt8} {rest : Bytes} {v : Int} (h : Spells (first :: rest) v)
    (hmarker : first &&& BASE256_MARKER = 0) : ∃ digits, IsOctal (first :: rest) digits ∧ v = octalValue digits := by
  cases h with
  | octal hoctal => exact ⟨_, hoctal, rfl⟩
  | base256 hmarker' => exact absurd hmarker hmarker'

/-- A field spells one number. -/
theorem Spells.unique {field : Bytes} {v v' : Int} (h : Spells field v) (h' : Spells field v') : v = v' := by
  cases h with
  | octal hoctal =>
    cases h' with
    | octal hoctal' => rw [hoctal.unique hoctal']
    | base256 hmarker => exact absurd hoctal.marker hmarker
  | base256 hmarker =>
    cases h' with
    | octal hoctal => exact absurd hoctal.marker hmarker
    | base256 _ => rfl

section Cases
variable {first : UInt8} {rest : Bytes} {which : TarField} {n : Nat}

theorem parseNumeric_octal (hmarker : first &&& BASE256_MARKER = 0) :
    parseNumeric (first :: rest) which = .ok n ↔ ∃ length, parseOctal (first :: rest) = some (n, length) := by
  simp only [parseNumeric, if_pos hmarker]
  rcases parseOctal (first :: rest) with _ | ⟨value, length⟩ <;> simp

theorem parseNumeric_base256 (hmarker : first &&& BASE256_MARKER ≠ 0) (hsign : first &&& BASE256_SIGN = 0) :
    parseNumeric (first :: rest) which = .ok n ↔
      accumulate 256 (first &&& BASE256_FIRST_MAGNITUDE).toNat (rest.map UInt8.toNat) = some n := by
  simp only [parseNumeric, if_neg hmarker, if_neg (not_not.mpr hsign)]
  rcases accumulate 256 (first &&& BASE256_FIRST_MAGNITUDE).toNat (rest.map UInt8.toNat) with _ | value <;> simp

theorem parseNumeric_signed (hmarker : first &&& BASE256_MARKER ≠ 0) (hsign : first &&& BASE256_SIGN ≠ 0) :
    parseNumeric (first :: rest) which = .error (.malformed (.tarNumericField which)) := by
  simp only [parseNumeric, if_neg hmarker, if_pos hsign]

end Cases

/-- A numeric field reads as the number that it spells, where this is a `u64`. -/
theorem parseNumeric_eq_ok_iff {field : Bytes} {which : TarField} {n : Nat} :
    parseNumeric field which = .ok n ↔ Spells field n ∧ n ≤ U64_MAX := by
  rcases field with _ | ⟨first, rest⟩
  · exact ⟨nofun, fun h => nomatch h.1⟩
  by_cases hmarker : first &&& BASE256_MARKER = 0
  · rw [parseNumeric_octal hmarker]
    constructor
    · rintro ⟨length, hparse⟩
      obtain ⟨digits, hoctal, -, rfl, hle⟩ := parseOctal_eq_some_iff.mp hparse
      exact ⟨.octal hoctal, hle⟩
    · rintro ⟨hspells, hle⟩
      obtain ⟨digits, hoctal, hvalue⟩ := hspells.octal_of_marker hmarker
      exact ⟨digits.length, parseOctal_eq_some_iff.mpr ⟨digits, hoctal, rfl, Int.ofNat_inj.mp hvalue.symm, hle⟩⟩
  have hvalue : Spells (first :: rest) n ↔ base256Value (first :: rest) = n :=
    ⟨fun h => (Spells.base256 hmarker).unique h, fun h => h ▸ .base256 hmarker⟩
  rw [hvalue]
  by_cases hsign : first &&& BASE256_SIGN = 0
  · have hstart : (first &&& BASE256_FIRST_MAGNITUDE).toNat ≤ U64_MAX :=
      (toNat_mod_marker hmarker).2.le.trans (by decide)
    rw [parseNumeric_base256 hmarker hsign, accumulate_eq_some_iff (by norm_num) hstart, foldl_eq_value,
      base256Value_cons hmarker, if_pos hsign, sub_zero, Int.ofNat_inj]
  · rw [parseNumeric_signed hmarker hsign]
    have hneg := base256Value_neg rest hmarker hsign
    exact ⟨nofun, fun h => by omega⟩

/-- Every other field is refused. -/
theorem parseNumeric_eq_error_iff {field : Bytes} {which : TarField} {fault : ContentFault} :
    parseNumeric field which = .error fault ↔
      fault = .malformed (.tarNumericField which) ∧ ∀ v, Spells field v → v < 0 ∨ (U64_MAX : Int) < v := by
  have hfault : ∀ fault, parseNumeric field which = .error fault → fault = .malformed (.tarNumericField which) := by
    intro fault h
    unfold parseNumeric at h
    dsimp only at h
    split at h
    · cases h
    · cases h
      rfl
  constructor
  · intro h
    refine ⟨hfault fault h, fun v hspells => ?_⟩
    by_contra hrange
    have hnat : ((v.toNat : Nat) : Int) = v := Int.toNat_of_nonneg (by omega)
    have hok : parseNumeric field which = .ok v.toNat := parseNumeric_eq_ok_iff.mpr ⟨hnat.symm ▸ hspells, by omega⟩
    rw [h] at hok
    cases hok
  · rintro ⟨rfl, hout⟩
    rcases hparse : parseNumeric field which with fault | n
    · rw [hfault fault hparse]
    · obtain ⟨hspells, hle⟩ := parseNumeric_eq_ok_iff.mp hparse
      have := hout n hspells
      omega

/-! ### The checksum -/

/-- A byte of a block as the checksum counts it. -/
def checksumByte (block : Bytes) (offset : Nat) : UInt8 :=
  if CHECKSUM.start ≤ offset ∧ offset < CHECKSUM.start + CHECKSUM.len then SPACE else block.getD offset 0

def unsignedSum (block : Bytes) : Nat := ∑ offset ∈ Finset.range BLOCK, (checksumByte block offset).toNat

def signedSum (block : Bytes) : Int := ∑ offset ∈ Finset.range BLOCK, (checksumByte block offset).toInt8.toInt

theorem checksummed_eq {block : Bytes} (h : block.length = BLOCK) :
    checksummed block = (List.range BLOCK).map (checksumByte block) := by
  have hblock : block.length = 512 := h
  apply List.ext_getElem
  · simp [checksummed, h, BLOCK, CHECKSUM]
  · intro offset hlt hrange
    have hoffset : offset < 512 := by simpa [BLOCK] using hrange
    have hlength : offset < block.length := hblock ▸ hoffset
    have hget : block.getD offset 0 = block[offset] := List.getD_eq_getElem _ _ hlength
    simp only [List.getElem_map, List.getElem_range, checksumByte, checksummed, CHECKSUM, List.getElem_append,
      List.getElem_take, List.getElem_replicate, List.getElem_drop, List.length_append, List.length_take,
      List.length_replicate, hblock, hget]
    split_ifs with hbehind hbefore hspan hspan hspan
    · omega
    · rfl
    · rfl
    · omega
    · omega
    · have hoffset' : 148 + 8 + (offset - (min 148 512 + 8)) = offset := by omega
      simp only [hoffset']

theorem sum_map_range {M : Type} [AddCommMonoid M] (f : Nat → M) (n : Nat) :
    ((List.range n).map f).sum = ∑ i ∈ Finset.range n, f i := rfl

theorem sum_checksummed {block : Bytes} (h : block.length = BLOCK) :
    ((checksummed block).map UInt8.toNat).sum = unsignedSum block := by
  rw [checksummed_eq h, List.map_map]
  exact sum_map_range _ _

theorem sum_signed_checksummed {block : Bytes} (h : block.length = BLOCK) :
    ((checksummed block).map fun byte => byte.toInt8.toInt).sum = signedSum block := by
  rw [checksummed_eq h, List.map_map]
  exact sum_map_range _ _

/-- A block is accepted exactly where the number recorded in octal is one of the two sums. -/
theorem verifyChecksum_iff {block : Bytes} (h : block.length = BLOCK) : verifyChecksum block = .ok () ↔
    ∃ digits, IsOctal (span block CHECKSUM) digits ∧ digits ≠ [] ∧
      (octalValue digits = unsignedSum block ∨ (octalValue digits : Int) = signedSum block) := by
  have hsmall : ∀ digits, IsOctal (span block CHECKSUM) digits → octalValue digits ≤ U64_MAX := by
    intro digits hoctal
    have hfield : (span block CHECKSUM).length ≤ 8 := List.length_take_le _ _
    have hpow : 8 ^ (span block CHECKSUM).length ≤ 8 ^ 8 := Nat.pow_le_pow_right (by norm_num) hfield
    have hlt := hoctal.octalValue_lt
    unfold U64_MAX
    omega
  have hrecorded : ∀ n length, parseOctal (span block CHECKSUM) = some (n, length) ↔
      ∃ digits, IsOctal (span block CHECKSUM) digits ∧ digits.length = length ∧ octalValue digits = n := by
    intro n length
    rw [parseOctal_eq_some_iff]
    refine exists_congr fun digits => and_congr_right fun hoctal => and_congr_right fun _ => ?_
    exact ⟨And.left, fun hvalue => ⟨hvalue, hvalue ▸ hsmall digits hoctal⟩⟩
  rw [verifyChecksum]
  rcases hparse : parseOctal (span block CHECKSUM) with _ | ⟨n, length⟩
  · simp only [Option.filter_none, reduceCtorEq, false_iff]
    rintro ⟨digits, hoctal, -⟩
    have hsome := (hrecorded _ _).mpr ⟨digits, hoctal, rfl, rfl⟩
    rw [hparse] at hsome
    cases hsome
  · obtain ⟨digits, hoctal, rfl, rfl⟩ := (hrecorded _ _).mp hparse
    have hdigits : ∀ digits', IsOctal (span block CHECKSUM) digits' ↔ digits' = digits :=
      fun digits' => ⟨fun hoctal' => hoctal'.unique hoctal, fun heq => heq ▸ hoctal⟩
    simp only [hdigits, exists_eq_left]
    by_cases hempty : digits = []
    · simp [hempty, Option.filter]
    · have hpos : 0 < digits.length := List.length_pos_iff.mpr hempty
      simp only [Option.filter_some, hpos, decide_true, if_true, sum_checksummed h, sum_signed_checksummed h, ne_eq,
        hempty, not_false_eq_true, true_and]
      split_ifs with heq <;> simp [heq]

/-- A numeric field is read as what it spells where this is a `u64` and refused elsewhere, and a block is accepted
exactly by its recorded sum. -/
theorem headerNumbers_exact :
    (∀ (field : Bytes) (which : TarField),
      (∀ n : Nat, parseNumeric field which = .ok n ↔ Spells field n ∧ n ≤ U64_MAX) ∧
      ∀ fault, parseNumeric field which = .error fault ↔
        fault = .malformed (.tarNumericField which) ∧ ∀ v, Spells field v → v < 0 ∨ (U64_MAX : Int) < v) ∧
    ∀ block : Bytes, block.length = BLOCK → (verifyChecksum block = .ok () ↔
      ∃ digits, IsOctal (span block CHECKSUM) digits ∧ digits ≠ [] ∧
        (octalValue digits = unsignedSum block ∨ (octalValue digits : Int) = signedSum block)) :=
  ⟨fun _ _ => ⟨fun _ => parseNumeric_eq_ok_iff, fun _ => parseNumeric_eq_error_iff⟩, fun _ => verifyChecksum_iff⟩

/-- A header of zero bytes, with its checksum recorded. -/
def zeroHeader : Bytes := List.replicate 148 0 ++ [48, 48, 48, 52, 48, 48, 0, 32] ++ List.replicate 356 0

theorem length_zeroHeader : zeroHeader.length = BLOCK := by
  decide +kernel

theorem headerNumbers_exact_zeroHeader : zeroHeader.length = BLOCK ∧ verifyChecksum zeroHeader = .ok () := by
  have hoctal : IsOctal (span zeroHeader CHECKSUM) [48, 48, 48, 52, 48, 48] :=
    ⟨[], [0, 32], by decide +kernel, by simp, by simp [isOctalDigit], by simp [NUL, SPACE]⟩
  have hsum : octalValue [48, 48, 48, 52, 48, 48] = unsignedSum zeroHeader := by
    rw [← sum_checksummed length_zeroHeader]
    decide +kernel
  exact ⟨length_zeroHeader, (headerNumbers_exact.2 zeroHeader length_zeroHeader).mpr
    ⟨_, hoctal, List.cons_ne_nil _ _, .inl hsum⟩⟩

end DeployCore
