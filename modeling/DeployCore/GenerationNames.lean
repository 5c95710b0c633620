import DeployCore.Lib.Decimal
import DeployCore.Paths

/-! # The names of a trust tree

The engine's own names at a tree root are `active`, `active.tmp`, `gen-<n>` and `gen-<n>.tmp`. The two parsers
accept exactly the spellings the engine writes (`parseGeneration_iff`, `parseTmpGeneration_iff`). -/

namespace DeployCore

def ACTIVE_LINK : Bytes := asBytes "active"
def GENERATION_PREFIX : Bytes := asBytes "gen-"
def TMP_EXTENSION : Bytes := asBytes "tmp"

/-- `u64::to_string`. -/
def toDecimal (n : UInt64) : Bytes := Decimal.write n.toNat

/-- `u64::from_str`: digits behind an optional `+`. -/
def parseU64 (text : Bytes) : Option UInt64 :=
  let digits := if text.head? = some 43 then text.tail else text
  if digits = [] then none else (Decimal.read (2 ^ 64) 0 digits).map UInt64.ofNat

/-- `gen-<n>`. -/
def generationName (generation : UInt64) : Bytes := GENERATION_PREFIX ++ toDecimal generation

/-- `gen-<n>.tmp`. -/
def tmpGenerationName (generation : UInt64) : Bytes := generationName generation ++ DOT :: TMP_EXTENSION

/-- `active.tmp`. -/
def ACTIVE_TMP : Bytes := ACTIVE_LINK ++ DOT :: TMP_EXTENSION

/-- `str::strip_prefix`, on bytes. -/
def stripBytes (pre text : Bytes) : Option Bytes :=
  if pre.isPrefixOf text then some (text.drop pre.length) else none

/-- Parses a `gen-<n>` name, in the canonical spelling only. A name that is not UTF-8 has no such spelling. -/
def parseGeneration (path : Bytes) : Option UInt64 := do
  let name ← fileName path
  let digits ← stripBytes GENERATION_PREFIX name
  let generation ← parseU64 digits
  if digits = toDecimal generation then some generation else none

/-- Parses a `gen-<n>.tmp` name. -/
def parseTmpGeneration (path : Bytes) : Option UInt64 := do
  let name ← fileName path
  if (← extension name) ≠ TMP_EXTENSION then none
  else parseGeneration (← fileStem name)

/-- A name that is exactly one normal component. -/
def isSingleComponent (name : Bytes) : Bool :=
  components name = [.normal name]

variable {name : Bytes} {generation other : UInt64}

theorem mem_toDecimal {byte : UInt8} (h : byte ∈ toDecimal generation) : 48 ≤ byte.toNat :=
  (Decimal.mem_write h).1

theorem parseU64_toDecimal : parseU64 (toDecimal generation) = some generation := by
  have hplus : (toDecimal generation).head? ≠ some 43 := fun h => by
    have := mem_toDecimal (List.mem_of_head? h)
    simp at this
  have hread : Decimal.read (2 ^ 64) 0 (toDecimal generation) = some generation.toNat :=
    Decimal.read_write generation.toNat_lt
  simp only [parseU64, if_neg hplus, if_neg (show toDecimal generation ≠ [] from Decimal.write_ne_nil), hread,
    Option.map_some, UInt64.ofNat_toNat]

theorem mem_generationName {byte : UInt8} (h : byte ∈ generationName generation) :
    byte ∈ GENERATION_PREFIX ∨ 48 ≤ byte.toNat :=
  (List.mem_append.mp h).imp_right mem_toDecimal

theorem slash_not_mem_generationName : SLASH ∉ generationName generation := fun h =>
  (mem_generationName h).elim (by decide) (by decide)

theorem dot_not_mem_generationName : DOT ∉ generationName generation := fun h =>
  (mem_generationName h).elim (by decide) (by decide)

theorem head_generationName : (generationName generation).head? = some 103 := rfl

theorem fileName_of_head (hslash : SLASH ∉ name) (hhead : name.head? = some 103) : fileName name = some name := by
  rw [fileName_of_no_slash hslash, if_neg]
  rintro (rfl | rfl | rfl) <;> simp [DOT] at hhead

theorem stripBytes_eq_some_iff {pre text rest : Bytes} : stripBytes pre text = some rest ↔ text = pre ++ rest := by
  unfold stripBytes
  constructor
  · intro h
    split at h
    · next hprefix =>
      cases h
      exact (List.prefix_iff_eq_append.mp (List.isPrefixOf_iff_prefix.mp hprefix)).symm
    · cases h
  · rintro rfl
    rw [if_pos (List.isPrefixOf_iff_prefix.mpr (List.prefix_append _ _)), List.drop_left]

theorem parseGeneration_generationName : parseGeneration (generationName generation) = some generation := by
  have hstrip : stripBytes GENERATION_PREFIX (generationName generation) = some (toDecimal generation) :=
    stripBytes_eq_some_iff.mpr rfl
  simp [parseGeneration, fileName_of_head slash_not_mem_generationName head_generationName, hstrip,
    parseU64_toDecimal]

/-- Of the names a directory can hold, the parser accepts `gen-<n>` and no other. -/
theorem parseGeneration_iff (hslash : SLASH ∉ name) :
    parseGeneration name = some generation ↔ name = generationName generation := by
  refine ⟨fun h => ?_, fun h => h ▸ parseGeneration_generationName⟩
  simp only [parseGeneration, Option.bind_eq_bind, Option.bind_eq_some_iff] at h
  obtain ⟨file, hfile, digits, hdigits, n, -, hn⟩ := h
  cases eq_of_fileName hslash hfile
  split at hn
  · next heq =>
    cases hn
    rw [stripBytes_eq_some_iff.mp hdigits, heq]
    rfl
  · cases hn

theorem generationName_injective (h : generationName generation = generationName other) : generation = other := by
  have hparse : parseGeneration (generationName generation) = some generation := parseGeneration_generationName
  rw [h, parseGeneration_generationName] at hparse
  exact (Option.some.inj hparse).symm

theorem slash_not_mem_tmpGenerationName : SLASH ∉ tmpGenerationName generation := fun h =>
  (List.mem_append.mp h).elim slash_not_mem_generationName (by decide)

theorem rsplitFileAtDot_tmpGenerationName :
    rsplitFileAtDot (tmpGenerationName generation) = (some (generationName generation), some TMP_EXTENSION) := by
  have hsplit : splitLast DOT (tmpGenerationName generation) = some (generationName generation, TMP_EXTENSION) :=
    splitLast_append (by decide)
  have hne : tmpGenerationName generation ≠ [DOT, DOT] := fun h => by
    have hhead : some 103 = some DOT := congrArg List.head? h
    exact absurd hhead (by decide)
  have hgen : ∃ byte rest, generationName generation = byte :: rest := ⟨_, _, rfl⟩
  obtain ⟨byte, rest, hgen⟩ := hgen
  rw [rsplitFileAtDot, if_neg hne, hsplit, hgen]

theorem parseTmpGeneration_tmpGenerationName : parseTmpGeneration (tmpGenerationName generation) = some generation := by
  have hfile : fileName (tmpGenerationName generation) = some (tmpGenerationName generation) :=
    fileName_of_head slash_not_mem_tmpGenerationName rfl
  simp [parseTmpGeneration, hfile, extension, fileStem, rsplitFileAtDot_tmpGenerationName,
    parseGeneration_generationName]

theorem parseTmpGeneration_iff (hslash : SLASH ∉ name) :
    parseTmpGeneration name = some generation ↔ name = tmpGenerationName generation := by
  refine ⟨fun h => ?_, fun h => h ▸ parseTmpGeneration_tmpGenerationName⟩
  obtain ⟨file, hfile, h⟩ := Option.bind_eq_some_iff.mp h
  cases eq_of_fileName hslash hfile
  obtain ⟨ext, hext, h⟩ := Option.bind_eq_some_iff.mp h
  obtain ⟨stem, hstem, hname⟩ := eq_of_extension hslash hext
  split at h
  · cases h
  next hne =>
  obtain ⟨_, hstem', hparse⟩ := Option.bind_eq_some_iff.mp h
  cases hstem.symm.trans hstem'
  have hslash' : SLASH ∉ stem := fun hmem => hslash (hname ▸ List.mem_append_left _ hmem)
  rw [hname, not_not.mp hne, (parseGeneration_iff hslash').mp hparse]
  rfl

theorem tmpGenerationName_ne_generationName : tmpGenerationName generation ≠ generationName other := fun h =>
  (dot_not_mem_generationName : DOT ∉ generationName other) (h ▸ List.mem_append_right _ List.mem_cons_self)

theorem head_tmpGenerationName : (tmpGenerationName generation).head? = some 103 := rfl

theorem tmpGenerationName_ne_active : tmpGenerationName generation ≠ ACTIVE_LINK := fun h =>
  absurd (head_tmpGenerationName.symm.trans (congrArg List.head? h)) (by decide)

theorem tmpGenerationName_ne_activeTmp : tmpGenerationName generation ≠ ACTIVE_TMP := fun h =>
  absurd (head_tmpGenerationName.symm.trans (congrArg List.head? h)) (by decide)

theorem generationName_ne_active : generationName generation ≠ ACTIVE_LINK := fun h =>
  absurd (head_generationName.symm.trans (congrArg List.head? h)) (by decide)

theorem generationName_ne_activeTmp : generationName generation ≠ ACTIVE_TMP := fun h =>
  absurd (head_generationName.symm.trans (congrArg List.head? h)) (by decide)

theorem activeTmp_ne_active : ACTIVE_TMP ≠ ACTIVE_LINK := by decide

theorem parseTmpGeneration_generationName : parseTmpGeneration (generationName generation) = none := by
  cases h : parseTmpGeneration (generationName generation) with
  | none => rfl
  | some n =>
    exact absurd ((parseTmpGeneration_iff slash_not_mem_generationName).mp h).symm tmpGenerationName_ne_generationName

end DeployCore
