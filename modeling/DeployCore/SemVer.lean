import DeployCore.ImageReferences

/-! # Canonical versions (`src/image.rs`)

`is_canonical_semver` cuts a version at its first `+`, then at the first `-` of what is ahead of it, and judges each part
by its identifiers. The grammar of SemVer 2.0.0 puts the parts together instead. -/

namespace DeployCore

/-! ### The grammar -/

namespace SemVer

/-- `0`, or a positive digit and digits. -/
inductive NumericIdentifier : List Char → Prop
  | zero : NumericIdentifier ['0']
  | positive {digit : Char} {digits : List Char} (hdigit : '1' ≤ digit ∧ digit ≤ '9')
    (hdigits : ∀ c ∈ digits, '0' ≤ c ∧ c ≤ '9') : NumericIdentifier (digit :: digits)

/-- A digit, a letter or a hyphen. -/
def IdentifierCharacter (c : Char) : Prop :=
  '0' ≤ c ∧ c ≤ '9' ∨ 'A' ≤ c ∧ c ≤ 'Z' ∨ 'a' ≤ c ∧ c ≤ 'z' ∨ c = '-'

/-- Identifier characters, one of them no digit. -/
structure AlphanumericIdentifier (cs : List Char) : Prop where
  characters : ∀ c ∈ cs, IdentifierCharacter c
  nonDigit : ∃ c ∈ cs, ¬ ('0' ≤ c ∧ c ≤ '9')

def PreReleaseIdentifier (cs : List Char) : Prop := AlphanumericIdentifier cs ∨ NumericIdentifier cs

/-- An alphanumeric identifier, or digits. -/
def BuildIdentifier (cs : List Char) : Prop :=
  AlphanumericIdentifier cs ∨ cs ≠ [] ∧ ∀ c ∈ cs, '0' ≤ c ∧ c ≤ '9'

/-- Identifiers, one or more, with dots between them. -/
def DotSeparated (identifier : List Char → Prop) (cs : List Char) : Prop :=
  ∃ identifiers, identifiers ≠ [] ∧ (∀ cs ∈ identifiers, identifier cs) ∧ cs = ['.'].intercalate identifiers

def VersionCore (cs : List Char) : Prop :=
  ∃ major minor patch, NumericIdentifier major ∧ NumericIdentifier minor ∧ NumericIdentifier patch ∧
    cs = major ++ '.' :: (minor ++ '.' :: patch)

/-- The four productions of a version. -/
inductive Valid : List Char → Prop
  | core {core : List Char} (hcore : VersionCore core) : Valid core
  | preRelease {core pre : List Char} (hcore : VersionCore core) (hpre : DotSeparated PreReleaseIdentifier pre) :
    Valid (core ++ '-' :: pre)
  | build {core build : List Char} (hcore : VersionCore core) (hbuild : DotSeparated BuildIdentifier build) :
    Valid (core ++ '+' :: build)
  | both {core pre build : List Char} (hcore : VersionCore core) (hpre : DotSeparated PreReleaseIdentifier pre)
    (hbuild : DotSeparated BuildIdentifier build) : Valid (core ++ '-' :: (pre ++ '+' :: build))

/-! ### Identifiers -/

variable {c : Char} {cs core pre build : List Char}

theorem isAsciiDigit_iff : isAsciiDigit c = true ↔ '0' ≤ c ∧ c ≤ '9' := by
  simp [isAsciiDigit]

theorem identifierCharacter_iff : (isAsciiAlphanumeric c || c == '-') = true ↔ IdentifierCharacter c := by
  simp only [isAsciiAlphanumeric, isAsciiLower, isAsciiUpper, isAsciiDigit, IdentifierCharacter, Bool.or_eq_true,
    Bool.and_eq_true, decide_eq_true_eq, beq_iff_eq]
  tauto

theorem digit_identifierCharacter (h : '0' ≤ c ∧ c ≤ '9') : IdentifierCharacter c := .inl h

/-- A digit other than `0` is positive. -/
theorem positive_of_ne_zero (h : '0' ≤ c ∧ c ≤ '9') (hzero : c ≠ '0') : '1' ≤ c ∧ c ≤ '9' := by
  have hlow : ('0' : Char).toNat ≤ c.toNat := h.1
  have hne : c.toNat ≠ ('0' : Char).toNat := fun heq => hzero (Char.toNat_inj.mp heq)
  have hone : ('1' : Char).toNat ≤ c.toNat := by
    have hvalue : ('1' : Char).toNat = ('0' : Char).toNat + 1 := rfl
    omega
  exact ⟨hone, h.2⟩

theorem NumericIdentifier.digits (h : NumericIdentifier cs) : ∀ c ∈ cs, '0' ≤ c ∧ c ≤ '9' := by
  rcases h with _ | ⟨hdigit, hdigits⟩
  · intro c hc
    rw [List.mem_singleton.mp hc]
    decide
  · intro c hc
    rcases List.mem_cons.mp hc with rfl | hc
    · exact ⟨le_trans (by decide) hdigit.1, hdigit.2⟩
    · exact hdigits c hc

theorem NumericIdentifier.ne_nil (h : NumericIdentifier cs) : cs ≠ [] := by
  rcases h with _ | _ <;> exact List.cons_ne_nil _ _

theorem isNumericIdentifier_iff : isNumericIdentifier cs = true ↔ NumericIdentifier cs := by
  simp only [isNumericIdentifier, Bool.and_eq_true, Bool.or_eq_true, List.all_eq_true, isAsciiDigit_iff, beq_iff_eq,
    bne_iff_ne, Bool.not_eq_true', List.isEmpty_eq_false_iff]
  constructor
  · rintro ⟨⟨hne, hdigits⟩, hzero⟩
    obtain ⟨digit, digits, rfl⟩ := List.exists_cons_of_ne_nil hne
    obtain ⟨hdigit, hdigits⟩ := List.forall_mem_cons.mp hdigits
    rcases hzero with hzero | hzero
    · obtain ⟨rfl, rfl⟩ := List.cons.inj hzero
      exact .zero
    · exact .positive (positive_of_ne_zero hdigit fun h => hzero (congrArg some h)) hdigits
  · intro h
    refine ⟨⟨h.ne_nil, h.digits⟩, ?_⟩
    rcases h with _ | ⟨hdigit, hdigits⟩
    · exact .inl rfl
    · refine .inr fun h => ?_
      rw [List.head?_cons, Option.some.injEq] at h
      exact absurd (h ▸ hdigit.1) (by decide)

theorem isAlphanumericIdentifier_iff :
    isAlphanumericIdentifier cs = true ↔ cs ≠ [] ∧ ∀ c ∈ cs, IdentifierCharacter c := by
  simp only [isAlphanumericIdentifier, Bool.and_eq_true, List.all_eq_true, identifierCharacter_iff, Bool.not_eq_true',
    List.isEmpty_eq_false_iff]

theorem AlphanumericIdentifier.ne_nil (h : AlphanumericIdentifier cs) : cs ≠ [] := by
  obtain ⟨c, hc, -⟩ := h.nonDigit
  exact List.ne_nil_of_mem hc

/-- Identifier characters are digits, or are an alphanumeric identifier. -/
theorem digits_or_alphanumeric (h : ∀ c ∈ cs, IdentifierCharacter c) :
    (∀ c ∈ cs, '0' ≤ c ∧ c ≤ '9') ∨ AlphanumericIdentifier cs := by
  by_cases hdigits : ∀ c ∈ cs, '0' ≤ c ∧ c ≤ '9'
  · exact .inl hdigits
  · obtain ⟨c, hnot⟩ := not_forall.mp hdigits
    obtain ⟨hc, hnot⟩ := Classical.not_imp.mp hnot
    exact .inr ⟨h, c, hc, hnot⟩

theorem buildIdentifier_iff : isAlphanumericIdentifier cs = true ↔ BuildIdentifier cs := by
  rw [isAlphanumericIdentifier_iff]
  constructor
  · rintro ⟨hne, hcharacters⟩
    rcases digits_or_alphanumeric hcharacters with hdigits | halphanumeric
    · exact .inr ⟨hne, hdigits⟩
    · exact .inl halphanumeric
  · rintro (h | ⟨hne, hdigits⟩)
    · exact ⟨h.ne_nil, h.characters⟩
    · exact ⟨hne, fun c hc => digit_identifierCharacter (hdigits c hc)⟩

theorem preReleaseIdentifier_iff :
    (isAlphanumericIdentifier cs && (!cs.all isAsciiDigit || isNumericIdentifier cs)) = true ↔
      PreReleaseIdentifier cs := by
  rw [Bool.and_eq_true, Bool.or_eq_true, isAlphanumericIdentifier_iff, isNumericIdentifier_iff]
  constructor
  · rintro ⟨⟨-, hcharacters⟩, hnot | hnumeric⟩
    · rcases digits_or_alphanumeric hcharacters with hdigits | halphanumeric
      · have hall : cs.all isAsciiDigit = true := List.all_eq_true.mpr fun c hc => isAsciiDigit_iff.mpr (hdigits c hc)
        rw [hall] at hnot
        cases hnot
      · exact .inl halphanumeric
    · exact .inr hnumeric
  · rintro (h | h)
    · refine ⟨⟨h.ne_nil, h.characters⟩, .inl ?_⟩
      obtain ⟨c, hc, hnot⟩ := h.nonDigit
      rw [Bool.not_eq_true', ← Bool.not_eq_true, List.all_eq_true]
      exact fun hall => hnot (isAsciiDigit_iff.mp (hall c hc))
    · exact ⟨⟨h.ne_nil, fun c hc => digit_identifierCharacter (h.digits c hc)⟩, .inr h⟩

/-! ### Parts -/

theorem PreReleaseIdentifier.characters (h : PreReleaseIdentifier cs) : ∀ c ∈ cs, IdentifierCharacter c :=
  h.elim (·.characters) fun h c hc => digit_identifierCharacter (h.digits c hc)

theorem BuildIdentifier.characters (h : BuildIdentifier cs) : ∀ c ∈ cs, IdentifierCharacter c :=
  h.elim (·.characters) fun h c hc => digit_identifierCharacter (h.2 c hc)

theorem not_identifierCharacter_dot : ¬ IdentifierCharacter '.' := by
  simp only [IdentifierCharacter]
  decide

theorem not_identifierCharacter_plus : ¬ IdentifierCharacter '+' := by
  simp only [IdentifierCharacter]
  decide

/-- A part is judged identifier by identifier. -/
theorem dotSeparated_iff {identifier : List Char → Prop} {p : List Char → Bool}
    (hp : ∀ {cs}, p cs = true ↔ identifier cs) (hcharacters : ∀ {cs}, identifier cs → ∀ c ∈ cs, IdentifierCharacter c) :
    (cs.splitOn '.').all p = true ↔ DotSeparated identifier cs := by
  rw [List.all_eq_true]
  constructor
  · intro h
    exact ⟨cs.splitOn '.', List.splitOn_ne_nil _ _, fun cs hcs => hp.mp (h cs hcs), (List.intercalate_splitOn '.').symm⟩
  · rintro ⟨identifiers, hne, hall, rfl⟩
    rw [List.splitOn_intercalate '.' (fun cs hcs hdot => not_identifierCharacter_dot (hcharacters (hall cs hcs) _ hdot))
      hne]
    exact fun cs hcs => hp.mpr (hall cs hcs)

theorem versionCore_iff :
    ((cs.splitOn '.').length == 3 && (cs.splitOn '.').all isNumericIdentifier) = true ↔ VersionCore cs := by
  rw [Bool.and_eq_true, beq_iff_eq, List.all_eq_true]
  constructor
  · rintro ⟨hlength, hall⟩
    obtain ⟨major, minor, patch, hparts⟩ := List.length_eq_three.mp hlength
    have hcs : ['.'].intercalate (cs.splitOn '.') = cs := List.intercalate_splitOn '.'
    rw [hparts] at hall hcs
    have hnumeric {part : List Char} (hpart : part ∈ [major, minor, patch]) : NumericIdentifier part :=
      isNumericIdentifier_iff.mp (hall part hpart)
    exact ⟨major, minor, patch, hnumeric (by simp), hnumeric (by simp), hnumeric (by simp),
      by rw [← hcs]; simp [List.intercalate_cons_cons]⟩
  · rintro ⟨major, minor, patch, hmajor, hminor, hpatch, rfl⟩
    have hdot {part : List Char} (h : NumericIdentifier part) : '.' ∉ part := fun hmem =>
      absurd (h.digits _ hmem).1 (by decide)
    rw [List.splitOn_append_cons_self_of_not_mem (hdot hmajor), List.splitOn_append_cons_self_of_not_mem (hdot hminor),
      List.splitOn_eq_singleton (hdot hpatch)]
    refine ⟨rfl, fun part hpart => isNumericIdentifier_iff.mpr ?_⟩
    simp only [List.mem_cons, List.not_mem_nil, or_false] at hpart
    rcases hpart with rfl | rfl | rfl
    · exact hmajor
    · exact hminor
    · exact hpatch

theorem mem_dotSeparated {identifier : List Char → Prop}
    (hcharacters : ∀ {cs}, identifier cs → ∀ c ∈ cs, IdentifierCharacter c) (h : DotSeparated identifier cs)
    (hc : c ∈ cs) : c = '.' ∨ IdentifierCharacter c := by
  obtain ⟨identifiers, -, hall, rfl⟩ := h
  induction identifiers with
  | nil => cases hc
  | cons first more ih =>
    obtain ⟨hfirst, hmore⟩ := List.forall_mem_cons.mp hall
    rcases more with _ | ⟨next, more⟩
    · rw [List.intercalate_singleton] at hc
      exact .inr (hcharacters hfirst c hc)
    · rw [List.intercalate_cons_cons, List.mem_append, List.mem_append, List.mem_singleton] at hc
      rcases hc with (hc | rfl) | hc
      · exact .inr (hcharacters hfirst c hc)
      · exact .inl rfl
      · exact ih hmore hc

theorem mem_versionCore (h : VersionCore cs) (hc : c ∈ cs) : c = '.' ∨ '0' ≤ c ∧ c ≤ '9' := by
  obtain ⟨major, minor, patch, hmajor, hminor, hpatch, rfl⟩ := h
  simp only [List.mem_append, List.mem_cons] at hc
  rcases hc with hc | rfl | hc | rfl | hc
  · exact .inr (hmajor.digits c hc)
  · exact .inl rfl
  · exact .inr (hminor.digits c hc)
  · exact .inl rfl
  · exact .inr (hpatch.digits c hc)

theorem plus_not_mem_preRelease (h : DotSeparated PreReleaseIdentifier pre) : '+' ∉ pre := fun hmem =>
  (mem_dotSeparated PreReleaseIdentifier.characters h hmem).elim (by decide) not_identifierCharacter_plus

theorem not_mem_versionCore (h : VersionCore core) (hdot : c ≠ '.') (hdigit : ¬ ('0' ≤ c ∧ c ≤ '9')) :
    c ∉ core := fun hmem =>
  (mem_versionCore h hmem).elim hdot hdigit

/-! ### Versions -/

/-- What is left of the parts once a version is cut at its first `+` and at the first `-` ahead of it. -/
def Judged (core : List Char) (pre build : Option (List Char)) : Bool :=
  (core.splitOn '.').length == 3 && (core.splitOn '.').all isNumericIdentifier &&
    (pre.all fun pre => (pre.splitOn '.').all fun identifier =>
      isAlphanumericIdentifier identifier && (!identifier.all isAsciiDigit || isNumericIdentifier identifier)) &&
    build.all fun build => (build.splitOn '.').all isAlphanumericIdentifier

theorem judged_iff {pre build : Option (List Char)} : Judged core pre build = true ↔
    VersionCore core ∧ (∀ cs ∈ pre, DotSeparated PreReleaseIdentifier cs) ∧
      ∀ cs ∈ build, DotSeparated BuildIdentifier cs := by
  have hpre {cs : List Char} : ((cs.splitOn '.').all fun identifier =>
      isAlphanumericIdentifier identifier && (!identifier.all isAsciiDigit || isNumericIdentifier identifier)) = true ↔
        DotSeparated PreReleaseIdentifier cs :=
    dotSeparated_iff preReleaseIdentifier_iff PreReleaseIdentifier.characters
  have hbuild {cs : List Char} : (cs.splitOn '.').all isAlphanumericIdentifier = true ↔
      DotSeparated BuildIdentifier cs := dotSeparated_iff buildIdentifier_iff BuildIdentifier.characters
  rw [Judged, Bool.and_eq_true, Bool.and_eq_true, versionCore_iff, Option.all_eq_true, Option.all_eq_true, and_assoc]
  simp only [hpre, hbuild]
  rfl

/-- A text cut at the first `sep`, or left whole. -/
def cut (sep : Char) (cs : List Char) : List Char × Option (List Char) :=
  (splitOnce sep cs).elim (cs, none) fun parts => (parts.1, some parts.2)

theorem cut_none {sep : Char} (h : sep ∉ cs) : cut sep cs = (cs, none) := by
  rw [cut, splitOnce_eq_none.mpr h]
  rfl

theorem cut_some {sep : Char} {before after : List Char} (h : sep ∉ before) :
    cut sep (before ++ sep :: after) = (before, some after) := by
  rw [cut, splitOnce_eq_some.mpr ⟨rfl, h⟩]
  rfl

theorem cut_eq (sep : Char) (cs : List Char) : cut sep cs = (cs, none) ∨
    ∃ before after, cs = before ++ sep :: after ∧ cut sep cs = (before, some after) := by
  by_cases h : sep ∈ cs
  · obtain ⟨before, after, rfl, hbefore⟩ := List.eq_append_cons_of_mem h
    exact .inr ⟨before, after, rfl, cut_some hbefore⟩
  · exact .inl (cut_none h)

theorem isCanonicalSemver_eq {version : String} {rest : List Char} {build pre : Option (List Char)}
    (hplus : cut '+' version.toList = (rest, build)) (hminus : cut '-' rest = (core, pre)) :
    isCanonicalSemver version = Judged core pre build := by
  unfold isCanonicalSemver
  rcases hfront : splitOnce '+' version.toList with _ | ⟨front, back⟩
  · simp only [cut, hfront, Option.elim_none, Prod.mk.injEq] at hplus
    obtain ⟨rfl, rfl⟩ := hplus
    rcases hcore : splitOnce '-' version.toList with _ | ⟨front, back⟩
    · simp only [cut, hcore, Option.elim_none, Prod.mk.injEq] at hminus
      obtain ⟨rfl, rfl⟩ := hminus
      dsimp only
      rw [hcore]
      rfl
    · simp only [cut, hcore, Option.elim_some, Prod.mk.injEq] at hminus
      obtain ⟨rfl, rfl⟩ := hminus
      dsimp only
      rw [hcore]
      rfl
  · simp only [cut, hfront, Option.elim_some, Prod.mk.injEq] at hplus
    obtain ⟨rfl, rfl⟩ := hplus
    rcases hcore : splitOnce '-' front with _ | ⟨front', back'⟩
    · simp only [cut, hcore, Option.elim_none, Prod.mk.injEq] at hminus
      obtain ⟨rfl, rfl⟩ := hminus
      dsimp only
      rw [hcore]
      rfl
    · simp only [cut, hcore, Option.elim_some, Prod.mk.injEq] at hminus
      obtain ⟨rfl, rfl⟩ := hminus
      dsimp only
      rw [hcore]
      rfl

end SemVer

open SemVer

/-- The versions that are accepted are those of the grammar. -/
theorem isCanonicalSemver_iff (version : String) : isCanonicalSemver version = true ↔ Valid version.toList := by
  constructor
  · intro h
    rcases cut_eq '+' version.toList with hplus | ⟨rest, build, htext, hplus⟩
    · rcases cut_eq '-' version.toList with hminus | ⟨core, pre, htext, hminus⟩
      · rw [isCanonicalSemver_eq hplus hminus, judged_iff] at h
        exact .core h.1
      · rw [isCanonicalSemver_eq hplus hminus, judged_iff] at h
        rw [htext]
        exact .preRelease h.1 (h.2.1 pre rfl)
    · rcases cut_eq '-' rest with hminus | ⟨core, pre, rfl, hminus⟩
      · rw [isCanonicalSemver_eq hplus hminus, judged_iff] at h
        rw [htext]
        exact .build h.1 (h.2.2 build rfl)
      · rw [isCanonicalSemver_eq hplus hminus, judged_iff] at h
        rw [htext, List.append_assoc]
        exact .both h.1 (h.2.1 pre rfl) (h.2.2 build rfl)
  · have hhyphen {core : List Char} (h : VersionCore core) : '-' ∉ core := not_mem_versionCore h (by decide) (by decide)
    have hplusCore {core : List Char} (h : VersionCore core) : '+' ∉ core := not_mem_versionCore h (by decide) (by decide)
    have hplusFront {core pre : List Char} (hcore : VersionCore core) (hpre : DotSeparated PreReleaseIdentifier pre) :
        '+' ∉ core ++ '-' :: pre := by
      rw [List.mem_append, List.mem_cons]
      rintro (h | h | h)
      · exact hplusCore hcore h
      · exact absurd h (by decide)
      · exact plus_not_mem_preRelease hpre h
    intro h
    generalize htext : version.toList = cs at h
    rcases h with ⟨hcore⟩ | ⟨hcore, hpre⟩ | ⟨hcore, hbuild⟩ | ⟨hcore, hpre, hbuild⟩
    · have hplus := cut_none (hplusCore hcore)
      rw [isCanonicalSemver_eq ((congrArg _ htext).trans hplus) (cut_none (hhyphen hcore)), judged_iff]
      exact ⟨hcore, by simp, by simp⟩
    · have hplus := cut_none (hplusFront hcore hpre)
      rw [isCanonicalSemver_eq ((congrArg _ htext).trans hplus) (cut_some (hhyphen hcore)), judged_iff]
      exact ⟨hcore, by simpa using hpre, by simp⟩
    · rename_i core build
      have hplus : cut '+' (core ++ '+' :: build) = (core, some build) := cut_some (hplusCore hcore)
      rw [isCanonicalSemver_eq ((congrArg _ htext).trans hplus) (cut_none (hhyphen hcore)), judged_iff]
      exact ⟨hcore, by simp, by simpa using hbuild⟩
    · rename_i core pre build
      have hplus : cut '+' (core ++ '-' :: (pre ++ '+' :: build)) = (core ++ '-' :: pre, some build) := by
        rw [← List.cons_append, ← List.append_assoc]
        exact cut_some (hplusFront hcore hpre)
      rw [isCanonicalSemver_eq ((congrArg _ htext).trans hplus) (cut_some (hhyphen hcore)), judged_iff]
      exact ⟨hcore, by simpa using hpre, by simpa using hbuild⟩

end DeployCore
