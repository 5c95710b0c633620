import DeployCore.ReleaseTrust
import DeployCore.Lib.Occurs
import DeployCore.Lib.Base64

/-! # Strict PEM (`src/roxyd_trust.rs`)

`parsePemStrict` reads a run of PEM blocks with nothing but whitespace around them. A slice out of bounds is a panic, and
the loop runs on fuel. The base64 engine is third-party code: what is relied on is that it reads a text exactly when this
is the canonical encoding of the bytes it returns (`Canonical`). -/

namespace DeployCore
namespace Pem

/-- One decoded PEM block: its label, which is ASCII, and its DER contents. -/
structure PemBlock where
  label : Bytes
  der : Bytes
  deriving DecidableEq

/-- What the parser stops with: `TrustError::Pem`, or a panic. -/
inductive PemStop
  | pem (path reason : String)
  | panic
  deriving DecidableEq

def BEGIN : Bytes := asBytes "-----BEGIN "
def END : Bytes := asBytes "-----END "
def DASHES : Bytes := asBytes "-----"

/-- The first occurrence of `needle` in `haystack`. -/
def find (haystack needle : Bytes) : Option Nat :=
  if needle.isEmpty ∨ needle.length > haystack.length then none else Occurs.first needle haystack

/-- `&bytes[at..]`. -/
def sliceFrom (bytes : Bytes) (start : Nat) : Except PemStop Bytes :=
  if start ≤ bytes.length then .ok (bytes.drop start) else .error .panic

/-- `&bytes[..end]`. -/
def sliceTo (bytes : Bytes) (stop : Nat) : Except PemStop Bytes :=
  if stop ≤ bytes.length then .ok (bytes.take stop) else .error .panic

/-- `ok_or_else`. -/
def okOr {α : Type} (value : Option α) (stop : PemStop) : Except PemStop α :=
  value.elim (.error stop) .ok

/-- An ASCII byte that may stand in a label. -/
def isLabelByte (b : UInt8) : Bool := (65 ≤ b && b ≤ 90) || b == 32

/-- The text of an ASCII label. -/
def labelText (label : Bytes) : String := String.ofList (label.map fun b => Char.ofNat b.toNat)

section Parser
variable (decode : Bytes → Except String Bytes) (role : String)

def bad (reason : String) : PemStop := .pem role reason

/-- Reads the block that starts `rest`, and what is behind it. -/
def readBlock (rest : Bytes) : Except PemStop (PemBlock × Bytes) :=
  if ¬ BEGIN <+: rest then .error (bad role "expected a `-----BEGIN` marker")
  else do
    let afterBegin := rest.drop BEGIN.length
    let labelEnd ← okOr (find afterBegin DASHES) (bad role "unterminated BEGIN line")
    let labelBytes ← sliceTo afterBegin labelEnd
    if labelBytes.isEmpty ∨ ¬ labelBytes.all isLabelByte then .error (bad role "invalid PEM label")
    else
      let bodyStart ← sliceFrom afterBegin (labelEnd + DASHES.length)
      let endMarker := END ++ labelBytes ++ DASHES
      let bodyEnd ← okOr (find bodyStart endMarker) (bad role "missing matching `-----END` marker")
      let body ← sliceTo bodyStart bodyEnd
      let after ← sliceFrom bodyStart (bodyEnd + endMarker.length)
      let cleaned := body.filter fun b => !isAsciiWhitespaceByte b
      let der ← (decode cleaned).mapError fun e =>
        bad role ("invalid base64 in a `" ++ labelText labelBytes ++ "` block: " ++ e)
      .ok (⟨labelBytes, der⟩, after)

/-- The next block behind whitespace, and what is behind it, unless nothing but whitespace is left. -/
def nextBlock (rest : Bytes) : Except PemStop (Option (PemBlock × Bytes)) := do
  let rest ← sliceFrom rest (rest.findIdx fun b => !isAsciiWhitespaceByte b)
  if rest.isEmpty then .ok none else (readBlock decode role rest).map some

/-- The loop of `parse_pem_strict`, for as many rounds as there is fuel. -/
def parseBlocks : Nat → Bytes → List PemBlock → Option (Except PemStop (List PemBlock))
  | 0, _, _ => none
  | fuel + 1, rest, blocks =>
    match nextBlock decode role rest with
    | .error stop => some (.error stop)
    | .ok none => some (if blocks.isEmpty then .error (bad role "no PEM blocks found") else .ok blocks)
    | .ok (some (block, after)) => parseBlocks fuel after (blocks ++ [block])

def parsePemStrict (fuel : Nat) (input : Bytes) : Option (Except PemStop (List PemBlock)) :=
  parseBlocks decode role fuel input []

end Parser

/-- Requires every block to carry `label`, and returns their DER bodies. -/
def requireAll (blocks : List PemBlock) (label : Bytes) (role : String) : Except PemStop (List Bytes) :=
  match blocks.find? fun b => b.label ≠ label with
  | some block => .error (.pem role ("unexpected `" ++ labelText block.label ++ "` block (want only `" ++ labelText label ++
      "`)"))
  | none => .ok (blocks.map PemBlock.der)

/-! ### What is meant -/

def Blank (bs : Bytes) : Prop := ∀ b ∈ bs, isAsciiWhitespaceByte b = true

/-- A label of capitals and spaces. -/
def ValidLabel (label : Bytes) : Prop := label ≠ [] ∧ ∀ b ∈ label, isLabelByte b = true

/-- A block with this label and this body between the markers. -/
def blockText (label body : Bytes) : Bytes := BEGIN ++ label ++ DASHES ++ (body ++ (END ++ label ++ DASHES))

/-- A text of PEM blocks with nothing but whitespace around them; a body is canonical base64 with whitespace anywhere. -/
inductive PemText : Bytes → List PemBlock → Prop
  | done {blank : Bytes} (hblank : Blank blank) : PemText blank []
  | block {blank label body der rest : Bytes} {blocks : List PemBlock} (hblank : Blank blank) (hlabel : ValidLabel label)
    (hbody : body.filter (fun b => !isAsciiWhitespaceByte b) = Base64.encode der) (hrest : PemText rest blocks) :
    PemText (blank ++ (blockText label body ++ rest)) (⟨label, der⟩ :: blocks)

/-- Documented behaviour of the standard engine: canonical padding and no trailing bits. -/
def Canonical (decode : Bytes → Except String Bytes) : Prop :=
  ∀ text der, decode text = .ok der ↔ text = Base64.encode der

/-- Letters in lines, each of which is ended; `left` more fit the line that is being written. -/
def lines (width : Nat) : Nat → Bytes → Bytes
  | _, [] => [LINE_FEED]
  | 0, b :: bs => LINE_FEED :: b :: lines width (width - 1) bs
  | left + 1, b :: bs => b :: lines width left bs

/-- The standard encoding of a block: lines of 64 letters between marker lines. -/
def standardBlock (block : PemBlock) : Bytes :=
  blockText block.label (LINE_FEED :: if block.der = [] then [] else lines 64 64 (Base64.encode block.der)) ++ [LINE_FEED]

def standardText (blocks : List PemBlock) : Bytes := blocks.flatMap standardBlock

/-- The parser returns within so many rounds as there are bytes, without a panic, and accepts exactly the nonempty PEM
texts; a standard encoding is one. -/
structure ParsesPem (decode : Bytes → Except String Bytes) (role : String) : Prop where
  returns : ∀ input fuel, input.length < fuel → ∃ outcome, parsePemStrict decode role fuel input = some outcome ∧
    outcome ≠ .error .panic
  accepts : ∀ input fuel blocks, input.length < fuel →
    (parsePemStrict decode role fuel input = some (.ok blocks) ↔ blocks ≠ [] ∧ PemText input blocks)
  standard : ∀ blocks fuel, blocks ≠ [] → (∀ block ∈ blocks, ValidLabel block.label) →
    (standardText blocks).length < fuel → parsePemStrict decode role fuel (standardText blocks) = some (.ok blocks)

/-! ### Finding markers -/

def DASH : UInt8 := 45

theorem DASHES_eq : DASHES = [DASH, DASH, DASH, DASH, DASH] := rfl
theorem END_eq : END = DASH :: END.tail := rfl

variable {hay needle pre post : Bytes} {i : Nat}

theorem find_some (h : find hay needle = some i) :
    ∃ pre post, hay = pre ++ needle ++ post ∧ pre.length = i := by
  unfold find at h
  exact Occurs.first_eq_some (Option.ite_none_left_eq_some.mp h).2

/-- Behind a front without the needle's first byte the needle is found at once. -/
theorem find_behind {first : UInt8} {tail : Bytes} (hpre : first ∉ pre) :
    find (pre ++ (first :: tail) ++ post) (first :: tail) = some pre.length := by
  rw [find, if_neg (by simp; omega)]
  refine Occurs.first_append_needle (List.cons_ne_nil _ _) fun p hp => ?_
  by_contra hlt
  obtain ⟨front, back, heq, rfl⟩ := Occurs.first_eq_some hp
  have hget : (pre ++ (first :: tail) ++ post)[front.length]? = some first := by
    rw [heq]
    simp
  rw [List.append_assoc, List.getElem?_append_left (by omega)] at hget
  exact hpre (List.mem_of_getElem? hget)

theorem isLabelByte_ne_dash {b : UInt8} (h : isLabelByte b = true) : b ≠ DASH := by
  rintro rfl
  revert h
  decide

theorem alphabet_ne_dash {b : UInt8} (h : Base64.Alphabet b) : b ≠ DASH := by
  rintro rfl
  have := h.toNat
  revert this
  decide

theorem ValidLabel.dash_not_mem {label : Bytes} (h : ValidLabel label) : DASH ∉ label :=
  fun hmem => isLabelByte_ne_dash (h.2 _ hmem) rfl

/-- A body that is base64 with whitespace has no dash. -/
theorem dash_not_mem_body {body der : Bytes}
    (h : body.filter (fun b => !isAsciiWhitespaceByte b) = Base64.encode der) : DASH ∉ body := by
  intro hmem
  have hkept : DASH ∈ body.filter fun b => !isAsciiWhitespaceByte b := List.mem_filter.mpr ⟨hmem, by decide⟩
  rw [h] at hkept
  exact alphabet_ne_dash (Base64.alphabet_encode hkept) rfl

/-! ### One block -/

section Parser
variable {decode : Bytes → Except String Bytes} {role : String} {rest after : Bytes} {block : PemBlock}

theorem sliceFrom_append : sliceFrom (pre ++ post) pre.length = .ok post := by
  rw [sliceFrom, if_pos (by simp), List.drop_left]

theorem sliceTo_append : sliceTo (pre ++ post) pre.length = .ok pre := by
  rw [sliceTo, if_pos (by simp), List.take_left]

/-- Where the markers stand, reading goes by them. -/
theorem readBlock_of_markers {label body : Bytes} (hlabel : find (label ++ (DASHES ++ (body ++ (END ++ label ++ DASHES) ++
      after))) DASHES = some label.length)
    (hbody : find (body ++ (END ++ label ++ DASHES) ++ after) (END ++ label ++ DASHES) = some body.length) :
    readBlock decode role (blockText label body ++ after) =
      if label.isEmpty ∨ ¬ label.all isLabelByte then .error (bad role "invalid PEM label")
      else ((decode (body.filter fun b => !isAsciiWhitespaceByte b)).mapError fun e =>
        bad role ("invalid base64 in a `" ++ labelText label ++ "` block: " ++ e)).map fun der => (⟨label, der⟩, after) := by
  have hstart : ¬ ¬ BEGIN <+: blockText label body ++ after := by
    rw [not_not, blockText]
    simp only [List.append_assoc]
    exact List.prefix_append _ _
  have hdrop : (blockText label body ++ after).drop BEGIN.length =
      label ++ (DASHES ++ (body ++ (END ++ label ++ DASHES) ++ after)) := by
    rw [blockText]
    simp only [List.append_assoc]
    exact List.drop_left
  have hbodyStart : sliceFrom (label ++ (DASHES ++ (body ++ (END ++ label ++ DASHES) ++ after)))
      (label.length + DASHES.length) = .ok (body ++ (END ++ label ++ DASHES) ++ after) := by
    rw [← List.append_assoc, ← List.length_append, sliceFrom_append]
  have hafter : sliceFrom (body ++ (END ++ label ++ DASHES) ++ after) (body.length + (END ++ label ++ DASHES).length) =
      .ok after := by
    rw [← List.length_append, sliceFrom_append]
  have hslice : sliceTo (body ++ (END ++ label ++ DASHES) ++ after) body.length = .ok body := by
    rw [List.append_assoc body, sliceTo_append]
  rw [readBlock, if_neg hstart, hdrop]
  simp only [hlabel, okOr, Option.elim_some, bind, Except.bind, sliceTo_append, hbodyStart, hbody, hslice, hafter]
  split
  · rfl
  · rcases decode (body.filter fun b => !isAsciiWhitespaceByte b) with e | der <;> rfl

/-- A block is refused, or the markers stand around it. -/
theorem readBlock_cases (decode : Bytes → Except String Bytes) (role : String) (rest : Bytes) :
    (∃ reason, readBlock decode role rest = .error (bad role reason)) ∨
      ∃ label body after, rest = blockText label body ++ after ∧
        find (label ++ (DASHES ++ (body ++ (END ++ label ++ DASHES) ++ after))) DASHES = some label.length ∧
        find (body ++ (END ++ label ++ DASHES) ++ after) (END ++ label ++ DASHES) = some body.length := by
  by_cases hbegin : BEGIN <+: rest
  · obtain ⟨afterBegin, rfl⟩ := hbegin
    have hread : readBlock decode role (BEGIN ++ afterBegin) = _ := if_neg (not_not.mpr (List.prefix_append _ _))
    rw [List.drop_left] at hread
    rcases hlabel : find afterBegin DASHES with _ | labelEnd
    · simp only [hlabel] at hread
      exact .inl ⟨_, hread⟩
    · obtain ⟨label, bodyStart, heq, rfl⟩ := find_some hlabel
      rw [List.append_assoc] at heq
      subst heq
      have hbodyStart : sliceFrom (label ++ (DASHES ++ bodyStart)) (label.length + DASHES.length) = .ok bodyStart := by
        rw [← List.append_assoc, ← List.length_append, sliceFrom_append]
      simp only [hlabel, okOr, Option.elim_some, bind, Except.bind, sliceTo_append, hbodyStart] at hread
      rcases hbody : find bodyStart (END ++ label ++ DASHES) with _ | bodyEnd
      · rw [hbody] at hread
        split at hread
        · exact .inl ⟨_, hread⟩
        · exact .inl ⟨_, hread⟩
      · obtain ⟨body, after, rfl, rfl⟩ := find_some hbody
        refine .inr ⟨label, body, after, ?_, hlabel, hbody⟩
        simp [blockText]
  · exact .inl ⟨_, if_pos hbegin⟩

/-- With a canonical engine, a block is read exactly where its text stands. -/
theorem readBlock_iff (hdecode : Canonical decode) : readBlock decode role rest = .ok (block, after) ↔
    ∃ body, ValidLabel block.label ∧ body.filter (fun b => !isAsciiWhitespaceByte b) = Base64.encode block.der ∧
      rest = blockText block.label body ++ after := by
  constructor
  · intro h
    rcases readBlock_cases decode role rest with ⟨reason, hbad⟩ | ⟨label, body, after', rfl, hlabel, hbody⟩
    · rw [hbad] at h
      cases h
    · rw [readBlock_of_markers hlabel hbody] at h
      split at h
      · cases h
      next hvalid =>
        rcases hder : decode (body.filter fun b => !isAsciiWhitespaceByte b) with e | der <;> rw [hder] at h
        · cases h
        · obtain ⟨rfl, rfl⟩ := Prod.mk.inj (Except.ok.inj h)
          refine ⟨body, ⟨?_, ?_⟩, (hdecode _ _).mp hder, rfl⟩
          · simpa using (not_or.mp hvalid).1
          · simpa using (not_or.mp hvalid).2
  · rintro ⟨body, hlabel, hbody, rfl⟩
    have hfindLabel : find (block.label ++ (DASHES ++ (body ++ (END ++ block.label ++ DASHES) ++ after))) DASHES =
        some block.label.length := by
      rw [← List.append_assoc, DASHES_eq]
      exact find_behind hlabel.dash_not_mem
    have hfindBody : find (body ++ (END ++ block.label ++ DASHES) ++ after) (END ++ block.label ++ DASHES) =
        some body.length := by
      rw [END_eq, List.cons_append, List.cons_append]
      exact find_behind (dash_not_mem_body hbody)
    have hvalid : ¬ (block.label.isEmpty = true ∨ ¬ block.label.all isLabelByte = true) := by
      rw [List.isEmpty_iff, List.all_eq_true, not_or, not_not]
      exact hlabel
    rw [readBlock_of_markers hfindLabel hfindBody, if_neg hvalid, (hdecode _ _).mpr hbody]
    rfl

theorem readBlock_ne_panic (decode : Bytes → Except String Bytes) (role : String) (rest : Bytes) :
    readBlock decode role rest ≠ .error .panic := by
  intro hpanic
  rcases readBlock_cases decode role rest with ⟨reason, hbad⟩ | ⟨label, body, after, rfl, hlabel, hbody⟩
  · rw [hbad] at hpanic
    cases hpanic
  · rw [readBlock_of_markers hlabel hbody] at hpanic
    split at hpanic
    · cases hpanic
    · rcases hder : decode (body.filter fun b => !isAsciiWhitespaceByte b) with e | der <;> rw [hder] at hpanic <;>
        cases hpanic

/-! ### The next block -/

theorem sliceFrom_findIdx (rest : Bytes) : sliceFrom rest (rest.findIdx fun b => !isAsciiWhitespaceByte b) =
    .ok (rest.dropWhile isAsciiWhitespaceByte) := by
  rw [sliceFrom, if_pos List.findIdx_le_length, List.dropWhile_eq_drop_findIdx_not]

theorem nextBlock_eq (decode : Bytes → Except String Bytes) (role : String) (rest : Bytes) :
    nextBlock decode role rest = if (rest.dropWhile isAsciiWhitespaceByte).isEmpty then .ok none
      else (readBlock decode role (rest.dropWhile isAsciiWhitespaceByte)).map some := by
  rw [nextBlock, sliceFrom_findIdx]
  rfl

theorem nextBlock_none_iff : nextBlock decode role rest = .ok none ↔ Blank rest := by
  have hblank : (rest.dropWhile isAsciiWhitespaceByte).isEmpty = true ↔ Blank rest := by
    rw [List.isEmpty_iff, List.dropWhile_eq_nil_iff]
    rfl
  rw [nextBlock_eq]
  split
  next hempty => simp [hblank.mp hempty]
  next hempty =>
    rw [hblank] at hempty
    simp only [hempty, iff_false]
    intro h
    rcases hread : readBlock decode role (rest.dropWhile isAsciiWhitespaceByte) with e | read <;> rw [hread] at h <;>
      cases h

theorem nextBlock_some_iff (hdecode : Canonical decode) : nextBlock decode role rest = .ok (some (block, after)) ↔
    ∃ blank body, Blank blank ∧ ValidLabel block.label ∧
      body.filter (fun b => !isAsciiWhitespaceByte b) = Base64.encode block.der ∧
      rest = blank ++ (blockText block.label body ++ after) := by
  rw [nextBlock_eq]
  constructor
  · intro h
    split at h
    · cases h
    · rcases hread : readBlock decode role (rest.dropWhile isAsciiWhitespaceByte) with e | read <;> rw [hread] at h
      · cases h
      · obtain rfl := Option.some.inj (Except.ok.inj h)
        obtain ⟨body, hlabel, hbody, heq⟩ := (readBlock_iff hdecode).mp hread
        refine ⟨rest.takeWhile isAsciiWhitespaceByte, body, fun b hb => List.mem_takeWhile_imp hb, hlabel, hbody, ?_⟩
        rw [← heq, List.takeWhile_append_dropWhile]
  · rintro ⟨blank, body, hblank, hlabel, hbody, rfl⟩
    have hstart : (blockText block.label body ++ after).dropWhile isAsciiWhitespaceByte =
        blockText block.label body ++ after := rfl
    rw [List.dropWhile_append_of_pos hblank, hstart, if_neg (by rw [List.isEmpty_iff]; exact List.cons_ne_nil _ _),
      (readBlock_iff hdecode).mpr ⟨body, hlabel, hbody, rfl⟩]
    rfl

theorem nextBlock_ne_panic (decode : Bytes → Except String Bytes) (role : String) (rest : Bytes) :
    nextBlock decode role rest ≠ .error .panic := by
  rw [nextBlock_eq]
  intro hpanic
  split at hpanic
  · cases hpanic
  · rcases hread : readBlock decode role (rest.dropWhile isAsciiWhitespaceByte) with e | read <;> rw [hread] at hpanic
    · obtain rfl := Except.error.inj hpanic
      exact readBlock_ne_panic _ _ _ hread
    · cases hpanic

/-- Every block takes bytes. -/
theorem length_after_lt (h : nextBlock decode role rest = .ok (some (block, after))) : after.length < rest.length := by
  rw [nextBlock_eq] at h
  split at h
  · cases h
  · have hdrop : (rest.dropWhile isAsciiWhitespaceByte).length ≤ rest.length := (List.dropWhile_suffix _).length_le
    rcases readBlock_cases decode role (rest.dropWhile isAsciiWhitespaceByte) with
      ⟨reason, hbad⟩ | ⟨label, body, after', heq, hlabel, hbody⟩
    · rw [hbad] at h
      cases h
    · have hlength : (blockText label body ++ after').length = (rest.dropWhile isAsciiWhitespaceByte).length := by rw [heq]
      have hbegin : BEGIN.length = 11 := rfl
      rw [heq, readBlock_of_markers hlabel hbody] at h
      simp only [blockText, List.length_append] at hlength
      split at h
      · cases h
      · rcases hder : decode (body.filter fun b => !isAsciiWhitespaceByte b) with e | der <;> rw [hder] at h
        · cases h
        · obtain ⟨-, rfl⟩ := Prod.mk.inj (Option.some.inj (Except.ok.inj h))
          omega

/-! ### The whole input -/

variable {fuel : Nat} {blocks seen : List PemBlock}

theorem parseBlocks_returns (h : rest.length < fuel) :
    ∃ outcome, parseBlocks decode role fuel rest seen = some outcome ∧ outcome ≠ .error .panic := by
  induction fuel generalizing rest seen with
  | zero => omega
  | succ fuel ih =>
    rcases hnext : nextBlock decode role rest with stop | (_ | ⟨block, after⟩)
    · refine ⟨.error stop, by rw [parseBlocks, hnext], fun hpanic => ?_⟩
      obtain rfl := Except.error.inj hpanic
      exact nextBlock_ne_panic _ _ _ hnext
    · refine ⟨_, by rw [parseBlocks, hnext], ?_⟩
      split
      · exact fun hpanic => by cases hpanic
      · exact fun hpanic => by cases hpanic
    · have hlt := length_after_lt hnext
      obtain ⟨outcome, hparse, hne⟩ := @ih after (seen ++ [block]) (by omega)
      exact ⟨outcome, by rw [parseBlocks, hnext, ← hparse], hne⟩

/-- What is returned behind blocks already seen is these and the blocks of the text that is left. -/
theorem parseBlocks_iff (hdecode : Canonical decode) (h : rest.length < fuel) :
    parseBlocks decode role fuel rest seen = some (.ok blocks) ↔
      ∃ more, PemText rest more ∧ blocks = seen ++ more ∧ blocks ≠ [] := by
  induction fuel generalizing rest seen with
  | zero => omega
  | succ fuel ih =>
    constructor
    · intro hparse
      rcases hnext : nextBlock decode role rest with stop | (_ | ⟨block, after⟩) <;> rw [parseBlocks, hnext] at hparse
      · cases hparse
      · have hblank := nextBlock_none_iff.mp hnext
        rcases seen with _ | ⟨first, seen⟩
        · cases hparse
        · obtain rfl := Except.ok.inj (Option.some.inj hparse)
          exact ⟨[], .done hblank, (List.append_nil _).symm, List.cons_ne_nil _ _⟩
      · have hlt := length_after_lt hnext
        obtain ⟨more, htext, rfl, hne⟩ := (ih (by omega)).mp hparse
        obtain ⟨blank, body, hblank, hlabel, hbody, rfl⟩ := (nextBlock_some_iff hdecode).mp hnext
        exact ⟨block :: more, .block hblank hlabel hbody htext, by simp, hne⟩
    · rintro ⟨more, htext, rfl, hne⟩
      rcases htext with hblank | ⟨hblank, hlabel, hbody, hrest⟩
      · rw [parseBlocks, nextBlock_none_iff.mpr hblank]
        rw [List.append_nil] at hne ⊢
        simp [hne]
      next blank label body der left blocks =>
        have hnext : nextBlock decode role (blank ++ (blockText label body ++ left)) = .ok (some (⟨label, der⟩, left)) :=
          (nextBlock_some_iff hdecode).mpr ⟨blank, body, hblank, hlabel, hbody, rfl⟩
        have hlt := length_after_lt hnext
        rw [parseBlocks, hnext]
        exact (ih (by omega)).mpr ⟨blocks, hrest, by simp, hne⟩

end Parser

/-! ### The standard encoding -/

theorem filter_lines {bs : Bytes} {width left : Nat} (h : ∀ b ∈ bs, isAsciiWhitespaceByte b = false) :
    (lines width left bs).filter (fun b => !isAsciiWhitespaceByte b) = bs := by
  induction bs generalizing left with
  | nil => rfl
  | cons b bs ih =>
    obtain ⟨hb, hbs⟩ := List.forall_mem_cons.mp h
    rcases left with _ | left
    · rw [lines, List.filter_cons_of_neg (by decide), List.filter_cons_of_pos (by simp [hb]), ih hbs]
    · rw [lines, List.filter_cons_of_pos (by simp [hb]), ih hbs]

theorem alphabet_not_blank {b : UInt8} (h : Base64.Alphabet b) : isAsciiWhitespaceByte b = false := by
  have hb := h.toNat.1
  by_contra hblank
  simp only [isAsciiWhitespaceByte, Bool.not_eq_false, Bool.or_eq_true, beq_iff_eq] at hblank
  rcases hblank with (((rfl | rfl) | rfl) | rfl) | rfl <;> revert hb <;> decide

theorem pemText_standard {blocks : List PemBlock} (h : ∀ block ∈ blocks, ValidLabel block.label) :
    PemText (standardText blocks) blocks := by
  have hfeed : Blank [LINE_FEED] := by simp [Blank]; decide
  -- The line feed behind a block is whitespace before the next.
  have hbehind : ∀ blank, Blank blank → PemText (blank ++ standardText blocks) blocks := by
    induction blocks with
    | nil => exact fun blank hblank => by simpa [standardText] using PemText.done hblank
    | cons block blocks ih =>
      intro blank hblank
      obtain ⟨hlabel, hblocks⟩ := List.forall_mem_cons.mp h
      have hbody : (LINE_FEED :: if block.der = [] then [] else lines 64 64 (Base64.encode block.der)).filter
          (fun b => !isAsciiWhitespaceByte b) = Base64.encode block.der := by
        rw [List.filter_cons_of_neg (by decide)]
        split
        next hder => rw [hder]; rfl
        next => exact filter_lines fun b hb => alphabet_not_blank (Base64.alphabet_encode hb)
      have hrest := ih hblocks [LINE_FEED] hfeed
      have htext := PemText.block hblank hlabel hbody hrest
      simpa [standardText, standardBlock] using htext
  exact hbehind [] (by simp [Blank])

/-- With the standard engine, the parser accepts exactly the nonempty PEM texts. -/
theorem parsePemStrict_parses (decode : Bytes → Except String Bytes) (role : String) (hdecode : Canonical decode) :
    ParsesPem decode role where
  returns _ _ hfuel := parseBlocks_returns hfuel
  accepts input fuel blocks hfuel := by
    rw [parsePemStrict, parseBlocks_iff hdecode hfuel]
    constructor
    · rintro ⟨more, htext, rfl, hne⟩
      exact ⟨hne, htext⟩
    · rintro ⟨hne, htext⟩
      exact ⟨blocks, htext, rfl, hne⟩
  standard blocks fuel hne hlabels hfuel :=
    (parseBlocks_iff hdecode hfuel).mpr ⟨blocks, pemText_standard hlabels, rfl, hne⟩

/-- An engine of that kind. -/
def strictDecode (text : Bytes) : Except String Bytes :=
  (Base64.decode text).elim (.error "Invalid input.") .ok

theorem strictDecode_canonical : Canonical strictDecode := by
  intro text der
  rw [← Base64.decode_iff, strictDecode]
  rcases Base64.decode text with _ | bytes <;> simp

theorem parsePemStrict_parses_strict : ParsesPem strictDecode "anchor" :=
  parsePemStrict_parses strictDecode "anchor" strictDecode_canonical

/-- The bodies are returned if every block carries the label. -/
theorem requireAll_iff {blocks : List PemBlock} {label : Bytes} {role : String} {ders : List Bytes} :
    requireAll blocks label role = .ok ders ↔ (∀ block ∈ blocks, block.label = label) ∧ ders = blocks.map PemBlock.der := by
  unfold requireAll
  split
  next block hfind =>
    have hmem := List.mem_of_find?_eq_some hfind
    have hne : block.label ≠ label := by simpa using List.find?_some hfind
    simp only [reduceCtorEq, false_iff]
    exact fun h => hne (h.1 block hmem)
  next hfind =>
    have hall : ∀ block ∈ blocks, block.label = label := by simpa using hfind
    rw [Except.ok.injEq]
    exact ⟨fun h => ⟨hall, h.symm⟩, fun h => h.2.symm⟩

end Pem
end DeployCore
