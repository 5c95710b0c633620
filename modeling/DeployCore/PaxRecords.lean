import DeployCore.Lib.Decimal
import DeployCore.TarRules

/-! # PAX record sets (`src/content/walker.rs`)

`parsePax` reads exactly the concatenations of records `<len> <key>=<value>\n`, each of which counts its own length, and
supplies the values of three keys. -/

namespace DeployCore

structure PaxRecord where
  key : Bytes
  value : Bytes
  deriving DecidableEq

/-- What follows the length. -/
def PaxRecord.body (record : PaxRecord) : Bytes :=
  SPACE :: record.key ++ EQUALS :: record.value ++ [NEWLINE]

def PaxRecord.encode (record : PaxRecord) (len : Nat) : Bytes :=
  Decimal.write len ++ record.body

/-- The records' encodings one after another, each under its own length. -/
inductive Written : List PaxRecord → Bytes → Prop
  | nil : Written [] []
  | cons {record records bytes} (len : Nat) (h : (record.encode len).length = len) (hrest : Written records bytes) :
    Written (record :: records) (record.encode len ++ bytes)

/-- The encoding that a writer chooses. -/
def PaxRecord.standard (record : PaxRecord) : Bytes :=
  record.encode (Decimal.selfLength record.body.length)

/-- `-?[0-9]+(\.[0-9]+)?`. -/
def PaxTime (value : Bytes) : Prop :=
  ∃ sign whole fraction, value = sign ++ whole ++ fraction ∧ (sign = [] ∨ sign = [MINUS]) ∧
    (whole ≠ [] ∧ ∀ byte ∈ whole, isDigit byte = true) ∧
    (fraction = [] ∨ ∃ digits, fraction = DOT :: digits ∧ digits ≠ [] ∧ ∀ byte ∈ digits, isDigit byte = true)

/-- The values a key takes. -/
def PaxKey.Takes (key : PaxKey) (value : Bytes) : Prop :=
  match key with
  | .path | .linkpath => NUL ∉ value
  | .size | .uid | .gid => value ≠ [] ∧ (∀ byte ∈ value, isDigit byte = true) ∧ Decimal.value value < 2 ^ 64
  | .mtime | .atime | .ctime => PaxTime value
  | .uname | .gname | .xattr => True

/-- A record of a known key, which ends at the first equals sign, and a value of that key's; a pending long name or link
admits no path or link path beside it. -/
structure PaxRecord.Admissible (longNamePending longLinkPending : Bool) (record : PaxRecord) : Prop where
  key : record.key ≠ []
  equals : EQUALS ∉ record.key
  takes : ∃ key, paxKey record.key = some key ∧ key.Takes record.value
  path : longNamePending = true → record.key ≠ asBytes "path"
  linkpath : longLinkPending = true → record.key ≠ asBytes "linkpath"

/-- The value of a key, where a record has it. -/
def valueOf (key : String) (records : List PaxRecord) : Option Bytes :=
  (records.find? (·.key = asBytes key)).map PaxRecord.value

def Pax.ofRecords (records : List PaxRecord) : Pax :=
  ⟨valueOf "path" records, valueOf "linkpath" records, (valueOf "size" records).map Decimal.value⟩

/-! ### Numerals -/

theorem isDigit_iff {byte : UInt8} : isDigit byte = true ↔ 48 ≤ byte.toNat ∧ byte.toNat ≤ 57 := by
  rw [isDigit, Bool.and_eq_true, decide_eq_true_eq, decide_eq_true_eq]
  exact Iff.rfl

theorem accumulate_eq_read {digits : Bytes} (h : ∀ byte ∈ digits, isDigit byte = true) (acc : Nat) :
    accumulate 10 acc (digits.map fun digit => (digit - ZERO).toNat) = Decimal.read (U64_MAX + 1) acc digits := by
  induction digits generalizing acc with
  | nil => rfl
  | cons byte digits ih =>
    obtain ⟨hbyte, hdigits⟩ := List.forall_mem_cons.mp h
    have hrange := isDigit_iff.mp hbyte
    have hsub : (byte - ZERO).toNat = byte.toNat - 48 := UInt8.toNat_sub_of_le _ _ hrange.1
    rw [List.map_cons, accumulate, Decimal.read, hsub, ih hdigits, Nat.mul_comm acc]
    simp only [if_pos hrange, Nat.lt_succ_iff]

theorem parseDecimal_eq_some_iff {digits : Bytes} {n : Nat} : parseDecimal digits = some n ↔
    digits ≠ [] ∧ (∀ byte ∈ digits, isDigit byte = true) ∧ Decimal.value digits = n ∧ n < 2 ^ 64 := by
  unfold parseDecimal
  split_ifs with hbad
  · refine ⟨nofun, fun ⟨hne, hdigits, _⟩ => ?_⟩
    simp [hne, List.all_eq_true.mpr hdigits] at hbad
  · rw [Bool.or_eq_true, not_or, Bool.not_eq_true', Bool.not_eq_false, List.all_eq_true, List.isEmpty_iff] at hbad
    rw [accumulate_eq_read hbad.2, Decimal.read_eq_some_iff (Nat.succ_pos _)]
    have hdigits : ∀ byte ∈ digits, 48 ≤ byte.toNat ∧ byte.toNat ≤ 57 := fun byte hmem => isDigit_iff.mp (hbad.2 byte hmem)
    exact ⟨fun h => ⟨hbad.1, hbad.2, h.2⟩, fun h => ⟨hdigits, h.2.2⟩⟩

theorem isDigit_write {n : Nat} {byte : UInt8} (h : byte ∈ Decimal.write n) : isDigit byte = true :=
  isDigit_iff.mpr (Decimal.mem_write h)

theorem value_write {n : Nat} : Decimal.value (Decimal.write n) = n := by
  have hread : Decimal.read (n + 1) 0 (Decimal.write n) = some n := Decimal.read_write (by omega)
  exact ((Decimal.read_eq_some_iff (Nat.succ_pos n)).mp hread).2.1

/-- A run of digits that a length is read from is its numeral. -/
theorem write_of_parseDecimal {digits : Bytes} {n : Nat} (h : parseDecimal digits = some n)
    (hhead : digits.head? ≠ some ZERO) : digits = Decimal.write n ∧ n ≠ 0 := by
  obtain ⟨hne, hdigits, rfl, -⟩ := parseDecimal_eq_some_iff.mp h
  obtain ⟨hwrite, hpos⟩ := Decimal.write_value (fun byte hmem => isDigit_iff.mp (hdigits byte hmem)) hne hhead
  exact ⟨hwrite.symm, hpos⟩

theorem parseDecimal_write {n : Nat} (hn : n < 2 ^ 64) : parseDecimal (Decimal.write n) = some n :=
  parseDecimal_eq_some_iff.mpr ⟨Decimal.write_ne_nil, fun _ => isDigit_write, value_write, hn⟩

/-! ### One record -/

theorem stripSuffix_eq_some_iff {byte : UInt8} {name stem : Bytes} :
    stripSuffix byte name = some stem ↔ name = stem ++ [byte] := by
  unfold stripSuffix
  constructor
  · intro h
    split at h
    · next hlast =>
      cases h
      exact (List.dropLast_append_getLast? byte hlast).symm
    · cases h
  · rintro rfl
    rw [if_pos List.getLast?_concat, List.dropLast_concat]

theorem takeWhile_append_cons {α : Type} {p : α → Bool} {as bs : List α} {b : α} (has : ∀ a ∈ as, p a = true)
    (hb : p b = false) : (as ++ b :: bs).takeWhile p = as ∧ (as ++ b :: bs).dropWhile p = b :: bs := by
  rw [List.takeWhile_append_of_pos has, List.dropWhile_append_of_pos has, List.takeWhile_cons_of_neg (by simp [hb]),
    List.dropWhile_cons_of_neg (by simp [hb]), List.append_nil]
  exact ⟨rfl, rfl⟩

/-- Where the key ends and what the value is. -/
def splitKey (stem : Bytes) : Option (Bytes × Bytes) :=
  match stem.dropWhile (· != EQUALS) with
  | [] => none
  | _ :: value => if stem.head? = some EQUALS then none else some (stem.takeWhile (· != EQUALS), value)

theorem splitPaxBody_eq (body : Bytes) : splitPaxBody body =
    if body.head? = some SPACE then (stripSuffix NEWLINE body.tail).bind splitKey else none := by
  unfold splitPaxBody
  split <;> rfl

theorem splitKey_eq_some_iff {stem key value : Bytes} :
    splitKey stem = some (key, value) ↔ stem = key ++ EQUALS :: value ∧ key ≠ [] ∧ EQUALS ∉ key := by
  unfold splitKey
  constructor
  · intro h
    split at h
    · cases h
    next b value' hdrop =>
    split at h
    · cases h
    next hkey =>
    obtain ⟨rfl, rfl⟩ := Prod.mk.inj (Option.some.inj h)
    have hsplit := List.takeWhile_append_dropWhile (p := (· != EQUALS)) (l := stem)
    have hb : b = EQUALS := by
      have hnot := List.head?_dropWhile_not (· != EQUALS) stem
      rw [hdrop] at hnot
      simpa using hnot
    rw [hdrop, hb] at hsplit
    refine ⟨hsplit.symm, fun hnil => ?_, fun hmem => ?_⟩
    · rw [hnil, List.nil_append] at hsplit
      exact hkey (hsplit ▸ rfl)
    · simpa using List.mem_takeWhile_imp hmem
  · rintro ⟨rfl, hne, hequals⟩
    have hkey : ∀ b ∈ key, (b != EQUALS) = true := fun b hb => bne_iff_ne.mpr fun heq => hequals (heq ▸ hb)
    obtain ⟨htake, hdrop⟩ := @takeWhile_append_cons _ _ _ value EQUALS hkey (by simp)
    obtain ⟨b, key', rfl⟩ := List.exists_cons_of_ne_nil hne
    have hb : ¬some b = some EQUALS := fun heq => hequals (Option.some.inj heq ▸ List.mem_cons_self)
    rw [htake, hdrop]
    exact if_neg hb

theorem splitPaxBody_eq_some_iff {body key value : Bytes} : splitPaxBody body = some (key, value) ↔
    body = (PaxRecord.mk key value).body ∧ key ≠ [] ∧ EQUALS ∉ key := by
  rw [splitPaxBody_eq]
  constructor
  · intro h
    split at h
    · next hhead =>
      obtain ⟨rest, rfl⟩ := List.head?_eq_some_iff.mp hhead
      obtain ⟨stem, hstem, h⟩ := Option.bind_eq_some_iff.mp h
      obtain ⟨rfl, hne, hequals⟩ := splitKey_eq_some_iff.mp h
      exact ⟨congrArg (SPACE :: ·) (stripSuffix_eq_some_iff.mp hstem), hne, hequals⟩
    · cases h
  · rintro ⟨rfl, hkey⟩
    have hstem : stripSuffix NEWLINE (PaxRecord.mk key value).body.tail = some (key ++ EQUALS :: value) :=
      stripSuffix_eq_some_iff.mpr rfl
    have hhead : (PaxRecord.mk key value).body.head? = some SPACE := rfl
    rw [if_pos hhead, hstem]
    exact splitKey_eq_some_iff.mpr ⟨rfl, hkey⟩

/-- What one record leaves of a payload. -/
theorem splitPaxRecord_eq_some_iff {payload key value tail : Bytes} (hpayload : payload.length < 2 ^ 64) :
    splitPaxRecord payload = some (key, value, tail) ↔
      ∃ len, ((PaxRecord.mk key value).encode len).length = len ∧ payload = (PaxRecord.mk key value).encode len ++ tail ∧
        key ≠ [] ∧ EQUALS ∉ key := by
  unfold splitPaxRecord
  constructor
  · intro h
    dsimp only at h
    split at h
    · cases h
    next hhead =>
    obtain ⟨len, hlen, h⟩ := Option.bind_eq_some_iff.mp h
    split at h
    · cases h
    next hrange =>
    obtain ⟨⟨key', value'⟩, hsplit, h⟩ := Option.bind_eq_some_iff.mp h
    obtain ⟨hbody, hkey⟩ := splitPaxBody_eq_some_iff.mp hsplit
    obtain ⟨hdigits, -⟩ := write_of_parseDecimal hlen hhead
    have htaken : (payload.take len).take (payload.takeWhile isDigit).length = payload.takeWhile isDigit := by
      rw [List.take_take, Nat.min_eq_left (by omega)]
      exact (List.prefix_iff_eq_take.mp (List.takeWhile_prefix _)).symm
    have hencode : (PaxRecord.mk key' value').encode len = payload.take len := by
      show Decimal.write len ++ (PaxRecord.mk key' value').body = _
      have hsplit := List.take_append_drop (payload.takeWhile isDigit).length (payload.take len)
      rw [htaken] at hsplit
      rw [← hbody, ← hdigits, hsplit]
    cases h
    refine ⟨len, ?_, ?_, hkey⟩
    · show ((PaxRecord.mk key' value').encode len).length = len
      rw [hencode, List.length_take]
      omega
    · show payload = (PaxRecord.mk key' value').encode len ++ payload.drop len
      rw [hencode, List.take_append_drop]
  · rintro ⟨len, hlen, rfl, hkey⟩
    have hdigits : ((PaxRecord.mk key value).encode len ++ tail).takeWhile isDigit = Decimal.write len := by
      rw [PaxRecord.encode, List.append_assoc]
      exact (takeWhile_append_cons (fun _ => isDigit_write) (by decide)).1
    have hlt : len < 2 ^ 64 := by
      rw [List.length_append, hlen] at hpayload
      omega
    have hpos : len ≠ 0 := by
      rw [← hlen, PaxRecord.encode, List.length_append]
      have := Decimal.length_write_pos (n := len)
      omega
    have htake : ((PaxRecord.mk key value).encode len ++ tail).take len = (PaxRecord.mk key value).encode len :=
      List.take_left' hlen
    have hdrop : ((PaxRecord.mk key value).encode len ++ tail).drop len = tail := List.drop_left' hlen
    have hbody : ((PaxRecord.mk key value).encode len).drop (Decimal.write len).length = (PaxRecord.mk key value).body :=
      List.drop_left
    have hrange : ¬(((PaxRecord.mk key value).encode len ++ tail).length < len ∨ len < (Decimal.write len).length) := by
      have hwrite : (Decimal.write len).length ≤ ((PaxRecord.mk key value).encode len).length := by
        rw [PaxRecord.encode, List.length_append]
        omega
      rw [List.length_append]
      omega
    have hhead : ¬(Decimal.write len).head? = some ZERO := Decimal.head?_write hpos
    simp only [hdigits, if_neg hhead, parseDecimal_write hlt, Option.bind_eq_bind, Option.bind_some, if_neg hrange, htake,
      hdrop, hbody, splitPaxBody_eq_some_iff.mpr ⟨rfl, hkey⟩]

/-! ### What a record supplies -/

/-- A record's value, where its key is one of the three. -/
def Pax.supply (pax : Pax) (record : PaxRecord) : Pax :=
  match paxKey record.key with
  | some .path => { pax with path := some record.value }
  | some .linkpath => { pax with linkpath := some record.value }
  | some .size => { pax with size := some (Decimal.value record.value) }
  | _ => pax

theorem allDigits_iff {part : Bytes} :
    (!part.isEmpty && part.all isDigit) = true ↔ part ≠ [] ∧ ∀ byte ∈ part, isDigit byte = true := by
  rw [Bool.and_eq_true, Bool.not_eq_true', List.isEmpty_eq_false_iff, List.all_eq_true]

/-- What is left of a time without its sign. -/
theorem isPaxTime_unsigned {whole fraction : Bytes} (hwhole : ∀ byte ∈ whole, byte ≠ DOT)
    (hfraction : fraction = [] ∨ ∃ digits, fraction = DOT :: digits) {unsigned : Bytes} (h : unsigned = whole ++ fraction) :
    unsigned.takeWhile (· != DOT) = whole ∧ unsigned.dropWhile (· != DOT) = fraction := by
  subst h
  have hall : ∀ byte ∈ whole, (byte != DOT) = true := fun byte hmem => bne_iff_ne.mpr (hwhole byte hmem)
  rcases hfraction with rfl | ⟨digits, rfl⟩
  · rw [List.append_nil]
    exact ⟨List.takeWhile_eq_self_iff.mpr hall, List.dropWhile_eq_nil_iff.mpr hall⟩
  · exact takeWhile_append_cons hall (by simp)

theorem isPaxTime_iff {value : Bytes} : isPaxTime value = true ↔ PaxTime value := by
  have hdot {byte : UInt8} (h : isDigit byte = true) : byte ≠ DOT := by
    rintro rfl
    exact absurd h (by decide)
  have hminus {byte : UInt8} (h : isDigit byte = true) : byte ≠ MINUS := by
    rintro rfl
    exact absurd h (by decide)
  obtain ⟨sign, unsigned, hunsigned, hsign, hvalue⟩ : ∃ sign unsigned,
      (if value.head? = some MINUS then value.tail else value) = unsigned ∧ (sign = [] ∨ sign = [MINUS]) ∧
        value = sign ++ unsigned := by
    split_ifs with hhead
    · obtain ⟨rest, rfl⟩ := List.head?_eq_some_iff.mp hhead
      exact ⟨[MINUS], _, rfl, .inr rfl, rfl⟩
    · exact ⟨[], _, rfl, .inl rfl, rfl⟩
  have htime : isPaxTime value = true ↔
      (unsigned.takeWhile (· != DOT) ≠ [] ∧ ∀ byte ∈ unsigned.takeWhile (· != DOT), isDigit byte = true) ∧
        ∀ b digits, unsigned.dropWhile (· != DOT) = b :: digits → digits ≠ [] ∧ ∀ byte ∈ digits, isDigit byte = true := by
    unfold isPaxTime
    simp only [hunsigned]
    cases hdrop : unsigned.dropWhile (· != DOT) with
    | nil => simp
    | cons b digits =>
      rw [Bool.and_eq_true, allDigits_iff, allDigits_iff]
      exact and_congr_right fun _ => ⟨by rintro h _ _ ⟨⟩; exact h, fun h => h b digits rfl⟩
  rw [htime]
  constructor
  · rintro ⟨hwhole, hfraction⟩
    refine ⟨sign, unsigned.takeWhile (· != DOT), unsigned.dropWhile (· != DOT), ?_, hsign, hwhole, ?_⟩
    · rw [List.append_assoc, List.takeWhile_append_dropWhile, hvalue]
    · cases hdrop : unsigned.dropWhile (· != DOT) with
      | nil => exact .inl rfl
      | cons b digits =>
        have hb : b = DOT := by
          have hnot := List.head?_dropWhile_not (· != DOT) unsigned
          rw [hdrop] at hnot
          simpa using hnot
        exact .inr ⟨digits, by rw [hb], hfraction b digits hdrop⟩
  · rintro ⟨sign', whole, fraction, hvalue', hsign', hwhole, hfraction⟩
    have hrest : unsigned = whole ++ fraction := by
      obtain ⟨byte, whole', rfl⟩ := List.exists_cons_of_ne_nil hwhole.1
      have hbyte := hminus (hwhole.2 byte List.mem_cons_self)
      subst hvalue'
      rw [← hunsigned]
      rcases hsign' with rfl | rfl
      · exact if_neg fun h => hbyte (Option.some.inj h)
      · rfl
    have hcut := isPaxTime_unsigned (fun byte hmem => hdot (hwhole.2 byte hmem))
      (hfraction.imp_right (Exists.imp fun _ => And.left)) hrest
    rw [hcut.1, hcut.2]
    refine ⟨hwhole, fun b digits hcons => ?_⟩
    rcases hfraction with rfl | ⟨digits', rfl, hdigits⟩
    · cases hcons
    · cases hcons
      exact hdigits

theorem ite_eq_some {p : Prop} [Decidable p] {key key' : PaxKey} {rest : Option PaxKey} :
    (if p then some key else rest) = some key' ↔ p ∧ key = key' ∨ ¬p ∧ rest = some key' := by
  split_ifs with hp <;> simp [hp]

theorem paxKey_supplied {key : Bytes} : (paxKey key = some .path ↔ key = asBytes "path") ∧
    (paxKey key = some .linkpath ↔ key = asBytes "linkpath") ∧ (paxKey key = some .size ↔ key = asBytes "size") := by
  simp only [paxKey, ite_eq_some, reduceCtorEq, and_false, or_false, false_or, and_true, true_and]
  refine ⟨and_iff_right_of_imp ?_, ?_⟩
  · rintro rfl
    decide +kernel
  · rw [← and_assoc]
    refine and_iff_right_of_imp ?_
    rintro rfl
    decide +kernel

theorem Pax.apply_eq_ok_iff {pax pax' : Pax} {longName longLink : Bool} {record : PaxRecord} {key : PaxKey}
    (hkey : paxKey record.key = some key) : pax.apply longName longLink key record.value = .ok pax' ↔
      key.Takes record.value ∧ (longName = true → key ≠ .path) ∧ (longLink = true → key ≠ .linkpath) ∧
        pax' = pax.supply record := by
  have hnumber {digits : Bytes} : (parseDecimal digits).isSome = true ↔
      digits ≠ [] ∧ (∀ byte ∈ digits, isDigit byte = true) ∧ Decimal.value digits < 2 ^ 64 := by
    rw [Option.isSome_iff_exists]
    simp only [parseDecimal_eq_some_iff]
    constructor
    · rintro ⟨_, hne, hdigits, rfl, hlt⟩
      exact ⟨hne, hdigits, hlt⟩
    · rintro ⟨hne, hdigits, hlt⟩
      exact ⟨_, hne, hdigits, rfl, hlt⟩
  have hunless {p : Prop} [Decidable p] {pax₁ : Pax} {fault : ContentFault} :
      (if p then .error fault else .ok pax₁) = Except.ok pax' ↔ ¬p ∧ pax' = pax₁ := by
    split_ifs with hp
    · simp [hp]
    · rw [Except.ok.injEq, eq_comm]
      exact (and_iff_right hp).symm
  have hwhen {p : Prop} [Decidable p] {pax₁ : Pax} {fault : ContentFault} :
      (if p then .ok pax₁ else .error fault) = Except.ok pax' ↔ p ∧ pax' = pax₁ := by
    rw [← ite_not, hunless, not_not]
  cases key with
  | path =>
    cases longName with
    | false => simp [apply, supply, hkey, PaxKey.Takes, hunless]
    | true =>
      simp only [apply, if_true, PaxKey.Takes, ne_eq, not_true_eq_false, imp_false]
      split_ifs <;> simp
  | linkpath =>
    cases longLink with
    | false => simp [apply, supply, hkey, PaxKey.Takes, hunless]
    | true =>
      simp only [apply, if_true, PaxKey.Takes, ne_eq, not_true_eq_false, imp_false]
      split_ifs <;> simp
  | size =>
    simp only [apply, supply, hkey, PaxKey.Takes]
    split
    · next number hparse =>
      obtain ⟨hne, hdigits, rfl, hlt⟩ := parseDecimal_eq_some_iff.mp hparse
      have hother : PaxKey.size ≠ .path ∧ PaxKey.size ≠ .linkpath := by simp
      exact ⟨fun h => ⟨⟨hne, hdigits, hlt⟩, fun _ => hother.1, fun _ => hother.2, (Except.ok.inj h).symm⟩,
        fun h => congrArg _ h.2.2.2.symm⟩
    · next hparse =>
      refine ⟨fun h => (by cases h), fun h => ?_⟩
      rw [← hnumber, hparse] at h
      cases h.1
  | uid | gid => simp [apply, supply, hkey, PaxKey.Takes, hnumber, hwhen]
  | mtime | atime | ctime => simp [apply, supply, hkey, PaxKey.Takes, isPaxTime_iff, hwhen]
  | uname | gname | xattr =>
    simp only [apply, supply, hkey, PaxKey.Takes, Except.ok.injEq, ne_eq, reduceCtorEq, not_false_eq_true, implies_true,
      true_and]
    exact eq_comm

theorem Pax.supply_fields (pax : Pax) (record : PaxRecord) :
    ((pax.supply record).path = if record.key = asBytes "path" then some record.value else pax.path) ∧
    ((pax.supply record).linkpath = if record.key = asBytes "linkpath" then some record.value else pax.linkpath) ∧
    ((pax.supply record).size =
      if record.key = asBytes "size" then some (Decimal.value record.value) else pax.size) := by
  simp only [← paxKey_supplied.1, ← paxKey_supplied.2.1, ← paxKey_supplied.2.2]
  rw [supply]
  split
  · next h => simp [h]
  · next h => simp [h]
  · next h => simp [h]
  · next hpath hlink hsize => exact ⟨(if_neg hpath).symm, (if_neg hlink).symm, (if_neg hsize).symm⟩

section Supply
variable {records : List PaxRecord} {record : PaxRecord} {name : String}

theorem valueOf_cons :
    valueOf name (record :: records) = if record.key = asBytes name then some record.value else valueOf name records := by
  rw [valueOf, List.find?_cons]
  split_ifs with h
  · simp [h]
  · simp [h, valueOf]

theorem valueOf_eq_none (h : asBytes name ∉ records.map PaxRecord.key) : valueOf name records = none := by
  rw [valueOf, Option.map_eq_none_iff, List.find?_eq_none]
  intro record hmem
  have hne : record.key ≠ asBytes name := fun heq => h (List.mem_map.mpr ⟨record, hmem, heq⟩)
  simpa using hne

/-- A field that one key supplies ends up with that key's value. -/
theorem foldl_supply {α : Type} {field : Pax → Option α} {read : Bytes → α}
    (hfield : ∀ pax record, field (Pax.supply pax record) =
      if record.key = asBytes name then some (read record.value) else field pax)
    (hnodup : (records.map PaxRecord.key).Nodup) (pax : Pax) :
    field (records.foldl Pax.supply pax) = ((valueOf name records).map read).or (field pax) := by
  induction records generalizing pax with
  | nil => rfl
  | cons record records ih =>
    obtain ⟨hnot, hnodup⟩ := List.nodup_cons.mp hnodup
    rw [List.foldl_cons, ih hnodup, hfield, valueOf_cons]
    split_ifs with hkey
    · rw [valueOf_eq_none (hkey ▸ hnot)]
      rfl
    · rfl

theorem foldl_supply_default (hnodup : (records.map PaxRecord.key).Nodup) :
    records.foldl Pax.supply .default = Pax.ofRecords records := by
  have hpath := @foldl_supply _ _ _ Pax.path id (fun pax r => (pax.supply_fields r).1) hnodup .default
  have hlink := @foldl_supply _ _ _ Pax.linkpath id (fun pax r => (pax.supply_fields r).2.1) hnodup .default
  have hsize := @foldl_supply _ _ _ Pax.size _ (fun pax r => (pax.supply_fields r).2.2) hnodup .default
  rw [Option.map_id_fun, id, show Pax.default.path = none from rfl, Option.or_none] at hpath
  rw [Option.map_id_fun, id, show Pax.default.linkpath = none from rfl, Option.or_none] at hlink
  rw [show Pax.default.size = none from rfl, Option.or_none] at hsize
  rw [Pax.ofRecords, ← hpath, ← hlink, ← hsize]

end Supply

/-! ### The whole payload -/

section Payload
variable {longName longLink : Bool} {records : List PaxRecord} {record : PaxRecord} {payload rest : Bytes} {pax pax' : Pax}

theorem length_encode_pos (len : Nat) : 0 < (record.encode len).length := by
  rw [PaxRecord.encode, List.length_append]
  have := Decimal.length_write_pos (n := len)
  omega

theorem Written.ne_nil (h : Written (record :: records) rest) : rest ≠ [] := by
  cases h with
  | cons len _ _ =>
    refine List.ne_nil_of_length_pos ?_
    rw [List.length_append]
    exact Nat.add_pos_left (length_encode_pos len) _

/-- The loop takes a record of a written set and goes on with the others. -/
theorem parsePaxFrom_iff {fuel : Nat} {keys : List Bytes} (hfuel : rest.length ≤ fuel) (hlen : rest.length < 2 ^ 64) :
    parsePaxFrom longName longLink fuel rest keys pax = .ok pax' ↔
      ∃ records, Written records rest ∧ (∀ record ∈ records, record.Admissible longName longLink ∧ record.key ∉ keys) ∧
        (records.map PaxRecord.key).Nodup ∧ pax' = records.foldl Pax.supply pax := by
  have hnil {fuel : Nat} {keys : List Bytes} {pax : Pax} : parsePaxFrom longName longLink fuel [] keys pax = .ok pax' ↔
      ∃ records, Written records [] ∧ (∀ record ∈ records, record.Admissible longName longLink ∧ record.key ∉ keys) ∧
        (records.map PaxRecord.key).Nodup ∧ pax' = records.foldl Pax.supply pax := by
    have hdone : parsePaxFrom longName longLink fuel [] keys pax = .ok pax := by cases fuel <;> rfl
    rw [hdone, Except.ok.injEq]
    constructor
    · rintro rfl
      exact ⟨[], .nil, fun _ h => absurd h List.not_mem_nil, List.nodup_nil, rfl⟩
    · rintro ⟨_ | ⟨record, records⟩, hwritten, -, -, rfl⟩
      · rfl
      · exact absurd rfl hwritten.ne_nil
  induction fuel generalizing rest keys pax with
  | zero =>
    obtain rfl := List.length_eq_zero_iff.mp (Nat.le_zero.mp hfuel)
    exact hnil
  | succ fuel ih =>
    rcases rest with _ | ⟨b, rest⟩
    · exact hnil
    have hsplits {key value tail : Bytes} := @splitPaxRecord_eq_some_iff (b :: rest) key value tail hlen
    rw [parsePaxFrom_cons]
    constructor
    · intro h
      split at h
      · cases h
      next key value tail hsplit =>
      obtain ⟨len, hself, hpayload, hne, hequals⟩ := hsplits.mp hsplit
      have hshort : tail.length < (b :: rest).length := by
        rw [hpayload, List.length_append]
        exact Nat.lt_add_of_pos_left (length_encode_pos len)
      split at h
      · cases h
      next hfresh =>
      split at h
      · cases h
      next which hkey =>
      split at h
      · cases h
      next next happly =>
      obtain ⟨htakes, hpath, hlink, rfl⟩ := (@Pax.apply_eq_ok_iff _ _ _ _ ⟨key, value⟩ _ hkey).mp happly
      obtain ⟨records, hwritten, hall, hnodup, rfl⟩ := (ih (by omega) (by omega)).mp h
      have hadmissible : (PaxRecord.mk key value).Admissible longName longLink := by
        refine ⟨hne, hequals, ⟨which, hkey, htakes⟩, fun hname heq => ?_, fun hname heq => ?_⟩
        · exact hpath hname (Option.some.inj (hkey.symm.trans (paxKey_supplied.1.mpr heq)))
        · exact hlink hname (Option.some.inj (hkey.symm.trans (paxKey_supplied.2.1.mpr heq)))
      refine ⟨⟨key, value⟩ :: records, hpayload ▸ .cons len hself hwritten, ?_, ?_, rfl⟩
      · refine List.forall_mem_cons.mpr ⟨⟨hadmissible, hfresh⟩, fun record hmem => ?_⟩
        obtain ⟨hadmissible, hnot⟩ := hall record hmem
        exact ⟨hadmissible, fun hmem => hnot (List.mem_cons_of_mem _ hmem)⟩
      · refine List.nodup_cons.mpr ⟨fun hmem => ?_, hnodup⟩
        obtain ⟨record, hmem, heq⟩ := List.mem_map.mp hmem
        exact (hall record hmem).2 (heq ▸ List.mem_cons_self)
    · rintro ⟨records, hwritten, hall, hnodup, rfl⟩
      generalize hpayload : b :: rest = payload at *
      cases hwritten with
      | nil => cases hpayload
      | @cons record records tail len hself hwritten =>
      obtain ⟨⟨hadmissible, hfresh⟩, hall⟩ := List.forall_mem_cons.mp hall
      obtain ⟨hnot, hnodup⟩ := List.nodup_cons.mp hnodup
      obtain ⟨which, hkey, htakes⟩ := hadmissible.takes
      have hsplit := hsplits.mpr ⟨len, hself, rfl, hadmissible.key, hadmissible.equals⟩
      have happly := (@Pax.apply_eq_ok_iff pax _ _ _ _ _ hkey).mpr ⟨htakes, fun hname heq => hadmissible.path hname
        (paxKey_supplied.1.mp (heq ▸ hkey)), fun hname heq => hadmissible.linkpath hname
        (paxKey_supplied.2.1.mp (heq ▸ hkey)), rfl⟩
      have hshort : tail.length < (record.encode len ++ tail).length := by
        rw [List.length_append]
        exact Nat.lt_add_of_pos_left (length_encode_pos len)
      simp only [hsplit, if_neg hfresh, hkey, happly]
      refine (ih (by omega) (by omega)).mpr ⟨records, hwritten, fun record' hmem => ⟨(hall record' hmem).1, ?_⟩, hnodup, rfl⟩
      rw [List.mem_cons, not_or]
      exact ⟨fun heq => hnot (heq ▸ List.mem_map_of_mem hmem), (hall record' hmem).2⟩

theorem splitPaxRecord_shorter {key value tail : Bytes} (h : splitPaxRecord payload = some (key, value, tail)) :
    tail.length < payload.length := by
  unfold splitPaxRecord at h
  dsimp only at h
  split at h
  · cases h
  next hhead =>
  obtain ⟨len, hlen, h⟩ := Option.bind_eq_some_iff.mp h
  split at h
  · cases h
  next hrange =>
  obtain ⟨_, -, h⟩ := Option.bind_eq_some_iff.mp h
  cases h
  have hpos := (write_of_parseDecimal hlen hhead).2
  rw [List.length_drop]
  omega

/-- A payload needs no more rounds than it has bytes. -/
theorem parsePaxFrom_fuel {fuel fuel' : Nat} {keys : List Bytes} (h : rest.length ≤ fuel) (h' : rest.length ≤ fuel') :
    parsePaxFrom longName longLink fuel rest keys pax = parsePaxFrom longName longLink fuel' rest keys pax := by
  induction fuel generalizing fuel' rest keys pax with
  | zero =>
    obtain rfl := List.length_eq_zero_iff.mp (Nat.le_zero.mp h)
    cases fuel' <;> rfl
  | succ fuel ih =>
    rcases rest with _ | ⟨b, rest⟩
    · cases fuel' <;> rfl
    rcases fuel' with _ | fuel'
    · cases h'
    rw [parsePaxFrom_cons, parsePaxFrom_cons]
    cases hsplit : splitPaxRecord (b :: rest) with
    | none => rfl
    | some split =>
      obtain ⟨key, value, tail⟩ := split
      have hshort := splitPaxRecord_shorter hsplit
      have hrest (next : Pax) : parsePaxFrom longName longLink fuel tail (key :: keys) next =
          parsePaxFrom longName longLink fuel' tail (key :: keys) next := ih (by omega) (by omega)
      simp only [hrest]

theorem written_standard (records : List PaxRecord) : Written records (records.flatMap PaxRecord.standard) := by
  induction records with
  | nil => exact .nil
  | cons record records ih =>
    refine .cons _ ?_ ih
    rw [PaxRecord.encode, List.length_append, Nat.add_comm, Decimal.selfLength_eq]

/-- A payload is accepted if and only if it is a concatenation of admissible records under distinct keys, each counting
its own length, and supplies their values; what a writer makes of such records is read back, and the loop ends. -/
theorem parsePax_records (longName longLink : Bool) :
    (∀ payload pax, payload.length < 2 ^ 64 → (parsePax payload longName longLink = .ok pax ↔
      ∃ records, Written records payload ∧ (∀ record ∈ records, record.Admissible longName longLink) ∧
        (records.map PaxRecord.key).Nodup ∧ pax = .ofRecords records)) ∧
    (∀ records : List PaxRecord, (∀ record ∈ records, record.Admissible longName longLink) →
      (records.map PaxRecord.key).Nodup → (records.flatMap PaxRecord.standard).length < 2 ^ 64 →
      parsePax (records.flatMap PaxRecord.standard) longName longLink = .ok (.ofRecords records)) ∧
    ∀ payload fuel, payload.length ≤ fuel →
      parsePaxFrom longName longLink fuel payload [] .default = parsePax payload longName longLink := by
  have hiff (payload : Bytes) (pax : Pax) (hlen : payload.length < 2 ^ 64) :
      parsePax payload longName longLink = .ok pax ↔
        ∃ records, Written records payload ∧ (∀ record ∈ records, record.Admissible longName longLink) ∧
          (records.map PaxRecord.key).Nodup ∧ pax = .ofRecords records := by
    rw [parsePax, parsePaxFrom_iff le_rfl hlen]
    constructor
    · rintro ⟨records, hwritten, hall, hnodup, rfl⟩
      exact ⟨records, hwritten, fun record hmem => (hall record hmem).1, hnodup, foldl_supply_default hnodup⟩
    · rintro ⟨records, hwritten, hall, hnodup, rfl⟩
      exact ⟨records, hwritten, fun record hmem => ⟨hall record hmem, List.not_mem_nil⟩, hnodup,
        (foldl_supply_default hnodup).symm⟩
  exact ⟨hiff, fun records hall hnodup hlen => (hiff _ _ hlen).mpr ⟨records, written_standard records, hall, hnodup, rfl⟩,
    fun payload fuel hfuel => parsePaxFrom_fuel hfuel le_rfl⟩

/-- Two records, the first of a value with a newline and an equals sign in it. -/
def twoRecords : List PaxRecord :=
  [⟨asBytes "path", asBytes "a=b\nc"⟩, ⟨asBytes "size", asBytes "007"⟩]

theorem parsePax_records_two :
    parsePax (asBytes "14 path=a=b\nc\n12 size=007\n") false false = .ok ⟨some (asBytes "a=b\nc"), none, some 7⟩ := by
  have hadmissible : ∀ record ∈ twoRecords, record.Admissible false false := by
    refine List.forall_mem_cons.mpr ⟨⟨by decide +kernel, by decide +kernel, ⟨.path, by decide +kernel, ?_⟩, nofun, nofun⟩,
      List.forall_mem_singleton.mpr ⟨by decide +kernel, by decide +kernel, ⟨.size, by decide +kernel, ?_⟩, nofun, nofun⟩⟩
    · show NUL ∉ asBytes "a=b\nc"
      decide +kernel
    · show asBytes "007" ≠ [] ∧ (∀ byte ∈ asBytes "007", isDigit byte = true) ∧ Decimal.value (asBytes "007") < 2 ^ 64
      decide +kernel
  have hread := (parsePax_records false false).2.1 twoRecords hadmissible (by decide +kernel) (by decide +kernel)
  have hpayload : twoRecords.flatMap PaxRecord.standard = asBytes "14 path=a=b\nc\n12 size=007\n" := by decide +kernel
  have hpax : Pax.ofRecords twoRecords = ⟨some (asBytes "a=b\nc"), none, some 7⟩ := by decide +kernel
  rwa [hpayload, hpax] at hread

/-- A path record behind a pending long name is refused, and so are two keys that differ behind an equals sign. -/
theorem parsePax_refuses :
    Written [⟨asBytes "path", asBytes "x"⟩] (asBytes "9 path=x\n") ∧
      (PaxRecord.mk (asBytes "path") (asBytes "x")).Admissible false false ∧
      parsePax (asBytes "9 path=x\n") true false = .error (.malformed .conflictingAuthority) ∧
      (paxKey (asBytes "SCHILY.xattr.a=1")).isSome = true ∧ (paxKey (asBytes "SCHILY.xattr.a=2")).isSome = true ∧
      parsePax ([PaxRecord.mk (asBytes "SCHILY.xattr.a=1") [], PaxRecord.mk (asBytes "SCHILY.xattr.a=2") []].flatMap
        PaxRecord.standard) false false = .error (.malformed .paxDuplicateKey) := by
  have hbytes : asBytes "9 path=x\n" = (PaxRecord.mk (asBytes "path") (asBytes "x")).encode 9 ++ [] := by decide +kernel
  refine ⟨hbytes ▸ .cons 9 (by decide +kernel) .nil, ⟨by decide +kernel, by decide +kernel, ⟨.path, by decide +kernel, ?_⟩,
    nofun, nofun⟩, by decide +kernel, by decide +kernel, by decide +kernel, by decide +kernel⟩
  show NUL ∉ asBytes "x"
  decide +kernel

end Payload

end DeployCore
