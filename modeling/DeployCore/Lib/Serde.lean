import DeployCore.Lib.Json

/-! # Typed decoding, from the text and from the decoded value

A derived decoder of a type runs on two deserializers: on the text, and on a generically decoded `Value`. They
differ where decoding to a `Value` loses something: a repeated key is an error of the text and invisible in the
value, content the type ignores must be decodable for the value only, and the value's deserializer refuses a
struct variant written as an array. `Decoder` is the pair of them together with `Clean`, the texts free of the
first and the last of these, and with the proofs that two results of a text are the same result, and that on a
clean text that decodes to a value one decoder has a result just when the other has; each combinator carries
both proofs on. -/

namespace Serde
open Json

/-- Both decoders of a type, and the texts they agree on. -/
structure Decoder (α : Type) where
  text : Text → Nat → Option α
  value : Value → Option α
  Clean : Text → Prop
  same : ∀ {t d v a b}, t.toValue d = some v → text t d = some a → value v = some b → a = b
  agree : ∀ {t d v}, t.toValue d = some v → Clean t → text t d = value v

/-- Items of a text and the values they decode to. -/
abbrev Decoded (d : Nat) : List Text → List Value → Prop :=
  List.Forall₂ fun t v => t.toValue d = some v

/-- Members of a text, their keys read, and the members they decode to. -/
abbrev DecodedMembers (d : Nat) : List (String × Text) → Members → Prop :=
  List.Forall₂ fun m kv => m.1 = kv.1 ∧ m.2.toValue d = some kv.2

/-! ### Decoding inverted -/

variable {α β γ : Type} {t : Text} {d : Nat} {v : Value}

theorem toValue_arr {items : List Text} (h : (Text.arr items).toValue d = some v) :
    ¬d ≤ 1 ∧ ∃ values, Decoded (d - 1) items values ∧ v = .arr values := by
  rw [Text.toValue] at h
  split at h
  · cases h
  next hd =>
    obtain ⟨values, hvalues, rfl⟩ := Option.map_eq_some_iff.mp h
    exact ⟨hd, values, toValues_eq_some hvalues, rfl⟩

/-- The members of an object, when every key can be read. -/
def readKeys : List (Option String × Text) → Option (List (String × Text))
  | [] => some []
  | (key, t) :: members => do
    let key ← key
    let members ← readKeys members
    some ((key, t) :: members)

theorem readKeys_of_forall₂ {members : List (Option String × Text)} {values : Members}
    (h : List.Forall₂ (fun m kv => m.1 = some kv.1 ∧ m.2.toValue d = some kv.2) members values) :
    ∃ ms, readKeys members = some ms ∧ DecodedMembers d ms values := by
  induction h with
  | nil => exact ⟨[], rfl, .nil⟩
  | @cons m kv _ _ hm _ ih =>
    obtain ⟨ms, hms, hdecoded⟩ := ih
    obtain ⟨key, t⟩ := m
    refine ⟨(kv.1, t) :: ms, ?_, .cons ⟨rfl, hm.2⟩ hdecoded⟩
    obtain rfl : key = some kv.1 := hm.1
    simp [readKeys, hms]

theorem toValue_obj {members : List (Option String × Text)} (h : (Text.obj members).toValue d = some v) :
    ¬d ≤ 1 ∧ ∃ ms values, readKeys members = some ms ∧ DecodedMembers (d - 1) ms values ∧
      v = .obj (fromMembers values) := by
  rw [Text.toValue] at h
  split at h
  · cases h
  next hd =>
    obtain ⟨values, hvalues, rfl⟩ := Option.map_eq_some_iff.mp h
    obtain ⟨ms, hms, hdecoded⟩ := readKeys_of_forall₂ (toMembers_eq_some hvalues)
    exact ⟨hd, ms, values, hms, hdecoded, rfl⟩

/-! ### Scalars and sequences -/

namespace Decoder

/-- A type read from one scalar. -/
def scalar (bool : Bool → Option α) (num : Number → Option α) (str : String → Option α) : Decoder α where
  text t _ :=
    match t with
    | .bool b => bool b
    | .num n => num n
    | .str s => str s
    | _ => none
  value
    | .bool b => bool b
    | .num n => num n
    | .str s => str s
    | _ => none
  Clean _ := True
  same := by
    intro t d v a b h ha hb
    cases t with
    | bool | num | str =>
      cases h
      exact Option.some.inj (ha.symm.trans hb)
    | _ => cases ha
  agree := by
    intro t d v h _
    cases t with
    | arr => obtain ⟨-, _, -, rfl⟩ := toValue_arr h; rfl
    | obj => obtain ⟨-, _, _, -, -, rfl⟩ := toValue_obj h; rfl
    | unreadable => cases h
    | _ => cases h; rfl

def bool : Decoder Bool :=
  scalar some (fun _ => none) fun _ => none

def string : Decoder String :=
  scalar (fun _ => none) (fun _ => none) some

def u64 : Decoder UInt64 :=
  scalar (fun _ => none) (fun | .posInt n => some n | _ => none) fun _ => none

def u32 : Decoder UInt32 :=
  scalar (fun _ => none) (fun | .posInt n => if n.toNat < 2 ^ 32 then some n.toUInt32 else none | _ => none)
    fun _ => none

/-- Whatever decodes to a value. -/
def any : Decoder Value where
  text := Text.toValue
  value := some
  Clean _ := True
  same h ha hb := Option.some.inj ((ha.symm.trans h).trans hb)
  agree h _ := h

def map (f : α → β) (D : Decoder α) : Decoder β where
  text t d := (D.text t d).map f
  value v := (D.value v).map f
  Clean := D.Clean
  same := by
    intro t d v a b h ha hb
    obtain ⟨x, hx, rfl⟩ := Option.map_eq_some_iff.mp ha
    obtain ⟨y, hy, rfl⟩ := Option.map_eq_some_iff.mp hb
    rw [D.same h hx hy]
  agree h hc := by rw [D.agree h hc]

/-- A further check of what was decoded. -/
def refine (f : α → Option β) (D : Decoder α) : Decoder β where
  text t d := (D.text t d).bind f
  value v := (D.value v).bind f
  Clean := D.Clean
  same := by
    intro t d v a b h ha hb
    obtain ⟨x, hx, hfx⟩ := Option.bind_eq_some_iff.mp ha
    obtain ⟨y, hy, hfy⟩ := Option.bind_eq_some_iff.mp hb
    rw [D.same h hx hy] at hfx
    exact Option.some.inj (hfx.symm.trans hfy)
  agree h hc := by rw [D.agree h hc]

/-- `null`, or the type. -/
def option (D : Decoder α) : Decoder (Option α) where
  text
    | .null, _ => some none
    | t, d => (D.text t d).map some
  value
    | .null => some none
    | v => (D.value v).map some
  Clean := D.Clean
  same := by
    intro t d v a b h ha hb
    cases t with
    | null =>
      cases h
      exact Option.some.inj (ha.symm.trans hb)
    | unreadable => cases h
    | arr => obtain ⟨-, _, -, rfl⟩ := toValue_arr h; exact (D.map some).same h ha hb
    | obj => obtain ⟨-, _, _, -, -, rfl⟩ := toValue_obj h; exact (D.map some).same h ha hb
    | _ => cases h; exact (D.map some).same rfl ha hb
  agree := by
    intro t d v h hc
    have hagree := D.agree h hc
    cases t with
    | arr => obtain ⟨-, _, -, rfl⟩ := toValue_arr h; exact congrArg (Option.map some) hagree
    | obj => obtain ⟨-, _, _, -, -, rfl⟩ := toValue_obj h; exact congrArg (Option.map some) hagree
    | unreadable => cases h
    | null => cases h; rfl
    | _ => cases h; exact congrArg (Option.map some) hagree

theorem mapM_same (D : Decoder α) {items : List Text} {values : List Value} (h : Decoded d items values) :
    ∀ {as bs}, items.mapM (D.text · d) = some as → values.mapM D.value = some bs → as = bs := by
  induction h with
  | nil =>
    rintro _ _ ⟨⟩ ⟨⟩
    rfl
  | cons hhead _ ih =>
    intro as bs has hbs
    simp only [List.mapM_cons, Option.bind_eq_bind, Option.bind_eq_some_iff, Option.pure_def, Option.some.injEq] at has hbs
    obtain ⟨a, ha, as, has, rfl⟩ := has
    obtain ⟨b, hb, bs, hbs, rfl⟩ := hbs
    rw [D.same hhead ha hb, ih has hbs]

theorem mapM_agree (D : Decoder α) {items : List Text} {values : List Value} (h : Decoded d items values)
    (hc : ∀ t ∈ items, D.Clean t) : items.mapM (D.text · d) = values.mapM D.value := by
  induction h with
  | nil => rfl
  | cons hhead _ ih =>
    obtain ⟨hclean, hrest⟩ := List.forall_mem_cons.mp hc
    rw [List.mapM_cons, List.mapM_cons, D.agree hhead hclean, ih hrest]

/-- An array of the type. -/
def seq (D : Decoder α) : Decoder (List α) where
  text
    | .arr items, d => if d ≤ 1 then none else items.mapM (D.text · (d - 1))
    | _, _ => none
  value
    | .arr items => items.mapM D.value
    | _ => none
  Clean t := ∀ items, t = .arr items → ∀ x ∈ items, D.Clean x
  same := by
    intro t d v a b h ha hb
    cases t with
    | arr items =>
      obtain ⟨hd, values, hvalues, rfl⟩ := toValue_arr h
      simp only [if_neg hd] at ha
      exact mapM_same D hvalues ha hb
    | _ => cases ha
  agree := by
    intro t d v h hc
    cases t with
    | arr items =>
      obtain ⟨hd, values, hvalues, rfl⟩ := toValue_arr h
      simp only [if_neg hd]
      exact mapM_agree D hvalues (hc items rfl)
    | obj => obtain ⟨-, _, _, -, -, rfl⟩ := toValue_obj h; rfl
    | unreadable => cases h
    | _ => cases h; rfl

end Decoder

/-! ### Structs -/

/-- The fields of a struct, read from an object's members or from an array in order. -/
structure Fields (α : Type) where
  names : List String
  text : List (String × Text) → Nat → Option α
  value : Members → Option α
  seqText : List Text → Nat → Option α
  seqValue : List Value → Option α
  Clean : List (String × Text) → Prop
  SeqClean : List Text → Prop
  same : ∀ {ms d vs a b}, DecodedMembers d ms vs → text ms d = some a → value (fromMembers vs) = some b → a = b
  seqSame : ∀ {ts d vs a b}, Decoded d ts vs → seqText ts d = some a → seqValue vs = some b → a = b
  agree : ∀ {ms d vs}, DecodedMembers d ms vs → Clean ms → text ms d = value (fromMembers vs)
  seqAgree : ∀ {ts d vs}, Decoded d ts vs → SeqClean ts → seqText ts d = seqValue vs

namespace Fields

def nil : Fields Unit where
  names := []
  text _ _ := some ()
  value _ := some ()
  seqText
    | [], _ => some ()
    | _ :: _, _ => none
  seqValue
    | [] => some ()
    | _ :: _ => none
  Clean _ := True
  SeqClean _ := True
  same _ _ _ := rfl
  seqSame _ _ _ := rfl
  agree _ _ := rfl
  seqAgree h _ := by cases h <;> rfl

/-- The members of one key. -/
def named (name : String) (ms : List (String × Text)) : List (String × Text) :=
  ms.filter (·.1 == name)

/-- One field of a struct read from members: once, or its default when it has one. -/
def fieldText (name : String) (default : Option α) (D : Decoder α) (ms : List (String × Text)) (d : Nat) : Option α :=
  match named name ms with
  | [] => default
  | [m] => D.text m.2 d
  | _ => none

/-- One field of a struct read from a map. -/
def fieldValue (name : String) (default : Option α) (D : Decoder α) (map : Members) : Option α :=
  match map.lookup name with
  | none => default
  | some v => D.value v

theorem named_decoded (name : String) {ms : List (String × Text)} {vs : Members} (h : DecodedMembers d ms vs) :
    DecodedMembers d (named name ms) (vs.filter (·.1 == name)) := by
  induction h with
  | nil => exact .nil
  | @cons m kv _ _ hm _ ih =>
    unfold named at ih ⊢
    rw [List.filter_cons, List.filter_cons, hm.1]
    split
    · exact .cons hm ih
    · exact ih

theorem fieldText_same {name : String} {default : Option α} {D : Decoder α} {ms : List (String × Text)} {vs : Members}
    {a b : α} (h : DecodedMembers d ms vs) (ha : fieldText name default D ms d = some a)
    (hb : fieldValue name default D (fromMembers vs) = some b) : a = b := by
  have hnamed := named_decoded name h
  rw [fieldText] at ha
  rw [fieldValue, lookup_fromMembers] at hb
  match hms : named name ms with
  | [] =>
    rw [hms] at hnamed ha
    rw [List.forall₂_nil_left_iff.mp hnamed] at hb
    exact Option.some.inj (ha.symm.trans hb)
  | [m] =>
    rw [hms] at hnamed ha
    obtain ⟨kv, _, hm, hrest, hvs⟩ := List.forall₂_cons_left_iff.mp hnamed
    rw [hvs, List.forall₂_nil_left_iff.mp hrest] at hb
    exact D.same hm.2 ha hb
  | _ :: _ :: _ =>
    rw [hms] at ha
    cases ha

theorem fieldText_eq_fieldValue {name : String} {default : Option α} {D : Decoder α} {ms : List (String × Text)}
    {vs : Members} (h : DecodedMembers d ms vs) (hone : (named name ms).length ≤ 1)
    (hc : ∀ m ∈ named name ms, D.Clean m.2) :
    fieldText name default D ms d = fieldValue name default D (fromMembers vs) := by
  have hnamed := named_decoded name h
  rw [fieldText, fieldValue, lookup_fromMembers]
  cases hms : named name ms with
  | nil =>
    rw [hms] at hnamed
    obtain hvs := List.forall₂_nil_left_iff.mp hnamed
    rw [hvs]
    rfl
  | cons m rest =>
    obtain rfl : rest = [] := by
      rw [hms, List.length_cons] at hone
      exact List.length_eq_zero_iff.mp (by omega)
    rw [hms] at hnamed hc
    obtain ⟨kv, _, hm, hrest, hvs⟩ := List.forall₂_cons_left_iff.mp hnamed
    rw [List.forall₂_nil_left_iff] at hrest
    rw [hvs, hrest]
    exact D.agree hm.2 (hc m List.mem_cons_self)

/-- A field, before the others. -/
def cons (name : String) (default : Option α) (D : Decoder α) (F : Fields β) : Fields (α × β) where
  names := name :: F.names
  text ms d := do
    let a ← fieldText name default D ms d
    let b ← F.text ms d
    some (a, b)
  value map := do
    let a ← fieldValue name default D map
    let b ← F.value map
    some (a, b)
  seqText
    | [], d => do
      let a ← default
      let b ← F.seqText [] d
      some (a, b)
    | t :: ts, d => do
      let a ← D.text t d
      let b ← F.seqText ts d
      some (a, b)
  seqValue
    | [] => do
      let a ← default
      let b ← F.seqValue []
      some (a, b)
    | v :: vs => do
      let a ← D.value v
      let b ← F.seqValue vs
      some (a, b)
  Clean ms := (named name ms).length ≤ 1 ∧ (∀ m ∈ named name ms, D.Clean m.2) ∧ F.Clean ms
  SeqClean
    | [] => F.SeqClean []
    | t :: ts => D.Clean t ∧ F.SeqClean ts
  same := by
    intro ms d vs ab ab' h hab hab'
    simp only [Option.bind_eq_bind, Option.bind_eq_some_iff, Option.some.injEq] at hab hab'
    obtain ⟨a, ha, b, hb, rfl⟩ := hab
    obtain ⟨a', ha', b', hb', rfl⟩ := hab'
    rw [fieldText_same h ha ha', F.same h hb hb']
  seqSame := by
    intro ts d vs ab ab' h hab hab'
    cases h with
    | nil =>
      simp only [Option.bind_eq_bind, Option.bind_eq_some_iff, Option.some.injEq] at hab hab'
      obtain ⟨a, ha, b, hb, rfl⟩ := hab
      obtain ⟨a', ha', b', hb', rfl⟩ := hab'
      rw [Option.some.inj (ha.symm.trans ha'), F.seqSame .nil hb hb']
    | cons hhead hrest =>
      simp only [Option.bind_eq_bind, Option.bind_eq_some_iff, Option.some.injEq] at hab hab'
      obtain ⟨a, ha, b, hb, rfl⟩ := hab
      obtain ⟨a', ha', b', hb', rfl⟩ := hab'
      rw [D.same hhead ha ha', F.seqSame hrest hb hb']
  agree := by
    intro ms d vs h hc
    rw [fieldText_eq_fieldValue h hc.1 hc.2.1, F.agree h hc.2.2]
  seqAgree := by
    intro ts d vs h hc
    cases h with
    | nil =>
      have hrest := F.seqAgree (.nil : Decoded d [] []) hc
      simp only [hrest]
    | cons hhead hrest => simp only [D.agree hhead hc.1, F.seqAgree hrest hc.2]

end Fields

namespace Fields

/-- Fields that are read from members only where each of them has one member at most. -/
def Once (F : Fields α) : Prop :=
  ∀ ms d a, F.text ms d = some a → ∀ name ∈ F.names, (named name ms).length ≤ 1

theorem Once.nil : nil.Once :=
  fun _ _ _ _ _ hname => absurd hname List.not_mem_nil

theorem Once.cons {name : String} {default : Option α} {D : Decoder α} {F : Fields β} (h : F.Once) :
    (cons name default D F).Once := by
  intro ms d a ha name' hname'
  obtain ⟨_, hfield, ha⟩ := Option.bind_eq_some_iff.mp ha
  obtain ⟨_, hrest, -⟩ := Option.bind_eq_some_iff.mp ha
  rcases List.mem_cons.mp hname' with rfl | hname'
  · unfold fieldText at hfield
    split at hfield
    · next hnone => simp [hnone]
    · next hone => simp [hone]
    · cases hfield
  · exact h ms d _ hrest name' hname'

/-- The member of a field's name is what the field was read from. -/
theorem text_of_fieldText {name : String} {default : Option α} {D : Decoder α} {ms : List (String × Text)} {t : Text}
    {a : α} (ha : fieldText name default D ms d = some a) (hmem : (name, t) ∈ ms) : D.text t d = some a := by
  have hnamed : (name, t) ∈ named name ms := List.mem_filter.mpr ⟨hmem, beq_self_eq_true name⟩
  unfold fieldText at ha
  split at ha
  · next hnone => exact absurd (hnone ▸ hnamed) List.not_mem_nil
  · next m hone =>
    obtain rfl := List.mem_singleton.mp (hone ▸ hnamed)
    exact ha
  · cases ha

end Fields

/-- Whether every key is one of the names. -/
def allNamed (names : List String) (keys : List String) : Bool :=
  keys.all (names.contains ·)

theorem allNamed_fromMembers (names : List String) {ms : List (String × Text)} {vs : Members}
    (h : DecodedMembers d ms vs) :
    allNamed names (ms.map Prod.fst) = allNamed names ((fromMembers vs).map Prod.fst) := by
  have hkeys : ms.map Prod.fst = vs.map Prod.fst := by
    induction h with
    | nil => rfl
    | cons hm _ ih => rw [List.map_cons, List.map_cons, hm.1, ih]
  rw [hkeys, Bool.eq_iff_iff]
  simp only [allNamed, List.all_eq_true]
  exact forall_congr' fun key => by rw [mem_keys_fromMembers]

/-- A struct; `deny` refuses unknown fields, which are ignored otherwise. -/
def Decoder.record (deny : Bool) (F : Fields α) (f : α → β) : Decoder β where
  text
    | .arr items, d => if d ≤ 1 then none else (F.seqText items (d - 1)).map f
    | .obj members, d =>
      if d ≤ 1 then none else do
        let ms ← readKeys members
        if deny && !allNamed F.names (ms.map Prod.fst) then none
        else (F.text ms (d - 1)).map f
    | _, _ => none
  value
    | .arr items => (F.seqValue items).map f
    | .obj map =>
      if deny && !allNamed F.names (map.map Prod.fst) then none
      else (F.value map).map f
    | _ => none
  Clean
    | .arr items => F.SeqClean items
    | .obj members => ∀ ms, readKeys members = some ms → F.Clean ms
    | _ => True
  same := by
    intro t d v a b h ha hb
    cases t with
    | arr items =>
      obtain ⟨hd, values, hvalues, rfl⟩ := toValue_arr h
      simp only [if_neg hd, Option.map_eq_some_iff] at ha hb
      obtain ⟨x, hx, rfl⟩ := ha
      obtain ⟨y, hy, rfl⟩ := hb
      rw [F.seqSame hvalues hx hy]
    | obj members =>
      obtain ⟨hd, ms, values, hms, hdecoded, rfl⟩ := toValue_obj h
      simp only [if_neg hd, hms, Option.bind_eq_bind, Option.bind_some, allNamed_fromMembers F.names hdecoded] at ha hb
      split at ha
      · cases ha
      · next hnamed =>
        rw [if_neg hnamed] at hb
        obtain ⟨x, hx, rfl⟩ := Option.map_eq_some_iff.mp ha
        obtain ⟨y, hy, rfl⟩ := Option.map_eq_some_iff.mp hb
        rw [F.same hdecoded hx hy]
    | _ => cases ha
  agree := by
    intro t d v h hc
    cases t with
    | arr items =>
      obtain ⟨hd, values, hvalues, rfl⟩ := toValue_arr h
      simp only [if_neg hd]
      rw [F.seqAgree hvalues hc]
    | obj members =>
      obtain ⟨hd, ms, values, hms, hdecoded, rfl⟩ := toValue_obj h
      simp only [if_neg hd, hms, Option.bind_eq_bind, Option.bind_some, allNamed_fromMembers F.names hdecoded,
        F.agree hdecoded (hc ms hms)]
    | unreadable => cases h
    | _ => cases h; rfl

/-! ### What a read text looks like as a value -/

namespace Decoder

/-- A struct read from an object was read from its members. -/
theorem record_text_obj {deny : Bool} {F : Fields α} {f : α → β} {members : List (Option String × Text)} {b : β}
    (h : (record deny F f).text (.obj members) d = some b) :
    ∃ ms a, readKeys members = some ms ∧ F.text ms (d - 1) = some a ∧ f a = b := by
  simp only [record] at h
  split at h
  · cases h
  · obtain ⟨ms, hms, h⟩ := Option.bind_eq_some_iff.mp h
    split at h
    · cases h
    · obtain ⟨a, ha, hb⟩ := Option.map_eq_some_iff.mp h
      exact ⟨ms, a, hms, ha, hb⟩

theorem readKeys_eq_some {members : List (Option String × Text)} {ms : List (String × Text)}
    (h : readKeys members = some ms) : members = ms.map fun m => (some m.1, m.2) := by
  induction members generalizing ms with
  | nil => cases h; rfl
  | cons m members ih =>
    obtain ⟨key, t⟩ := m
    obtain ⟨key, rfl, h⟩ := Option.bind_eq_some_iff.mp h
    obtain ⟨ms, hms, h⟩ := Option.bind_eq_some_iff.mp h
    cases h
    rw [List.map_cons, ih hms]

/-- A struct that denies unknown fields, read from an object: every key is a field's, and none is repeated. -/
theorem record_text_keys {F : Fields α} {f : α → β} {members : List (Option String × Text)} {b : β} (hF : F.Once)
    (h : (record true F f).text (.obj members) d = some b) :
    ∃ keys : List String, members.map Prod.fst = keys.map some ∧ keys.Nodup ∧ ∀ key ∈ keys, key ∈ F.names := by
  simp only [record] at h
  split at h
  · cases h
  obtain ⟨ms, hms, h⟩ := Option.bind_eq_some_iff.mp h
  split at h
  · cases h
  next hnamed =>
  obtain ⟨a, ha, -⟩ := Option.map_eq_some_iff.mp h
  have hknown : ∀ key ∈ ms.map Prod.fst, key ∈ F.names := by simpa [allNamed] using hnamed
  refine ⟨ms.map Prod.fst, by rw [readKeys_eq_some hms, List.map_map, List.map_map]; rfl, ?_, hknown⟩
  refine List.nodup_iff_count_le_one.mpr fun key => ?_
  by_cases hkey : key ∈ ms.map Prod.fst
  · have hone := hF ms _ a ha key (hknown key hkey)
    rw [Fields.named, ← List.countP_eq_length_filter] at hone
    rw [List.count, List.countP_map]
    exact hone
  · rw [List.count_eq_zero.mpr hkey]
    exact Nat.zero_le 1

theorem asStr_of_string {s : String} (h : t.toValue d = some v) (hs : string.text t d = some s) : v.asStr = some s := by
  rw [string.agree h trivial] at hs
  cases v <;> first | cases hs; rfl | cases hs

theorem asBool_of_bool {b : Bool} (h : t.toValue d = some v) (hb : bool.text t d = some b) : v.asBool = some b := by
  rw [bool.agree h trivial] at hb
  cases v <;> first | cases hb; rfl | cases hb

theorem asU64_of_u64 {n : UInt64} (h : t.toValue d = some v) (hn : u64.text t d = some n) : v.asU64 = some n := by
  rw [u64.agree h trivial] at hn
  cases v with
  | num m => cases m <;> first | cases hn; rfl | cases hn
  | _ => cases hn

theorem arr_of_seq {D : Decoder α} {as : List α} (h : t.toValue d = some v) (has : D.seq.text t d = some as) :
    ∃ items values, Decoded (d - 1) items values ∧ v = .arr values ∧ items.mapM (D.text · (d - 1)) = some as := by
  cases t with
  | arr items =>
    obtain ⟨hd, values, hvalues, rfl⟩ := toValue_arr h
    simp only [seq, if_neg hd] at has
    exact ⟨items, values, hvalues, rfl, has⟩
  | _ => cases has

end Decoder

/-- A field read from the text is its default, or the map's member of that key read. -/
theorem Fields.lookup_of_fieldText {name : String} {default : Option α} {D : Decoder α} {ms : List (String × Text)}
    {vs : Members} {a : α} (h : DecodedMembers d ms vs) (ha : fieldText name default D ms d = some a) :
    default = some a ∨
      ∃ t v, t.toValue d = some v ∧ D.text t d = some a ∧ (fromMembers vs).lookup name = some v := by
  have hnamed := named_decoded name h
  rw [fieldText] at ha
  rw [lookup_fromMembers]
  match hms : named name ms with
  | [] =>
    rw [hms] at ha
    exact .inl ha
  | [m] =>
    rw [hms] at hnamed ha
    obtain ⟨kv, _, hm, hrest, hvs⟩ := List.forall₂_cons_left_iff.mp hnamed
    rw [hvs, List.forall₂_nil_left_iff.mp hrest]
    exact .inr ⟨m.2, kv.2, hm.2, ha, rfl⟩
  | _ :: _ :: _ =>
    rw [hms] at ha
    cases ha

/-- A pair, as an array of two. -/
def Decoder.pair (D : Decoder α) (E : Decoder β) : Decoder (α × β) where
  text
    | .arr [a, b], d => if d ≤ 1 then none else do
      let x ← D.text a (d - 1)
      let y ← E.text b (d - 1)
      some (x, y)
    | _, _ => none
  value
    | .arr [a, b] => do
      let x ← D.value a
      let y ← E.value b
      some (x, y)
    | _ => none
  Clean t := ∀ a b, t = .arr [a, b] → D.Clean a ∧ E.Clean b
  same := by
    intro t d v ab ab' h hab hab'
    cases t with
    | arr items =>
      obtain ⟨hd, values, hvalues, rfl⟩ := toValue_arr h
      match hvalues with
      | .nil => cases hab
      | .cons _ .nil => cases hab
      | .cons ha (.cons hb .nil) =>
        simp only [if_neg hd, Option.bind_eq_bind, Option.bind_eq_some_iff, Option.some.injEq] at hab hab'
        obtain ⟨x, hx, y, hy, rfl⟩ := hab
        obtain ⟨x', hx', y', hy', rfl⟩ := hab'
        rw [D.same ha hx hx', E.same hb hy hy']
      | .cons _ (.cons _ (.cons _ _)) => cases hab
    | _ => cases hab
  agree := by
    intro t d v h hc
    cases t with
    | arr items =>
      obtain ⟨hd, values, hvalues, rfl⟩ := toValue_arr h
      match hvalues with
      | .nil => rfl
      | .cons _ .nil => rfl
      | .cons ha (.cons hb .nil) =>
        obtain ⟨hca, hcb⟩ := hc _ _ rfl
        simp only [if_neg hd, D.agree ha hca, E.agree hb hcb]
      | .cons _ (.cons _ (.cons _ _)) => rfl
    | obj => obtain ⟨-, _, _, -, -, rfl⟩ := toValue_obj h; rfl
    | unreadable => cases h
    | _ => cases h; rfl

/-! ### Enumerations -/

/-- The variants of an enumeration: by name alone, or by name with a payload. -/
structure Variants (α : Type) where
  byName : String → Option α
  text : String → Text → Nat → Option α
  value : String → Value → Option α
  Clean : String → Text → Prop
  same : ∀ {name t d v a b}, t.toValue d = some v → text name t d = some a → value name v = some b → a = b
  agree : ∀ {name t d v}, t.toValue d = some v → Clean name t → text name t d = value name v

namespace Variants

def nil : Variants α where
  byName _ := none
  text _ _ _ := none
  value _ _ := none
  Clean _ _ := True
  same _ ha _ := by cases ha
  agree _ _ := rfl

/-- A variant with no payload, written by its name or with a `null` payload. -/
def unit (name : String) (a : α) (V : Variants α) : Variants α where
  byName s := if s = name then some a else V.byName s
  text s t d := if s = name then (match t with | .null => some a | _ => none) else V.text s t d
  value s v := if s = name then (match v with | .null => some a | _ => none) else V.value s v
  Clean s t := s = name ∨ V.Clean s t
  same := by
    intro s t d v x y h hx hy
    by_cases hs : s = name
    · simp only [if_pos hs] at hx hy
      split at hx
      · split at hy
        · exact Option.some.inj (hx.symm.trans hy)
        · cases hy
      · cases hx
    · simp only [if_neg hs] at hx hy
      exact V.same h hx hy
  agree := by
    intro s t d v h hc
    by_cases hs : s = name
    · simp only [if_pos hs]
      cases t with
      | arr => obtain ⟨-, _, -, rfl⟩ := toValue_arr h; rfl
      | obj => obtain ⟨-, _, _, -, -, rfl⟩ := toValue_obj h; rfl
      | unreadable => cases h
      | _ => cases h; rfl
    · simp only [if_neg hs]
      exact V.agree h (hc.resolve_left hs)

/-- A variant that wraps one type. -/
def newtype (name : String) (D : Decoder β) (f : β → α) (V : Variants α) : Variants α where
  byName := V.byName
  text s t d := if s = name then (D.text t d).map f else V.text s t d
  value s v := if s = name then (D.value v).map f else V.value s v
  Clean s t := if s = name then D.Clean t else V.Clean s t
  same := by
    intro s t d v a b h ha hb
    by_cases hs : s = name
    · simp only [if_pos hs] at ha hb
      exact (D.map f).same h ha hb
    · simp only [if_neg hs] at ha hb
      exact V.same h ha hb
  agree := by
    intro s t d v h hc
    by_cases hs : s = name
    · simp only [if_pos hs] at hc ⊢
      rw [D.agree h hc]
    · simp only [if_neg hs] at hc ⊢
      exact V.agree h hc

/-- A variant with fields of its own; from a value they are read from an object only. -/
def struct (name : String) (deny : Bool) (F : Fields β) (f : β → α) (V : Variants α) : Variants α where
  byName := V.byName
  text s t d := if s = name then (Decoder.record deny F f).text t d else V.text s t d
  value s v := if s = name then (match v with | .obj _ => (Decoder.record deny F f).value v | _ => none)
    else V.value s v
  Clean s t := if s = name then (∀ items, t ≠ .arr items) ∧ (Decoder.record deny F f).Clean t else V.Clean s t
  same := by
    intro s t d v a b h ha hb
    by_cases hs : s = name
    · simp only [if_pos hs] at ha hb
      split at hb
      · exact (Decoder.record deny F f).same h ha hb
      · cases hb
    · simp only [if_neg hs] at ha hb
      exact V.same h ha hb
  agree := by
    intro s t d v h hc
    by_cases hs : s = name
    · simp only [if_pos hs] at hc ⊢
      rw [(Decoder.record deny F f).agree h hc.2]
      cases t with
      | arr items => exact absurd rfl (hc.1 items)
      | obj => obtain ⟨-, _, _, -, -, rfl⟩ := toValue_obj h; rfl
      | unreadable => cases h
      | _ => cases h; rfl
    · simp only [if_neg hs] at hc ⊢
      exact V.agree h hc

end Variants

/-- An enumeration: a variant's name, or an object with one member. -/
def Decoder.enum (V : Variants α) : Decoder α where
  text
    | .str s, _ => V.byName s
    | .obj [(some name, t)], d => if d ≤ 1 then none else V.text name t (d - 1)
    | _, _ => none
  value
    | .str s => V.byName s
    | .obj [(name, v)] => V.value name v
    | _ => none
  Clean
    | .obj [(some name, t)] => V.Clean name t
    | .obj members => (members.map Prod.fst).Nodup
    | _ => True
  same := by
    intro t d v a b h ha hb
    match t, h, ha with
    | .str s, h, ha =>
      cases h
      exact Option.some.inj (ha.symm.trans hb)
    | .obj [(some name, t)], h, ha =>
      obtain ⟨hd, ms, values, hms, hdecoded, rfl⟩ := toValue_obj h
      cases hms
      obtain ⟨⟨name', v⟩, _, ⟨hname, hv⟩, hrest, rfl⟩ := List.forall₂_cons_left_iff.mp hdecoded
      obtain rfl : name = name' := hname
      rw [List.forall₂_nil_left_iff.mp hrest] at hb
      simp only [if_neg hd] at ha
      exact V.same hv ha hb
  agree := by
    intro t d v h hc
    cases t with
    | arr => obtain ⟨-, _, -, rfl⟩ := toValue_arr h; rfl
    | obj members =>
      obtain ⟨hd, ms, values, hms, hdecoded, rfl⟩ := toValue_obj h
      match members, hms, hc with
      | [], hms, _ =>
        cases hms
        rw [List.forall₂_nil_left_iff.mp hdecoded]
        rfl
      | [(some name, t)], hms, hc =>
        cases hms
        obtain ⟨⟨name', v⟩, _, ⟨hname, hv⟩, hrest, rfl⟩ := List.forall₂_cons_left_iff.mp hdecoded
        obtain rfl : name = name' := hname
        rw [List.forall₂_nil_left_iff.mp hrest]
        simp only [if_neg hd]
        exact V.agree hv hc
      | (some name, t) :: (some name', t') :: members, hms, hc =>
        -- two members of different keys stay two members of the map
        have hne : name ≠ name' := by
          rintro rfl
          simp at hc
        obtain ⟨ms', hms', rfl⟩ : ∃ ms', readKeys members = some ms' ∧ ms = (name, t) :: (name', t') :: ms' := by
          simp only [readKeys, Option.bind_eq_bind, Option.bind_some, Option.bind_eq_some_iff, Option.some.injEq] at hms
          obtain ⟨_, ⟨ms', hms', rfl⟩, rfl⟩ := hms
          exact ⟨ms', hms', rfl⟩
        obtain ⟨kv, _, hkv, hrest, rfl⟩ := List.forall₂_cons_left_iff.mp hdecoded
        obtain ⟨kv', rest, hkv', -, rfl⟩ := List.forall₂_cons_left_iff.mp hrest
        have hmem (key : String) (hkey : key = name ∨ key = name') :
            key ∈ (fromMembers (kv :: kv' :: rest)).map Prod.fst := by
          rw [mem_keys_fromMembers, List.map_cons, List.map_cons, ← hkv.1, ← hkv'.1]
          rcases hkey with rfl | rfl <;> simp
        cases hmap : fromMembers (kv :: kv' :: rest) with
        | nil => rfl
        | cons first others =>
          cases others with
          | nil =>
            rw [hmap] at hmem
            have h1 := hmem name (.inl rfl)
            have h2 := hmem name' (.inr rfl)
            simp only [List.map_cons, List.map_nil, List.mem_singleton] at h1 h2
            exact absurd (h1.trans h2.symm) hne
          | cons => rfl
    | unreadable => cases h
    | _ => cases h; rfl

end Serde
