import DeployCore.Lib.Serde

/-! # Written documents and what is read back from them

A derived serializer writes a struct as an object of its fields in order, some of them skipped. `Reads` says of
a written document that it decodes to a value, and that both decoders of a type read one result from it; the
lemmas are one for each combinator of `Decoder`. -/

namespace Serde
open Json

variable {α β σ : Type} {D : Decoder α} {E : Decoder β} {F : Fields α} {V : Variants α}
variable {t : Text} {a : α} {b : β} {d : Nat}

/-- The object of these fields; an absent field is skipped. -/
def object (fields : List (String × Option Text)) : Text :=
  .obj (fields.filterMap fun field => field.2.map (some field.1, ·))

/-- A document, other than `null`, from which `a` is read with `d` levels of nesting left. -/
structure Reads (D : Decoder α) (t : Text) (a : α) (d : Nat) : Prop where
  ne_null : t ≠ .null
  clean : D.Clean t
  value : ∃ v, t.toValue d = some v ∧ D.value v = some a

theorem Reads.text (h : Reads D t a d) : D.text t d = some a := by
  obtain ⟨v, hv, ha⟩ := h.value
  rw [D.agree hv h.clean, ha]

/-- One field: skipped when it is its own default, or written. -/
def ReadsField (default : Option α) (D : Decoder α) (d : Nat) (a : α) : Option Text → Prop
  | none => default = some a
  | some t => D.Clean t ∧ ∃ v, t.toValue d = some v ∧ D.value v = some a

/-- The fields of a struct, whatever else the object they are written into holds. -/
structure ReadsFields (F : Fields α) (fields : List (String × Option Text)) (a : α) (d : Nat) : Prop where
  names : fields.map Prod.fst = F.names
  decodes : ∀ field ∈ fields, ∀ t, field.2 = some t → ∃ v, t.toValue d = some v
  clean : ∀ ms, (∀ field ∈ fields, Fields.named field.1 ms = (field.2.map (field.1, ·)).toList) → F.Clean ms
  value : ∀ map : Members, (∀ field ∈ fields, map.lookup field.1 = field.2.bind (·.toValue d)) → F.value map = some a

/-! ### Scalars, sequences and pairs -/

namespace Reads

theorem string (s : String) (d : Nat) : Reads .string (.str s) s d :=
  ⟨nofun, trivial, .str s, rfl, rfl⟩

theorem bool (b : Bool) (d : Nat) : Reads .bool (.bool b) b d :=
  ⟨nofun, trivial, .bool b, rfl, rfl⟩

theorem u64 (n : UInt64) (d : Nat) : Reads .u64 (.num (.posInt n)) n d :=
  ⟨nofun, trivial, .num (.posInt n), rfl, rfl⟩

theorem u32 (n : UInt32) (d : Nat) : Reads .u32 (.num (.posInt n.toUInt64)) n d := by
  refine ⟨nofun, trivial, .num (.posInt n.toUInt64), rfl, ?_⟩
  have hlt : n.toNat < 4294967296 := n.toNat_lt
  simp [Decoder.u32, Decoder.scalar, hlt]

theorem any {v : Value} (hnull : t ≠ .null) (h : t.toValue d = some v) : Reads .any t v d :=
  ⟨hnull, trivial, v, h, rfl⟩

theorem map (f : α → β) (h : Reads D t a d) : Reads (.map f D) t (f a) d := by
  obtain ⟨v, hv, ha⟩ := h.value
  exact ⟨h.ne_null, h.clean, v, hv, by simp [Decoder.map, ha]⟩

theorem refine {f : α → Option β} (h : Reads D t a d) (hf : f a = some b) : Reads (.refine f D) t b d := by
  obtain ⟨v, hv, ha⟩ := h.value
  exact ⟨h.ne_null, h.clean, v, hv, by simp [Decoder.refine, ha, hf]⟩

theorem toValue_ne_null (hnull : t ≠ .null) {v : Value} (h : t.toValue d = some v) : v ≠ .null := by
  rintro rfl
  cases t with
  | null => exact hnull rfl
  | arr => obtain ⟨-, _, -, heq⟩ := toValue_arr h; cases heq
  | obj => obtain ⟨-, _, _, -, -, heq⟩ := toValue_obj h; cases heq
  | _ => cases h

theorem option (h : Reads D t a d) : Reads (.option D) t (some a) d := by
  obtain ⟨v, hv, ha⟩ := h.value
  have hnull := toValue_ne_null h.ne_null hv
  refine ⟨h.ne_null, h.clean, v, hv, ?_⟩
  have hsome : (D.value v).map some = some (some a) := by rw [ha]; rfl
  cases v with
  | null => contradiction
  | _ => exact hsome

theorem toValues_map {w : σ → Text} {g : σ → α} {ss : List σ} (h : ∀ s ∈ ss, Reads D (w s) (g s) d) :
    ∃ vs, toValues (ss.map w) d = some vs ∧ vs.mapM D.value = some (ss.map g) := by
  induction ss with
  | nil => exact ⟨[], rfl, rfl⟩
  | cons s ss ih =>
    obtain ⟨hs, hss⟩ := List.forall_mem_cons.mp h
    obtain ⟨v, hv, ha⟩ := hs.value
    obtain ⟨vs, hvs, has⟩ := ih hss
    exact ⟨v :: vs, by simp [toValues, hv, hvs], by simp [ha, has]⟩

/-- A sequence written item by item. -/
theorem seq {w : σ → Text} {g : σ → α} {ss : List σ} (hd : 1 < d) (h : ∀ s ∈ ss, Reads D (w s) (g s) (d - 1)) :
    Reads (.seq D) (.arr (ss.map w)) (ss.map g) d := by
  obtain ⟨vs, hvs, has⟩ := toValues_map h
  refine ⟨nofun, fun items hitems x hx => ?_, .arr vs, ?_, has⟩
  · obtain rfl := Text.arr.inj hitems
    obtain ⟨s, hs, rfl⟩ := List.mem_map.mp hx
    exact (h s hs).clean
  · rw [Text.toValue, if_neg (by omega), hvs]
    rfl

theorem list {w : α → Text} {as : List α} (hd : 1 < d) (h : ∀ a ∈ as, Reads D (w a) a (d - 1)) :
    Reads (.seq D) (.arr (as.map w)) as d := by
  simpa using seq (g := id) hd h

theorem pair {t' : Text} (hd : 1 < d) (h : Reads D t a (d - 1)) (h' : Reads E t' b (d - 1)) :
    Reads (.pair D E) (.arr [t, t']) (a, b) d := by
  obtain ⟨v, hv, ha⟩ := h.value
  obtain ⟨v', hv', hb⟩ := h'.value
  refine ⟨nofun, ?_, .arr [v, v'], ?_, by simp [Decoder.pair, ha, hb]⟩
  · rintro _ _ ⟨⟩
    exact ⟨h.clean, h'.clean⟩
  · rw [Text.toValue, if_neg (by omega)]
    simp [toValues, hv, hv']

/-! ### Enumerations -/

theorem enum_name {s : String} (h : V.byName s = some a) : Reads (.enum V) (.str s) a d :=
  ⟨nofun, trivial, .str s, rfl, h⟩

theorem enum_payload {name : String} (hd : 1 < d) (hclean : V.Clean name t)
    (h : ∃ v, t.toValue (d - 1) = some v ∧ V.value name v = some a) :
    Reads (.enum V) (.obj [(some name, t)]) a d := by
  obtain ⟨v, hv, h⟩ := h
  refine ⟨nofun, hclean, .obj [(name, v)], ?_, h⟩
  rw [Text.toValue, if_neg (by omega)]
  simp [toMembers, hv, fromMembers, insertMember]

end Reads

/-! ### Structs -/

theorem ReadsField.written {default : Option α} (h : Reads D t a d) : ReadsField default D d a (some t) :=
  ⟨h.clean, h.value⟩

/-- An optional field that is skipped when there is nothing. -/
theorem ReadsField.skipNone {w : α → Text} {o : Option α} (h : ∀ x, o = some x → Reads D (w x) x d) :
    ReadsField (some none) (.option D) d o (o.map w) := by
  cases o with
  | none => exact rfl
  | some x => exact .written (h x rfl).option

/-- An optional field that is always there and may be `null`. -/
theorem ReadsField.nullable {w : α → Text} {o : Option α} (h : ∀ x, o = some x → Reads D (w x) x d)
    (hclean : D.Clean .null) : ReadsField none (.option D) d o (some ((o.map w).getD .null)) := by
  cases o with
  | none => exact ⟨hclean, .null, rfl, rfl⟩
  | some x => exact .written (h x rfl).option

/-- A field that is skipped when it is its default. -/
theorem ReadsField.skipIf {x : α} {p : Bool} (hskip : p = true → a = x) (h : p = false → Reads D t a d) :
    ReadsField (some x) D d a (if p then none else some t) := by
  cases p with
  | true => exact congrArg some (hskip rfl).symm
  | false => exact .written (h rfl)

theorem ReadsFields.nil : ReadsFields .nil [] () d :=
  ⟨rfl, fun _ h => absurd h List.not_mem_nil, fun _ _ => trivial, fun _ _ => rfl⟩

theorem ReadsFields.cons {name : String} {default : Option β} {o : Option Text} {fields : List (String × Option Text)}
    (h : ReadsField default E d b o) (hrest : ReadsFields F fields a d) :
    ReadsFields (.cons name default E F) ((name, o) :: fields) (b, a) d := by
  refine ⟨congrArg (name :: ·) hrest.names, List.forall_mem_cons.mpr ⟨?_, hrest.decodes⟩, fun ms hms => ?_,
    fun map hmap => ?_⟩
  · rintro t rfl
    exact h.2.imp fun _ hv => hv.1
  · obtain ⟨hown, hothers⟩ := List.forall_mem_cons.mp hms
    refine ⟨?_, ?_, hrest.clean ms hothers⟩ <;> rw [hown] <;> cases o with
    | none => simp
    | some t => simp [h.1]
  · obtain ⟨hown, hothers⟩ := List.forall_mem_cons.mp hmap
    simp only [Fields.cons, hrest.value map hothers]
    cases o with
    | none => simp [Fields.fieldValue, hown, show default = some b from h]
    | some t =>
      obtain ⟨-, v, hv, hb⟩ := h
      simp [Fields.fieldValue, hown, hv, hb]

/-- Of fields with distinct names, those of one name are the one that is written under it. -/
theorem filter_filterMap {fields : List (String × Option Text)} {g : Option Text → Option β}
    (hnodup : (fields.map Prod.fst).Nodup) {field : String × Option Text} (hmem : field ∈ fields) :
    ((fields.filterMap fun f => (g f.2).map (f.1, ·)).filter (·.1 == field.1)) =
      ((g field.2).map (field.1, ·)).toList := by
  have hself (f : String × Option Text) (hf : f.1 ≠ field.1) :
      (((g f.2).map (f.1, ·)).toList.filter (·.1 == field.1)) = [] := by
    cases g f.2 <;> simp [hf]
  have hnone (fs : List (String × Option Text)) (hfs : field.1 ∉ fs.map Prod.fst) :
      ((fs.filterMap fun f => (g f.2).map (f.1, ·)).filter (·.1 == field.1)) = [] := by
    refine List.filter_eq_nil_iff.mpr fun x hx => ?_
    obtain ⟨f, hf, hfx⟩ := List.mem_filterMap.mp hx
    obtain ⟨y, -, rfl⟩ := Option.map_eq_some_iff.mp hfx
    exact fun heq => hfs (beq_iff_eq.mp heq ▸ List.mem_map_of_mem hf)
  induction fields with
  | nil => exact absurd hmem List.not_mem_nil
  | cons f fs ih =>
    obtain ⟨hf, hnodup⟩ := List.nodup_cons.mp hnodup
    have hsplit : (f :: fs).filterMap (fun f => (g f.2).map (f.1, ·)) =
        ((g f.2).map (f.1, ·)).toList ++ fs.filterMap fun f => (g f.2).map (f.1, ·) := by
      cases hg : g f.2 <;> simp [hg]
    rw [hsplit, List.filter_append]
    rcases List.mem_cons.mp hmem with rfl | hmem
    · rw [hnone fs hf, List.append_nil]
      cases g field.2 <;> simp
    · have hne : f.1 ≠ field.1 := fun heq => hf (heq ▸ List.mem_map_of_mem hmem)
      rw [hself f hne, List.nil_append, ih hnodup hmem]

/-- The members that the written fields decode to. -/
def decodedFields (fields : List (String × Option Text)) (d : Nat) : Members :=
  fields.filterMap fun field => (field.2.bind (·.toValue d)).map (field.1, ·)

theorem toValue_object {fields : List (String × Option Text)} (hd : 1 < d)
    (h : ∀ field ∈ fields, ∀ t, field.2 = some t → ∃ v, t.toValue (d - 1) = some v) :
    (object fields).toValue d = some (.obj (fromMembers (decodedFields fields (d - 1)))) := by
  have hmembers : toMembers (fields.filterMap fun field => field.2.map (some field.1, ·)) (d - 1) =
      some (decodedFields fields (d - 1)) := by
    unfold decodedFields
    induction fields with
    | nil => rfl
    | cons field fields ih =>
      obtain ⟨hown, hothers⟩ := List.forall_mem_cons.mp h
      obtain ⟨name, o⟩ := field
      cases o with
      | none => simpa using ih hothers
      | some t =>
        obtain ⟨v, hv⟩ := hown t rfl
        simp [toMembers, hv, ih hothers]
  rw [object, Text.toValue, if_neg (by omega), hmembers]
  rfl

theorem lookup_decodedFields {fields : List (String × Option Text)} (hnodup : (fields.map Prod.fst).Nodup)
    {field : String × Option Text} (hmem : field ∈ fields) :
    (fromMembers (decodedFields fields d)).lookup field.1 = field.2.bind (·.toValue d) := by
  rw [lookup_fromMembers, decodedFields, filter_filterMap (g := fun o => o.bind (·.toValue d)) hnodup hmem]
  cases field.2.bind (·.toValue d) <;> rfl

/-- A member of a decoded object is what was written under its name. -/
theorem get_of_toValue_object {fields : List (String × Option Text)} {v : Value}
    (h : (object fields).toValue d = some v) (hnodup : (fields.map Prod.fst).Nodup) {name : String} {o : Option Text}
    (hmem : (name, o) ∈ fields) : v.get name = o.bind (·.toValue (d - 1)) := by
  have hmembers {fields : List (String × Option Text)} {values : Members}
      (hv : toMembers (fields.filterMap fun field => field.2.map (some field.1, ·)) (d - 1) = some values) :
      values = decodedFields fields (d - 1) := by
    unfold decodedFields
    induction fields generalizing values with
    | nil =>
      cases hv
      rfl
    | cons field fields ih =>
      obtain ⟨name, o⟩ := field
      cases o with
      | none => simpa using ih (by simpa using hv)
      | some t =>
        simp only [List.filterMap_cons, Option.map_some, toMembers, Option.bind_eq_bind, Option.bind_some,
          Option.bind_eq_some_iff, Option.some.injEq] at hv
        obtain ⟨v, ht, rest, hrest, rfl⟩ := hv
        simp [ht, ih hrest]
  rw [object, Text.toValue] at h
  split at h
  · cases h
  obtain ⟨values, hvalues, rfl⟩ := Option.map_eq_some_iff.mp h
  rw [hmembers hvalues]
  exact lookup_decodedFields hnodup hmem

theorem mem_keys_decodedFields {fields : List (String × Option Text)} {key : String}
    (h : key ∈ (fromMembers (decodedFields fields d)).map Prod.fst) : key ∈ fields.map Prod.fst := by
  rw [mem_keys_fromMembers] at h
  obtain ⟨kv, hkv, rfl⟩ := List.mem_map.mp h
  obtain ⟨f, hf, hfkv⟩ := List.mem_filterMap.mp hkv
  obtain ⟨v, -, rfl⟩ := Option.map_eq_some_iff.mp hfkv
  exact List.mem_map_of_mem hf

theorem readKeys_object (fields : List (String × Option Text)) :
    readKeys (fields.filterMap fun field => field.2.map (some field.1, ·)) =
      some (fields.filterMap fun field => field.2.map (field.1, ·)) := by
  induction fields with
  | nil => rfl
  | cons field fields ih =>
    obtain ⟨name, o⟩ := field
    cases o with
    | none => simpa using ih
    | some t => simp [readKeys, ih]

/-- A map that holds the written fields, and no key that the struct does not know, is read back. -/
theorem ReadsFields.record_value {deny : Bool} {f : α → β} {fields : List (String × Option Text)} {map : Members}
    (h : ReadsFields F fields a d) (hkeys : ∀ key ∈ map.map Prod.fst, key ∈ F.names)
    (hmap : ∀ field ∈ fields, map.lookup field.1 = field.2.bind (·.toValue d)) :
    (Decoder.record deny F f).value (.obj map) = some (f a) := by
  have hnamed : allNamed F.names (map.map Prod.fst) = true := by
    simpa [allNamed] using hkeys
  simp only [Decoder.record, hnamed, Bool.not_true, Bool.and_false, Bool.false_eq_true, if_false, h.value map hmap,
    Option.map_some]

/-- A struct is read back from the object of its fields. -/
theorem Reads.record {deny : Bool} {f : α → β} {fields : List (String × Option Text)} (hnodup : F.names.Nodup)
    (hd : 1 < d) (h : ReadsFields F fields a (d - 1)) (hb : f a = b) :
    Reads (.record deny F f) (object fields) b d := by
  subst hb
  have hnames : (fields.map Prod.fst).Nodup := h.names ▸ hnodup
  refine ⟨nofun, fun ms hms => ?_, _, toValue_object hd h.decodes, ?_⟩
  · refine h.clean ms fun field hmem => ?_
    obtain rfl := Option.some.inj ((readKeys_object fields).symm.trans hms)
    exact filter_filterMap (g := id) hnames hmem
  · exact h.record_value (fun key hkey => h.names ▸ mem_keys_decodedFields hkey)
      fun field hmem => lookup_decodedFields hnames hmem

end Serde
