import DeployCore.Footer

/-! # What the footer probe finds

The probe's windows overlap: inside a version-3 footer the 41- and 73-byte candidates start at the most
significant byte of an offset field and continue with the length field after it. `SpellsFooter` is the one
pair of field values that makes such a window read as a footer of its size, and `locateFooter_encode` says
that nothing else can hide a footer. Conversely `eq_encode_of_locateFooter` reads a located footer back as
the file's own last bytes. -/

namespace DeployCore
open LittleEndian

namespace Footer

theorem recorded_le (f : Footer) : f.recorded ≤ FOOTER_FIELDS := by
  unfold recorded
  split
  · decide
  · split <;> decide

@[simp] theorem length_encode (f : Footer) : f.encode.length = MAGIC_LEN + 1 + 8 * f.recorded := by
  have hrec : (f.fields.toList.take f.recorded).length = f.recorded := by
    simpa using f.recorded_le
  simp only [encode, List.length_append, List.length_cons, length_flatMap_le64, hrec, MAGIC, MAGIC_LEN,
    List.length_nil]
  omega

theorem fromFields_fields (f : Footer) : fromFields f.version f.fields = f := rfl

theorem fields_fromFields (version : UInt8) (fields : Vector UInt64 FOOTER_FIELDS) :
    (fromFields version fields).fields = fields := by
  refine Vector.ext fun i hi => ?_
  match i, hi with
  | 0, _ | 1, _ | 2, _ | 3, _ | 4, _ | 5, _ | 6, _ | 7, _ | 8, _ | 9, _ | 10, _ | 11, _ => rfl

theorem encode_take_magic (f : Footer) : f.encode.take MAGIC_LEN = MAGIC := rfl

theorem encode_version (f : Footer) : f.encode[MAGIC_LEN]? = some f.version := rfl

/-- The bytes of the footer from the most significant one of its field `k` on. -/
theorem encode_drop_field (f : Footer) (k : Nat) {x y : UInt64} {rest : List UInt64}
    (h : (f.fields.toList.take f.recorded).drop k = x :: y :: rest) :
    f.encode.drop (MAGIC_LEN + 1 + 8 * k + 7) =
      UInt8.ofNat (x.toNat / 2 ^ 56) :: (le64 y ++ rest.flatMap le64) := by
  have hdrop : f.encode.drop (MAGIC_LEN + 1) = (f.fields.toList.take f.recorded).flatMap le64 := rfl
  rw [← List.drop_drop, ← List.drop_drop, hdrop, drop_flatMap_le64, h, List.flatMap_cons, List.flatMap_cons,
    List.drop_append_of_le_length (by simp), drop_le64, List.singleton_append]

end Footer

/-! ### Candidates -/

theorem nextFields_eq {n : Nat} (fs : Vector UInt64 n) (pre rest : Bytes) :
    (FieldReader.mk (pre ++ fs.toList.flatMap le64 ++ rest) pre.length).nextFields n =
      some (fs, ⟨pre ++ fs.toList.flatMap le64 ++ rest, pre.length + 8 * n⟩) := by
  induction n generalizing rest with
  | zero =>
    obtain rfl : fs = #v[] := by simp
    rfl
  | succ n ih =>
    have hfs : fs.pop.push fs.back = fs := by simp
    have hlist : fs.toList = fs.pop.toList ++ [fs.back] := by rw [← Vector.toList_push, hfs]
    have hbytes : pre ++ fs.toList.flatMap le64 ++ rest =
        pre ++ fs.pop.toList.flatMap le64 ++ (le64 fs.back ++ rest) := by
      simp [hlist]
    have hlen : (pre ++ fs.pop.toList.flatMap le64).length = pre.length + 8 * n := by
      rw [List.length_append, length_flatMap_le64, Vector.length_toList, Nat.add_sub_cancel]
    have hslice : slice (pre ++ fs.pop.toList.flatMap le64 ++ (le64 fs.back ++ rest)) (pre.length + 8 * n) 8 =
        le64 fs.back := by
      rw [← hlen, ← List.append_assoc]
      simpa using slice_middle (pre ++ fs.pop.toList.flatMap le64) (le64 fs.back) rest
    rw [hbytes, FieldReader.nextFields, ih]
    simp only [Option.bind_eq_bind, Option.bind_some, FieldReader.nextU64, hslice, ofLE64_le64]
    rw [if_pos (by simp only [List.length_append, length_le64] at hlen ⊢; omega)]
    show some (fs.pop.push fs.back, _) = _
    rw [hfs]
    rfl

/-- The fields a reader hands out are the bytes it passes over. -/
theorem slice_of_nextFields {r r' : FieldReader} {n : Nat} {fs : Vector UInt64 n}
    (h : r.nextFields n = some (fs, r')) :
    slice r.bytes r.next (8 * n) = fs.toList.flatMap le64 ∧ r'.bytes = r.bytes ∧ r'.next = r.next + 8 * n := by
  induction n generalizing r' with
  | zero =>
    obtain rfl : fs = #v[] := by simp
    obtain rfl : r = r' := by simpa [FieldReader.nextFields] using h
    simp [slice]
  | succ n ih =>
    simp only [FieldReader.nextFields, Option.bind_eq_bind, Option.bind_eq_some_iff, Prod.exists] at h
    obtain ⟨init, mid, hinit, x, last, hx, heq⟩ := h
    obtain ⟨hslice, hbytes, hnext⟩ := ih hinit
    unfold FieldReader.nextU64 at hx
    split at hx
    · next hle =>
      cases hx
      cases heq
      refine ⟨?_, hbytes, by simp only [hnext]; omega⟩
      rw [hbytes, hnext] at hle
      have hx : le64 (ofLE64 (slice mid.bytes mid.next 8)) = slice r.bytes (r.next + 8 * n) 8 := by
        rw [hbytes, hnext, le64_ofLE64 (length_slice _ hle)]
      rw [Vector.toList_push, List.flatMap_append, ← hslice, List.flatMap_singleton, hx]
      simp only [slice, ← List.drop_drop]
      rw [show 8 * (n + 1) = 8 * n + 8 by omega, List.take_add]
    · cases hx

/-- The one pair of an offset and a length whose bytes, from the offset's most significant one on, spell
`MAGIC` and `version`. -/
def SpellsFooter (version : UInt8) (offset len : UInt64) : Prop :=
  offset.toNat / 2 ^ 56 = 0x42 ∧ len = ofLE64 (MAGIC.tail ++ [version])

instance (version : UInt8) (offset len : UInt64) : Decidable (SpellsFooter version offset len) :=
  inferInstanceAs (Decidable (_ ∧ _))

/-- The length that spells a version-1 footer's magic is over 2^56, as the offset before it is. -/
example : ofLE64 (MAGIC.tail ++ [1]) = 0x01444C5950524C54 := by decide

theorem SpellsFooter.le_offset {version : UInt8} {offset len : UInt64} (h : SpellsFooter version offset len) :
    0x42 * 2 ^ 56 ≤ offset.toNat := by
  have := h.1
  omega

theorem spellsFooter_iff {version : UInt8} {offset len : UInt64} {rest : Bytes} :
    (UInt8.ofNat (offset.toNat / 2 ^ 56) :: (le64 len ++ rest)).take (MAGIC_LEN + 1) = MAGIC ++ [version] ↔
      SpellsFooter version offset len := by
  have hoff := offset.toNat_lt
  have hbyte : offset.toNat / 2 ^ 56 < UInt8.size := by
    show _ < 256
    omega
  have htop : UInt8.ofNat (offset.toNat / 2 ^ 56) = 0x42 ↔ offset.toNat / 2 ^ 56 = 0x42 := by
    rw [← UInt8.toNat_inj, UInt8.toNat_ofNat_of_lt' hbyte]
    rfl
  have hlen : le64 len = MAGIC.tail ++ [version] ↔ len = ofLE64 (MAGIC.tail ++ [version]) :=
    ⟨fun h => by rw [← h, ofLE64_le64], fun h => by rw [h, le64_ofLE64 rfl]⟩
  have htake : (le64 len ++ rest).take MAGIC_LEN = le64 len := by
    rw [List.take_append_of_le_length (by simp [MAGIC_LEN]), List.take_of_length_le (by simp [MAGIC_LEN])]
  rw [List.take_succ_cons, htake, SpellsFooter, ← htop, ← hlen]
  exact List.cons_eq_cons

/-- A candidate that does not begin with `MAGIC` and its size's version does not stop the walk. -/
theorem classifyCandidate_of_ne {c : Bytes} {size : FooterSize}
    (h : c.take (MAGIC_LEN + 1) ≠ MAGIC ++ [size.version]) :
    classifyCandidate c size = .noMagic ∨ classifyCandidate c size = .mismatched ∨
      ∃ version, classifyCandidate c size = .unknown version := by
  unfold classifyCandidate
  split
  · exact .inl rfl
  · next hmagic =>
    rw [not_not] at hmagic
    split
    · exact .inl rfl
    · next version hversion =>
      rw [List.take_add_one, hmagic, hversion] at h
      rw [if_pos (by rintro rfl; exact h rfl)]
      split
      · exact .inr (.inl rfl)
      · exact .inr (.inr ⟨version, rfl⟩)

/-- A candidate that begins with `MAGIC` and a retired version at that version's size is refused. -/
theorem classifyCandidate_retired {c : Bytes} {size : FooterSize}
    (h : c.take (MAGIC_LEN + 1) = MAGIC ++ [size.version]) (hret : size.version ∉ SUPPORTED_CONTAINER_VERSIONS) :
    classifyCandidate c size = .retired size.version := by
  have hmagic : c.take MAGIC_LEN = MAGIC := by
    have := congrArg (List.take MAGIC_LEN) h
    rw [List.take_take] at this
    exact this
  have hversion : (c)[MAGIC_LEN]? = some size.version := by
    have := congrArg (fun l => l[MAGIC_LEN]?) h
    rw [List.getElem?_take_of_succ] at this
    exact this
  rw [classifyCandidate, if_neg (by simp [hmagic]), hversion]
  simp [hret]

theorem classifyCandidate_encode {f : Footer} (hv : f.version = FORMAT_VERSION) :
    classifyCandidate f.encode ⟨FOOTER_SIZE_V3, FORMAT_VERSION⟩ = .selected f := by
  have hrec : f.recorded = FOOTER_FIELDS := by simp [Footer.recorded, hv, FORMAT_VERSION]
  have hfields : (FieldReader.new f.encode).nextFields FOOTER_FIELDS =
      some (f.fields, ⟨f.encode, MAGIC_LEN + 1 + 8 * FOOTER_FIELDS⟩) := by
    have hbytes : f.encode = MAGIC ++ [f.version] ++ f.fields.toList.flatMap le64 ++ [] := by
      simp [Footer.encode, hrec, List.take_of_length_le]
    rw [hbytes]
    exact nextFields_eq f.fields (MAGIC ++ [f.version]) []
  rw [classifyCandidate, if_neg (by simp [f.encode_take_magic]), f.encode_version]
  simp only [hv, ne_eq, not_true_eq_false, if_false, hfields]
  rw [if_neg (by decide), ← hv, f.fromFields_fields]

/-- A candidate is selected only as the footer its own bytes spell. -/
theorem encode_of_classifyCandidate {c : Bytes} {size : FooterSize} {f : Footer}
    (h : classifyCandidate c size = .selected f) :
    f.version = FORMAT_VERSION ∧ size.version = FORMAT_VERSION ∧ c.take FOOTER_SIZE_V3 = f.encode := by
  unfold classifyCandidate at h
  split at h
  · cases h
  next hmagic =>
  rw [not_not] at hmagic
  split at h
  · cases h
  next version hversion =>
  split at h
  · split at h <;> cases h
  next hsize =>
  rw [not_not] at hsize
  split at h
  · cases h
  next hsup =>
  rw [not_not] at hsup
  split at h
  · cases h
  next fields r hfields =>
  cases h
  obtain rfl : version = FORMAT_VERSION := List.mem_singleton.mp hsup
  refine ⟨rfl, hsize.symm, ?_⟩
  obtain ⟨hslice, -, -⟩ := slice_of_nextFields hfields
  have hrec : (Footer.fromFields FORMAT_VERSION fields).recorded = FOOTER_FIELDS := rfl
  have hall : fields.toList.take FOOTER_FIELDS = fields.toList := List.take_of_length_le (by simp)
  rw [Footer.encode, hrec, Footer.fields_fromFields, hall, ← hslice,
    show FOOTER_SIZE_V3 = (MAGIC_LEN + 1) + 8 * FOOTER_FIELDS from rfl, List.take_add, List.take_add_one,
    hmagic, hversion]
  simp [slice, FieldReader.new]
  rfl

/-! ### The walk -/

section Walk
variable {body : Bytes} {f : Footer}

/-- The candidate of `n` bytes at the end of a file that ends in a footer of at least `n` bytes. -/
theorem readAt_candidate {n : Nat} (h : n ≤ f.encode.length) :
    (Source.ofBytes (body ++ f.encode)).readAt ((body ++ f.encode).length - n) n =
      .ok (f.encode.drop (f.encode.length - n)) := by
  rw [Source.readAt_ofBytes (by simp only [List.length_append]; omega), slice_suffix body f.encode h]

/-- One step of the walk, over a candidate inside the footer the file ends in. -/
theorem locateFooterAmong_cons {size : FooterSize} {sizes : List FooterSize} {firstUnknown : Option UInt8}
    (h : size.bytes ≤ f.encode.length) :
    locateFooterAmong (.ofBytes (body ++ f.encode)) (body ++ f.encode).length (size :: sizes) firstUnknown =
      match classifyCandidate (f.encode.drop (f.encode.length - size.bytes)) size with
      | .selected footer => .ok (.found footer ((body ++ f.encode).length - size.bytes))
      | .retired found => .error (.unsupportedContainerFormat found SUPPORTED_CONTAINER_VERSIONS)
      | .unknown version => locateFooterAmong (.ofBytes (body ++ f.encode)) (body ++ f.encode).length sizes
          (firstUnknown.or (some version))
      | .noMagic | .mismatched =>
        locateFooterAmong (.ofBytes (body ++ f.encode)) (body ++ f.encode).length sizes firstUnknown := by
  rw [locateFooterAmong, if_neg (by simp only [List.length_append]; omega)]
  simp only [readAt_candidate h]
  rfl

/-- A retired size whose candidate does not spell that size's footer is walked past. -/
theorem locateFooterAmong_skip {size : FooterSize} {sizes : List FooterSize} {firstUnknown : Option UInt8}
    (h : size.bytes ≤ f.encode.length)
    (hc : (f.encode.drop (f.encode.length - size.bytes)).take (MAGIC_LEN + 1) ≠ MAGIC ++ [size.version]) :
    ∃ firstUnknown', locateFooterAmong (.ofBytes (body ++ f.encode)) (body ++ f.encode).length (size :: sizes)
      firstUnknown = locateFooterAmong (.ofBytes (body ++ f.encode)) (body ++ f.encode).length sizes
        firstUnknown' := by
  rw [locateFooterAmong_cons h]
  rcases classifyCandidate_of_ne hc with hc | hc | ⟨version, hc⟩ <;> rw [hc]
  exacts [⟨_, rfl⟩, ⟨_, rfl⟩, ⟨_, rfl⟩]

/-- A retired size whose candidate spells that size's footer ends the walk. -/
theorem locateFooterAmong_retired {size : FooterSize} {sizes : List FooterSize} {firstUnknown : Option UInt8}
    (h : size.bytes ≤ f.encode.length)
    (hc : (f.encode.drop (f.encode.length - size.bytes)).take (MAGIC_LEN + 1) = MAGIC ++ [size.version])
    (hret : size.version ∉ SUPPORTED_CONTAINER_VERSIONS) :
    locateFooterAmong (.ofBytes (body ++ f.encode)) (body ++ f.encode).length (size :: sizes) firstUnknown =
      .error (.unsupportedContainerFormat size.version SUPPORTED_CONTAINER_VERSIONS) := by
  rw [locateFooterAmong_cons h, classifyCandidate_retired hc hret]

/-! ### Files that end in a footer -/

theorem length_encode_v3 (hv : f.version = FORMAT_VERSION) : f.encode.length = FOOTER_SIZE_V3 := by
  rw [f.length_encode, Footer.recorded, hv]
  rfl

theorem length_encode_v2 (hv : f.version = 2) : f.encode.length = FOOTER_SIZE_V2 := by
  rw [f.length_encode, Footer.recorded, hv]
  rfl

theorem length_encode_v1 (hv : f.version = 1) : f.encode.length = FOOTER_SIZE_V1 := by
  rw [f.length_encode, Footer.recorded, hv]
  rfl

/-- The first bytes of the candidate of a version-1 footer's size inside a version-3 footer. -/
theorem candidate_v1_in_v3 (hv : f.version = FORMAT_VERSION) :
    (f.encode.drop (f.encode.length - FOOTER_SIZE_V1)).take (MAGIC_LEN + 1) = MAGIC ++ [1] ↔
      SpellsFooter 1 f.keyIdOffset f.keyIdLen := by
  have hrec : f.recorded = FOOTER_FIELDS := by rw [Footer.recorded, hv]; rfl
  rw [length_encode_v3 hv, ← spellsFooter_iff, ← f.encode_drop_field 6 (by rw [hrec]; rfl)]
  rfl

/-- The first bytes of the candidate of a version-2 footer's size inside a version-3 footer. -/
theorem candidate_v2_in_v3 (hv : f.version = FORMAT_VERSION) :
    (f.encode.drop (f.encode.length - FOOTER_SIZE_V2)).take (MAGIC_LEN + 1) = MAGIC ++ [2] ↔
      SpellsFooter 2 f.archiveOffset f.archiveLen := by
  have hrec : f.recorded = FOOTER_FIELDS := by rw [Footer.recorded, hv]; rfl
  rw [length_encode_v3 hv, ← spellsFooter_iff, ← f.encode_drop_field 2 (by rw [hrec]; rfl)]
  rfl

/-- The first bytes of the candidate of a version-1 footer's size inside a version-2 footer. -/
theorem candidate_v1_in_v2 (hv : f.version = 2) :
    (f.encode.drop (f.encode.length - FOOTER_SIZE_V1)).take (MAGIC_LEN + 1) = MAGIC ++ [1] ↔
      SpellsFooter 1 f.archiveOffset f.archiveLen := by
  have hrec : f.recorded = 8 := by rw [Footer.recorded, hv]; rfl
  rw [length_encode_v2 hv, ← spellsFooter_iff, ← f.encode_drop_field 2 (by rw [hrec]; rfl)]
  rfl

/-- The walk goes past a 41-byte candidate that is not a version-1 footer. -/
theorem locateFooter_skip_v1 (body : Bytes) (hlen : FOOTER_SIZE_V1 ≤ f.encode.length)
    (h : (f.encode.drop (f.encode.length - FOOTER_SIZE_V1)).take (MAGIC_LEN + 1) ≠ MAGIC ++ [1]) :
    ∃ u, locateFooter (.ofBytes (body ++ f.encode)) (body ++ f.encode).length =
      locateFooterAmong (.ofBytes (body ++ f.encode)) (body ++ f.encode).length KNOWN_FOOTER_SIZES.tail u :=
  locateFooterAmong_skip hlen h

/-- The walk goes past a 73-byte candidate that is not a version-2 footer. -/
theorem locateFooterAmong_skip_v2 (body : Bytes) (u : Option UInt8) (hlen : FOOTER_SIZE_V2 ≤ f.encode.length)
    (h : (f.encode.drop (f.encode.length - FOOTER_SIZE_V2)).take (MAGIC_LEN + 1) ≠ MAGIC ++ [2]) :
    ∃ u', locateFooterAmong (.ofBytes (body ++ f.encode)) (body ++ f.encode).length KNOWN_FOOTER_SIZES.tail u =
      locateFooterAmong (.ofBytes (body ++ f.encode)) (body ++ f.encode).length
        [⟨FOOTER_SIZE_V3, FORMAT_VERSION⟩] u' :=
  locateFooterAmong_skip hlen h

/-- A 41-byte candidate that is a version-1 footer ends the walk. -/
theorem locateFooter_retired_v1 (body : Bytes) (hlen : FOOTER_SIZE_V1 ≤ f.encode.length)
    (h : (f.encode.drop (f.encode.length - FOOTER_SIZE_V1)).take (MAGIC_LEN + 1) = MAGIC ++ [1]) :
    locateFooter (.ofBytes (body ++ f.encode)) (body ++ f.encode).length =
      .error (.unsupportedContainerFormat 1 SUPPORTED_CONTAINER_VERSIONS) :=
  locateFooterAmong_retired hlen h (by decide)

/-- A 73-byte candidate that is a version-2 footer ends the walk. -/
theorem locateFooterAmong_retired_v2 (body : Bytes) (u : Option UInt8) (hlen : FOOTER_SIZE_V2 ≤ f.encode.length)
    (h : (f.encode.drop (f.encode.length - FOOTER_SIZE_V2)).take (MAGIC_LEN + 1) = MAGIC ++ [2]) :
    locateFooterAmong (.ofBytes (body ++ f.encode)) (body ++ f.encode).length KNOWN_FOOTER_SIZES.tail u =
      .error (.unsupportedContainerFormat 2 SUPPORTED_CONTAINER_VERSIONS) :=
  locateFooterAmong_retired hlen h (by decide)

/-- The footer a file ends in is found unless one of the two smaller windows spells a retired footer. -/
theorem locateFooter_encode (body : Bytes) (hv : f.version = FORMAT_VERSION)
    (h1 : ¬SpellsFooter 1 f.keyIdOffset f.keyIdLen) (h2 : ¬SpellsFooter 2 f.archiveOffset f.archiveLen) :
    locateFooter (.ofBytes (body ++ f.encode)) (body ++ f.encode).length = .ok (.found f body.length) := by
  have hlen := length_encode_v3 hv
  obtain ⟨u, hu⟩ := locateFooter_skip_v1 body (by rw [hlen]; decide) (mt (candidate_v1_in_v3 hv).mp h1)
  obtain ⟨u', hu'⟩ := locateFooterAmong_skip_v2 body u (by rw [hlen]; decide) (mt (candidate_v2_in_v3 hv).mp h2)
  calc locateFooter (.ofBytes (body ++ f.encode)) (body ++ f.encode).length
      = _ := hu
    _ = _ := hu'
    _ = .ok (.found f ((body ++ f.encode).length - FOOTER_SIZE_V3)) := by
      rw [locateFooterAmong_cons hlen.ge]
      simp only [hlen, Nat.sub_self, List.drop_zero, classifyCandidate_encode hv]
    _ = .ok (.found f body.length) := by rw [List.length_append, hlen, Nat.add_sub_cancel]

/-- A version-3 footer hidden by its own `key_id` pair is refused as a version-1 container. -/
theorem locateFooter_encode_spells_v1 (body : Bytes) (hv : f.version = FORMAT_VERSION)
    (h1 : SpellsFooter 1 f.keyIdOffset f.keyIdLen) :
    locateFooter (.ofBytes (body ++ f.encode)) (body ++ f.encode).length =
      .error (.unsupportedContainerFormat 1 SUPPORTED_CONTAINER_VERSIONS) :=
  locateFooter_retired_v1 body (by rw [length_encode_v3 hv]; decide) ((candidate_v1_in_v3 hv).mpr h1)

/-- A version-3 footer hidden by its own archive pair is refused as a version-2 container. -/
theorem locateFooter_encode_spells_v2 (body : Bytes) (hv : f.version = FORMAT_VERSION)
    (h1 : ¬SpellsFooter 1 f.keyIdOffset f.keyIdLen) (h2 : SpellsFooter 2 f.archiveOffset f.archiveLen) :
    locateFooter (.ofBytes (body ++ f.encode)) (body ++ f.encode).length =
      .error (.unsupportedContainerFormat 2 SUPPORTED_CONTAINER_VERSIONS) := by
  have hlen := length_encode_v3 hv
  obtain ⟨u, hu⟩ := locateFooter_skip_v1 body (by rw [hlen]; decide) (mt (candidate_v1_in_v3 hv).mp h1)
  rw [hu]
  exact locateFooterAmong_retired_v2 body u (by rw [hlen]; decide) ((candidate_v2_in_v3 hv).mpr h2)

/-- A file that ends in a version-1 footer is refused by name. -/
theorem locateFooter_encode_v1 (body : Bytes) (hv : f.version = 1) :
    locateFooter (.ofBytes (body ++ f.encode)) (body ++ f.encode).length =
      .error (.unsupportedContainerFormat 1 SUPPORTED_CONTAINER_VERSIONS) := by
  have hlen := length_encode_v1 hv
  refine locateFooter_retired_v1 body hlen.ge ?_
  rw [hlen, Nat.sub_self, List.drop_zero, List.take_add_one, f.encode_take_magic, f.encode_version, hv]
  rfl

/-- A file that ends in a version-2 footer is refused by name, unless its archive pair spells a version-1
footer. -/
theorem locateFooter_encode_v2 (body : Bytes) (hv : f.version = 2)
    (h1 : ¬SpellsFooter 1 f.archiveOffset f.archiveLen) :
    locateFooter (.ofBytes (body ++ f.encode)) (body ++ f.encode).length =
      .error (.unsupportedContainerFormat 2 SUPPORTED_CONTAINER_VERSIONS) := by
  have hlen := length_encode_v2 hv
  obtain ⟨u, hu⟩ := locateFooter_skip_v1 body (by rw [hlen]; decide) (mt (candidate_v1_in_v2 hv).mp h1)
  rw [hu]
  refine locateFooterAmong_retired_v2 body u hlen.ge ?_
  rw [hlen, Nat.sub_self, List.drop_zero, List.take_add_one, f.encode_take_magic, f.encode_version, hv]
  rfl

end Walk

/-! ### Reading a located footer back -/

theorem candidate_of_locateFooterAmong {src : Source} {fileLen start : Nat} {sizes : List FooterSize}
    {firstUnknown : Option UInt8} {f : Footer}
    (h : locateFooterAmong src fileLen sizes firstUnknown = .ok (.found f start)) :
    ∃ size ∈ sizes, size.bytes ≤ fileLen ∧ start = fileLen - size.bytes ∧
      ∃ c, src.readAt start size.bytes = .ok c ∧ classifyCandidate c size = .selected f := by
  induction sizes generalizing firstUnknown with
  | nil => cases firstUnknown <;> cases h
  | cons size sizes ih =>
    have later {u} (h : locateFooterAmong src fileLen sizes u = .ok (.found f start)) :
        ∃ size' ∈ size :: sizes, size'.bytes ≤ fileLen ∧ start = fileLen - size'.bytes ∧
          ∃ c, src.readAt start size'.bytes = .ok c ∧ classifyCandidate c size' = .selected f :=
      let ⟨size', hmem, hrest⟩ := ih h
      ⟨size', List.mem_cons_of_mem _ hmem, hrest⟩
    rw [locateFooterAmong] at h
    split at h
    · exact later h
    next hlen =>
    cases hread : src.readAt (fileLen - size.bytes) size.bytes with
    | error e => simp only [hread] at h; cases h
    | ok c =>
      simp only [hread, Except.mapError, bind, Except.bind] at h
      split at h
      · next hc =>
        cases h
        exact ⟨size, List.mem_cons_self, by omega, rfl, c, hread, hc⟩
      · cases h
      all_goals exact later h

/-- A located footer is the last bytes of the file, and nothing hides it. -/
theorem eq_encode_of_locateFooter {bs : Bytes} {f : Footer} {start : Nat}
    (h : locateFooter (.ofBytes bs) bs.length = .ok (.found f start)) :
    f.version = FORMAT_VERSION ∧ bs = bs.take start ++ f.encode ∧ (bs.take start).length = start ∧
      ¬SpellsFooter 1 f.keyIdOffset f.keyIdLen ∧ ¬SpellsFooter 2 f.archiveOffset f.archiveLen := by
  obtain ⟨size, hmem, hle, rfl, c, hread, hc⟩ := candidate_of_locateFooterAmong h
  obtain ⟨hv, hsize, henc⟩ := encode_of_classifyCandidate hc
  obtain rfl : size = ⟨FOOTER_SIZE_V3, FORMAT_VERSION⟩ := by
    simp only [KNOWN_FOOTER_SIZES, List.mem_cons, List.not_mem_nil, or_false] at hmem
    rcases hmem with rfl | rfl | rfl
    · exact absurd hsize (by decide)
    · exact absurd hsize (by decide)
    · rfl
  change FOOTER_SIZE_V3 ≤ bs.length at hle
  have hlen := (Source.ofBytes bs).readAt_length hread
  have hdrop : c = bs.drop (bs.length - FOOTER_SIZE_V3) := by
    rw [Source.readAt_ofBytes (by simp only; omega)] at hread
    cases hread
    rw [slice, List.take_of_length_le (by simp only [List.length_drop]; omega)]
  have hbs : bs = bs.take (bs.length - FOOTER_SIZE_V3) ++ f.encode := by
    rw [← henc, List.take_of_length_le hlen.le, hdrop, List.take_append_drop]
  refine ⟨hv, hbs, by simp, fun h1 => ?_, fun h2 => ?_⟩
  · rw [hbs, locateFooter_encode_spells_v1 _ hv h1] at h
    cases h
  · by_cases h1 : SpellsFooter 1 f.keyIdOffset f.keyIdLen
    · rw [hbs, locateFooter_encode_spells_v1 _ hv h1] at h
      cases h
    · rw [hbs, locateFooter_encode_spells_v2 _ hv h1 h2] at h
      cases h

/-- Below 4.7 exabytes a container's own footer is what the probe answers for, whatever its bytes. -/
theorem locateFooter_own_footer (body : Bytes) (f : Footer) :
    (f.version = FORMAT_VERSION → f.archiveOffset.toNat < 0x42 * 2 ^ 56 → f.keyIdOffset.toNat < 0x42 * 2 ^ 56 →
      locateFooter (.ofBytes (body ++ f.encode)) (body ++ f.encode).length =
        .ok (.found f ((body ++ f.encode).length - 105))) ∧
    (f.version = 1 → locateFooter (.ofBytes (body ++ f.encode)) (body ++ f.encode).length =
        .error (.unsupportedContainerFormat 1 SUPPORTED_CONTAINER_VERSIONS)) ∧
    (f.version = 2 → f.archiveOffset.toNat < 0x42 * 2 ^ 56 →
      locateFooter (.ofBytes (body ++ f.encode)) (body ++ f.encode).length =
        .error (.unsupportedContainerFormat 2 SUPPORTED_CONTAINER_VERSIONS)) := by
  refine ⟨fun hv ha hk => ?_, locateFooter_encode_v1 body, fun hv ha => ?_⟩
  · have hstart : (body ++ f.encode).length - 105 = body.length := by
      rw [List.length_append, length_encode_v3 hv]
      exact Nat.add_sub_cancel ..
    rw [hstart]
    exact locateFooter_encode body hv (fun h => absurd h.le_offset (by omega)) fun h => absurd h.le_offset (by omega)
  · exact locateFooter_encode_v2 body hv fun h => absurd h.le_offset (by omega)

theorem locateFooter_own_footer_empty_package :
    locateFooter (.ofBytes ([7] ++ (Footer.fromFields 3 (Vector.replicate 12 0)).encode))
      ([7] ++ (Footer.fromFields 3 (Vector.replicate 12 0)).encode).length =
        .ok (.found (Footer.fromFields 3 (Vector.replicate 12 0))
          (([7] ++ (Footer.fromFields 3 (Vector.replicate 12 0)).encode).length - 105)) ∧
    locateFooter (.ofBytes ([7] ++ (Footer.fromFields 1 (Vector.replicate 12 0)).encode))
      ([7] ++ (Footer.fromFields 1 (Vector.replicate 12 0)).encode).length =
        .error (.unsupportedContainerFormat 1 [3]) ∧
    locateFooter (.ofBytes ([7] ++ (Footer.fromFields 2 (Vector.replicate 12 0)).encode))
      ([7] ++ (Footer.fromFields 2 (Vector.replicate 12 0)).encode).length =
        .error (.unsupportedContainerFormat 2 [3]) :=
  ⟨(locateFooter_own_footer [7] _).1 rfl (by decide) (by decide), (locateFooter_own_footer [7] _).2.1 rfl,
    (locateFooter_own_footer [7] _).2.2 rfl (by decide)⟩

end DeployCore
