import DeployCore.PreparationBinding

/-! # A preparation record is read back

What is emitted is the compact document of the binding and a newline, since no identifier needs an escape; the strict
reader gives the binding back where the record is within the limit. -/

namespace DeployCore
open Json

/-! ### Texts that need no escape -/

section Characters
variable {c : Char} {s : String}

theorem unescaped_of_le (h : 0x23 ≤ c.toNat) (hne : c ≠ '\\') : JsonText.unescaped c = true := by
  have hquote : c ≠ '"' := by
    rintro rfl
    exact absurd h (by decide)
  simp [JsonText.unescaped, hquote, hne, Nat.le_trans (by decide : 0x20 ≤ 0x23) h]

theorem unescaped_of_alphanumeric (h : isAsciiAlphanumeric c = true) : JsonText.unescaped c = true := by
  have hne : c ≠ '\\' := by
    rintro rfl
    exact absurd h (by decide)
  simp only [isAsciiAlphanumeric, isAsciiLower, isAsciiUpper, isAsciiDigit, Bool.or_eq_true, Bool.and_eq_true,
    decide_eq_true_eq] at h
  refine unescaped_of_le ?_ hne
  rcases h with (h | h) | h
  · exact Nat.le_trans (by decide : 0x23 ≤ 'a'.toNat) h.1
  · exact Nat.le_trans (by decide : 0x23 ≤ 'A'.toNat) h.1
  · exact Nat.le_trans (by decide : 0x23 ≤ '0'.toNat) h.1

theorem unescaped_of_safe (h : isSafeBuildIdentifier s = true) : ∀ c ∈ s.toList, JsonText.unescaped c = true := by
  intro c hc
  rw [isSafeBuildIdentifier, Bool.and_eq_true, List.all_eq_true] at h
  have hchar := h.2 c hc
  simp only [Bool.or_eq_true, beq_iff_eq] at hchar
  rcases hchar with ((((((hchar | rfl) | rfl) | rfl) | rfl) | rfl) | rfl)
  · exact unescaped_of_alphanumeric hchar
  all_goals rfl

theorem unescaped_of_commit (h : isValidCommit s = true) : ∀ c ∈ s.toList, JsonText.unescaped c = true := by
  intro c hc
  rw [isValidCommit, Bool.and_eq_true, isLowerHex, List.all_eq_true] at h
  have hchar := h.2 c hc
  simp only [isLowerHexDigit, isAsciiDigit, Bool.or_eq_true, Bool.and_eq_true, decide_eq_true_eq] at hchar
  apply unescaped_of_alphanumeric
  simp only [isAsciiAlphanumeric, isAsciiLower, isAsciiDigit, Bool.or_eq_true, Bool.and_eq_true, decide_eq_true_eq]
  rcases hchar with hchar | hchar
  · exact .inr hchar
  · exact .inl (.inl ⟨hchar.1, Char.le_trans hchar.2 (by decide)⟩)

theorem unescaped_of_segment (h : isValidSegment s = true) : ∀ c ∈ s.toList, JsonText.unescaped c = true := by
  have hrest {c : Char} (hchar : (isAsciiLower c || isAsciiDigit c || c == '-' || c == '_') = true) :
      JsonText.unescaped c = true := by
    simp only [Bool.or_eq_true, beq_iff_eq] at hchar
    rcases hchar with ((hchar | hchar) | rfl) | rfl
    · exact unescaped_of_alphanumeric (by simp [isAsciiAlphanumeric, hchar])
    · exact unescaped_of_alphanumeric (by simp [isAsciiAlphanumeric, hchar])
    · rfl
    · rfl
  unfold isValidSegment at h
  rcases hs : s.toList with _ | ⟨first, rest⟩
  · exact List.forall_mem_nil _
  · rw [hs, headTail, Bool.and_eq_true, List.all_eq_true] at h
    refine List.forall_mem_cons.mpr ⟨hrest ?_, fun c hc => hrest (h.2 c hc)⟩
    rw [h.1, Bool.true_or, Bool.true_or]

/-- ASCII is a byte for every character. -/
theorem encode_of_ascii {cs : List Char} (h : ∀ c ∈ cs, c.toNat < 0x80) :
    Utf8.encode cs = cs.map fun c => UInt8.ofNat c.toNat := by
  induction cs with
  | nil => rfl
  | cons c cs ih =>
    rw [Utf8.encode_cons, Utf8.encodeChar_ascii (h c List.mem_cons_self), ih fun d hd => h d (.tail _ hd)]
    rfl

theorem asBytes_displayNat (n : Nat) : asBytes (displayNat n) = Decimal.write n := by
  rw [asBytes_eq_encode, displayNat, String.toList_ofList, Decimal.write]
  refine encode_of_ascii fun c hc => ?_
  have hdigit := Nat.isDigit_of_mem_toDigits (by decide) (by decide) hc
  simp only [Char.isDigit, Bool.and_eq_true, decide_eq_true_eq] at hdigit
  exact Nat.lt_of_le_of_lt hdigit.2 (by decide)

/-- A text without escapes is written between quotes as it stands. -/
theorem writeString_eq (h : ∀ c ∈ s.toList, JsonText.unescaped c = true) : writeString s = 34 :: (asBytes s ++ [34]) := by
  rw [writeString_unescaped h, asBytes_eq_encode]
  rfl

end Characters

/-! ### Digests -/

def hexChars (byte : UInt8) : List Char := [Nat.digitChar (byte.toNat / 16), Nat.digitChar (byte.toNat % 16)]

theorem toHex_eq (bytes : Bytes) : (toHex bytes).toList = bytes.flatMap hexChars :=
  String.toList_ofList

/-- The two digits of a byte are read as it. -/
theorem hexChars_spec (byte : UInt8) : (∀ c ∈ hexChars byte, JsonText.unescaped c = true ∧ c.toNat < 0x80) ∧
    nibble (.ofNat (Nat.digitChar (byte.toNat / 16)).toNat) = some (byte / 16) ∧
    nibble (.ofNat (Nat.digitChar (byte.toNat % 16)).toNat) = some (byte % 16) ∧
    (byte / 16) <<< 4 ||| (byte % 16) = byte := by
  have hall : ∀ n < 256, (hexChars (.ofNat n)).all (fun c => decide (JsonText.unescaped c = true ∧ c.toNat < 0x80)) = true ∧
      nibble (.ofNat (Nat.digitChar ((UInt8.ofNat n).toNat / 16)).toNat) = some (.ofNat n / 16) ∧
      nibble (.ofNat (Nat.digitChar ((UInt8.ofNat n).toNat % 16)).toNat) = some (.ofNat n % 16) ∧
      (UInt8.ofNat n / 16) <<< 4 ||| (.ofNat n % 16) = .ofNat n := by decide +kernel
  have hbyte := hall byte.toNat byte.toNat_lt
  rw [UInt8.ofNat_toNat] at hbyte
  exact ⟨forall_mem_of_all hbyte.1, hbyte.2⟩

namespace Digest
variable (d : Digest)

/-- The digest as a record names it. -/
def text : String := DIGEST_PREFIX ++ toHex d.bytes

theorem toList_text : d.text.toList = DIGEST_PREFIX.toList ++ d.bytes.flatMap hexChars := by
  rw [text, String.toList_append, toHex_eq]

theorem unescaped_text : ∀ c ∈ d.text.toList, JsonText.unescaped c = true := by
  rw [toList_text]
  refine List.forall_mem_append.mpr ⟨forall_mem_of_all (by decide +kernel), fun c hc => ?_⟩
  obtain ⟨byte, -, hc⟩ := List.mem_flatMap.mp hc
  exact ((hexChars_spec byte).1 c hc).1

theorem flatMap_emitDigest : (emitDigest d).flatMap asBytes = writeString d.text := by
  have hhex (bytes : Bytes) : (bytes.map fun byte => toHex [byte]).flatMap asBytes = Utf8.encode (bytes.flatMap hexChars) := by
    induction bytes with
    | nil => rfl
    | cons byte bytes ih =>
      rw [List.map_cons, List.flatMap_cons, List.flatMap_cons, Utf8.encode_append, ih, asBytes_eq_encode, toHex_eq,
        List.flatMap_singleton]
  have hopen : asBytes "\"sha256:" = 34 :: Utf8.encode DIGEST_PREFIX.toList := by decide +kernel
  have hclose : asBytes "\"" = [34] := by decide +kernel
  rw [emitDigest, List.flatMap_append, List.flatMap_cons, hhex, hopen, List.flatMap_singleton, hclose,
    writeString_eq d.unescaped_text, asBytes_eq_encode, toList_text, Utf8.encode_append]
  simp

theorem parsePairs_hex (bytes : Bytes) : parsePairs (Utf8.encode (bytes.flatMap hexChars)) = some bytes := by
  induction bytes with
  | nil => rfl
  | cons byte bytes ih =>
    obtain ⟨hascii, hhigh, hlow, hboth⟩ := hexChars_spec byte
    have hchars : Utf8.encode (hexChars byte) = [.ofNat (Nat.digitChar (byte.toNat / 16)).toNat,
        .ofNat (Nat.digitChar (byte.toNat % 16)).toNat] := encode_of_ascii fun c hc => (hascii c hc).2
    rw [List.flatMap_cons, Utf8.encode_append, hchars, List.cons_append, List.singleton_append, parsePairs, hhigh, hlow, ih]
    show some (((byte / 16) <<< 4 ||| (byte % 16)) :: bytes) = _
    rw [hboth]

theorem length_hex (bytes : Bytes) : (Utf8.encode (bytes.flatMap hexChars)).length = 2 * bytes.length := by
  induction bytes with
  | nil => rfl
  | cons byte bytes ih =>
    have hchars : (Utf8.encode (hexChars byte)).length = 2 := by
      rw [encode_of_ascii fun c hc => ((hexChars_spec byte).1 c hc).2]
      rfl
    rw [List.flatMap_cons, Utf8.encode_append, List.length_append, hchars, ih, List.length_cons]
    omega

theorem parseDigest_text : parseDigest d.text = some d := by
  have hstrip : stripPrefix DIGEST_PREFIX.toList d.text.toList = some (d.bytes.flatMap hexChars) := by
    rw [toList_text, stripPrefix, if_pos (List.isPrefixOf_iff_prefix.mpr (List.prefix_append ..)), List.drop_left]
  have hlength : (asBytes (.ofList (d.bytes.flatMap hexChars))).length = DIGEST_HEX_LEN := by
    rw [asBytes_eq_encode, String.toList_ofList, length_hex, d.length_eq]
    rfl
  have hpairs : parsePairs (asBytes (.ofList (d.bytes.flatMap hexChars))) = some d.bytes := by
    rw [asBytes_eq_encode, String.toList_ofList, parsePairs_hex]
  simp [parseDigest, hstrip, hlength, hpairs, d.length_eq]

end Digest

/-! ### The document -/

namespace PreparationBinding
variable (b : PreparationBinding)

/-- The members of the record, in record order. -/
def members : Json.Members :=
  [("schema", .num (.posInt b.schema.toUInt64)), ("manifest_sha256", .str b.manifestSha256.text),
    ("manifest_length", .num (.posInt b.manifestLength)), ("archive_sha256", .str b.archiveSha256.text),
    ("archive_length", .num (.posInt b.archiveLength)), ("target", .str b.target), ("version", .str b.version),
    ("commit", .str b.commit), ("target_arch", .str (archName b.targetArch)),
    ("namespace", b.namespaceName.elim .null .str), ("trust_epoch", b.trustEpoch.elim .null fun epoch => .num (.posInt epoch))]

/-- The rules a binding's identifiers keep. -/
structure ValidIdentifiers : Prop where
  target : isSafeBuildIdentifier b.target = true
  version : isSafeBuildIdentifier b.version = true
  commit : isValidCommit b.commit = true
  namespaceName : ∀ name, b.namespaceName = some name → isValidSegment name = true

variable {b}

theorem validateIdentifiers_ok : b.validateIdentifiers = .ok () ↔ b.ValidIdentifiers := by
  unfold validateIdentifiers
  constructor
  · intro h
    split_ifs at h with htarget hversion hcommit hname
    refine ⟨by simpa using htarget, by simpa using hversion, by simpa using hcommit, fun name hsome => ?_⟩
    rw [hsome, Option.any_some, Bool.not_eq_true, Bool.not_eq_false'] at hname
    exact hname
  · rintro ⟨htarget, hversion, hcommit, hname⟩
    have hname' : (b.namespaceName.any fun name => !isValidSegment name) = false := by
      rcases hsome : b.namespaceName with _ | name
      · rfl
      · rw [Option.any_some, hname name hsome, Bool.not_true]
    simp [htarget, hversion, hcommit, hname']

/-- The texts between the values are the keys and the punctuation of the compact document. -/
theorem record_texts :
    asBytes "\x7b\"schema\":" = 123 :: (writeString "schema" ++ [58]) ∧
    asBytes ",\"manifest_sha256\":" = 44 :: (writeString "manifest_sha256" ++ [58]) ∧
    asBytes ",\"manifest_length\":" = 44 :: (writeString "manifest_length" ++ [58]) ∧
    asBytes ",\"archive_sha256\":" = 44 :: (writeString "archive_sha256" ++ [58]) ∧
    asBytes ",\"archive_length\":" = 44 :: (writeString "archive_length" ++ [58]) ∧
    asBytes ",\"target\":\"" = 44 :: (writeString "target" ++ [58, 34]) ∧
    asBytes ",\"version\":\"" = 44 :: (writeString "version" ++ [58, 34]) ∧
    asBytes ",\"commit\":\"" = 44 :: (writeString "commit" ++ [58, 34]) ∧
    asBytes ",\"target_arch\":\"" = 44 :: (writeString "target_arch" ++ [58, 34]) ∧
    asBytes ",\"namespace\":" = 44 :: (writeString "namespace" ++ [58]) ∧
    asBytes ",\"trust_epoch\":" = 44 :: (writeString "trust_epoch" ++ [58]) ∧
    asBytes "\"" = [34] ∧ asBytes "null" = [110, 117, 108, 108] ∧ asBytes "\x7d\n" = [125, 10] := by
  decide +kernel

theorem toRecordBytes_compact (h : b.ValidIdentifiers) : b.toRecordBytes = compact (.obj b.members) ++ [10] := by
  obtain ⟨hschema, hmanifestSha256, hmanifestLength, harchiveSha256, harchiveLength, htarget, hversion, hcommit,
    htargetArch, hnamespace, htrustEpoch, hquote, hnull, hclose⟩ := record_texts
  have harch : ∀ c ∈ (archName b.targetArch).toList, JsonText.unescaped c = true := by
    rcases b.targetArch with _ | _ <;> exact forall_mem_of_all (by decide +kernel)
  have hname : (emitNamespace b.namespaceName).flatMap asBytes =
      Value.write (fun _ => []) (b.namespaceName.elim .null .str) := by
    rcases hsome : b.namespaceName with _ | name
    · simp [emitNamespace, hnull, Value.write]
    · simp [emitNamespace, hquote, Value.write, writeString_eq (unescaped_of_segment (h.namespaceName name hsome))]
  have hepoch : (emitTrustEpoch b.trustEpoch).flatMap asBytes =
      Value.write (fun _ => []) (b.trustEpoch.elim .null fun epoch => .num (.posInt epoch)) := by
    rcases b.trustEpoch with _ | epoch
    · simp [emitTrustEpoch, hnull, Value.write]
    · simp [emitTrustEpoch, asBytes_displayNat, Value.write, Number.write]
  rw [toRecordBytes_eq, texts, compact, members]
  simp only [List.flatMap_append, List.flatMap_cons, List.flatMap_nil, Digest.flatMap_emitDigest, hname, hepoch]
  simp [Value.write, writeMembers, Number.write, asBytes_displayNat, hschema, hmanifestSha256, hmanifestLength,
    harchiveSha256, harchiveLength, htarget, hversion, hcommit, htargetArch, hnamespace, htrustEpoch, hquote, hclose,
    writeString_eq (unescaped_of_safe h.target), writeString_eq (unescaped_of_safe h.version),
    writeString_eq (unescaped_of_commit h.commit), writeString_eq harch]

/-! ### Reading it back -/

theorem members_integral : (Value.obj b.members).integral = true := by
  rw [members]
  rcases b.namespaceName with _ | name <;> rcases b.trustEpoch with _ | epoch <;> rfl

theorem members_fits : (Value.obj b.members).fits 1 = true := by
  rw [members]
  rcases b.namespaceName with _ | name <;> rcases b.trustEpoch with _ | epoch <;> rfl

theorem toValue_members : (Value.obj b.members).toText.toValue recursionLimit = some (.obj (fromMembers b.members)) := by
  rw [members]
  rcases b.namespaceName with _ | name <;> rcases b.trustEpoch with _ | epoch <;> rfl

theorem text_toRecordBytes (h : b.ValidIdentifiers) : JsonText.Text true 1 b.toRecordBytes := by
  have hvalue : JsonText.Value true 1 (compact (.obj b.members)) := Value.text_write members_integral members_fits
  have hnewline : JsonText.Ws [10] := by
    intro byte hbyte
    rw [List.mem_singleton.mp hbyte]
    rfl
  rw [toRecordBytes_compact h]
  exact @JsonText.Text.mk true 1 [] _ [10] JsonText.ws_nil hvalue hnewline

theorem readRecord_members (h : b.ValidIdentifiers) (hschema : b.schema = RECORD_SCHEMA) :
    Record.readRecord (fromMembers b.members) = .ok b := by
  have hlookup (key : String) : (fromMembers b.members).lookup key = b.members.lookup key :=
    lookup_fromMembers_of_nodup (show (FIELDS.map Prod.snd).Nodup by decide)
  have hknown : ((fromMembers b.members).any fun member => !FIELDS.any fun field => field.2 == member.1) = false := by
    rw [List.any_eq_false]
    intro member hmember
    have hkey : member.1 ∈ b.members.map Prod.fst :=
      mem_keys_fromMembers.mp (List.mem_map_of_mem hmember)
    have hall : ∀ key ∈ b.members.map Prod.fst, (FIELDS.any fun field => field.2 == key) = true := by
      show ∀ key ∈ FIELDS.map Prod.snd, _
      decide
    rw [hall member.1 hkey]
    decide
  have hpresent (field : BindingField) {value : Value} (hfield : b.members.lookup field.key = some value) :
      Record.present (fromMembers b.members) field = .ok value := by
    rw [Record.present, hlookup, hfield]
  have hinteger (field : BindingField) {n : UInt64} (hfield : b.members.lookup field.key = some (.num (.posInt n))) :
      Record.integer (fromMembers b.members) field = .ok n := by
    rw [Record.integer, hpresent field hfield]
    rfl
  have hstring (field : BindingField) {s : String} (hfield : b.members.lookup field.key = some (.str s)) :
      Record.string (fromMembers b.members) field = .ok s := by
    rw [Record.string, hpresent field hfield]
    rfl
  have hidentifier (field : BindingField) {s : String} {valid : String → Bool} (hvalid : valid s = true)
      (hfield : b.members.lookup field.key = some (.str s)) :
      Record.identifier (fromMembers b.members) field valid = .ok s := by
    rw [Record.identifier, hstring field hfield, Checks.ok_bind, if_pos hvalid]
  have hdigest (field : BindingField) {d : Digest} (hfield : b.members.lookup field.key = some (.str d.text)) :
      Record.digest (fromMembers b.members) field = .ok d := by
    rw [Record.digest, hstring field hfield, Checks.ok_bind, d.parseDigest_text]
  have hversion : Record.readSchema (fromMembers b.members) = .ok () := by
    rw [Record.readSchema, hinteger .schema rfl, Checks.ok_bind, hschema]
    rfl
  have harch : Record.readTargetArch (fromMembers b.members) = .ok b.targetArch := by
    rw [Record.readTargetArch, hstring .targetArch rfl, Checks.ok_bind]
    rcases b.targetArch with _ | _ <;> rfl
  have hname : Record.readNamespace (fromMembers b.members) = .ok b.namespaceName := by
    rw [Record.readNamespace, hpresent .namespaceName rfl, Checks.ok_bind]
    rcases hsome : b.namespaceName with _ | name
    · rfl
    · exact if_pos (h.namespaceName name hsome)
  have hepoch : Record.readTrustEpoch (fromMembers b.members) = .ok b.trustEpoch := by
    rw [Record.readTrustEpoch, hpresent .trustEpoch rfl, Checks.ok_bind]
    rcases b.trustEpoch with _ | epoch <;> rfl
  rw [Record.readRecord, hversion, Checks.ok_bind, hknown, if_neg Bool.false_ne_true, hdigest .manifestSha256 rfl,
    Checks.ok_bind, hinteger .manifestLength rfl, Checks.ok_bind, hdigest .archiveSha256 rfl, Checks.ok_bind,
    hinteger .archiveLength rfl, Checks.ok_bind, hidentifier .target h.target rfl, Checks.ok_bind,
    hidentifier .version h.version rfl, Checks.ok_bind, hidentifier .commit h.commit rfl, Checks.ok_bind, harch,
    Checks.ok_bind, hname, Checks.ok_bind, hepoch, Checks.ok_bind, ← hschema]

theorem validIdentifiers_of_readRecord {object : Json.Members} (h : Record.readRecord object = .ok b) :
    b.ValidIdentifiers ∧ b.schema = RECORD_SCHEMA := by
  have hidentifier {field : BindingField} {valid : String → Bool} {s : String}
      (hread : Record.identifier object field valid = .ok s) : valid s = true := by
    obtain ⟨value, -, hread⟩ := Checks.bind_ok hread
    split at hread
    next hvalid =>
      cases hread
      exact hvalid
    · cases hread
  obtain ⟨-, -, h⟩ := Checks.bind_ok h
  split at h
  · cases h
  obtain ⟨manifestSha256, -, h⟩ := Checks.bind_ok h
  obtain ⟨manifestLength, -, h⟩ := Checks.bind_ok h
  obtain ⟨archiveSha256, -, h⟩ := Checks.bind_ok h
  obtain ⟨archiveLength, -, h⟩ := Checks.bind_ok h
  obtain ⟨target, htarget, h⟩ := Checks.bind_ok h
  obtain ⟨version, hversion, h⟩ := Checks.bind_ok h
  obtain ⟨commit, hcommit, h⟩ := Checks.bind_ok h
  obtain ⟨targetArch, -, h⟩ := Checks.bind_ok h
  obtain ⟨namespaceName, hname, h⟩ := Checks.bind_ok h
  obtain ⟨trustEpoch, -, h⟩ := Checks.bind_ok h
  cases h
  refine ⟨⟨hidentifier htarget, hidentifier hversion, hidentifier hcommit, fun name hsome => ?_⟩, rfl⟩
  obtain ⟨value, -, hname⟩ := Checks.bind_ok hname
  rcases value with _ | _ | _ | s | _ | _ <;> dsimp only at hname
  case str =>
    split at hname
    next hvalid =>
      cases hname
      cases hsome
      exact hvalid
    · cases hname
  all_goals cases hname
  cases hsome

theorem validIdentifiers_of_fromParts {parts : BindingParts} (h : fromParts parts = .ok b) :
    b.ValidIdentifiers ∧ b.schema = RECORD_SCHEMA := by
  obtain ⟨⟨⟩, hvalid, h⟩ := Checks.bind_ok h
  cases h
  exact ⟨validateIdentifiers_ok.mp hvalid, rfl⟩

section
variable {lib : Externals} {limits : ContentLimits} {bytes : Bytes}

/-- A text of the binding's members is read as the binding, where it is within the limit. -/
theorem parseRecord_of_text (h : b.ValidIdentifiers) (hschema : b.schema = RECORD_SCHEMA)
    (hlength : bytes.length ≤ (limits.resourceLimit .preparationRecord).max) (htext : JsonText.Text true 1 bytes)
    (hread : lib.readJson bytes = some (Value.obj b.members).toText) : parseRecord lib bytes limits = .ok b := by
  have hdepth : 1 ≤ (limits.resourceLimit .jsonDepth).max := limits.get_pos .jsonDepth rfl
  have hvalue : (lib.readJson bytes).bind (·.toValue recursionLimit) = some (.obj (fromMembers b.members)) := by
    rw [hread, Option.bind_some, toValue_members]
  have hparsed := parseJson_ok hlength (htext.mono hdepth) hvalue
  have hread := readRecord_members h hschema
  generalize fromMembers b.members = object at hparsed hread
  simp only [parseRecord, gt_iff_lt, if_neg (Nat.not_lt.mpr hlength), hparsed, Except.mapError, Checks.ok_bind, hread]

theorem validIdentifiers_of_parseRecord (h : parseRecord lib bytes limits = .ok b) :
    b.ValidIdentifiers ∧ b.schema = RECORD_SCHEMA := by
  unfold parseRecord at h
  dsimp only at h
  split at h
  · cases h
  obtain ⟨value, -, h⟩ := Checks.bind_ok h
  rcases value with _ | _ | _ | _ | _ | object <;> dsimp only at h
  case obj => exact validIdentifiers_of_readRecord (Checks.mapError_ok.mp h)
  all_goals cases h

/-- The reader reads the record as the document it is: compact text of its members, and a newline. -/
def ReadsRecord (lib : Externals) (b : PreparationBinding) : Prop :=
  lib.readJson b.toRecordBytes = some (Value.obj b.members).toText

/-- A record is read back exactly where it is within the limit. -/
theorem fromRecordBytes_toRecordBytes (h : b.ValidIdentifiers) (hschema : b.schema = RECORD_SCHEMA)
    (hread : ReadsRecord lib b) :
    fromRecordBytes lib b.toRecordBytes = .ok b ↔ b.recordLen ≤ ContentLimits.initial.get .preparationRecord := by
  have hfits : b.recordLen ≤ ContentLimits.initial.get .preparationRecord ↔
      b.toRecordBytes.length ≤ (ContentLimits.initial.resourceLimit .preparationRecord).max := by
    have hmost : (ContentLimits.initial.resourceLimit .preparationRecord).max < U64_MAX := by decide
    show _ ≤ (ContentLimits.initial.resourceLimit .preparationRecord).max ↔ _
    rw [recordLen_eq]
    omega
  rw [hfits]
  constructor
  · intro hread
    by_contra hlong
    rw [fromRecordBytes, parseRecord, if_pos (Nat.lt_of_not_le hlong)] at hread
    cases hread
  · intro hlength
    exact parseRecord_of_text h hschema hlength (text_toRecordBytes h) hread

/-- What is prepared is read back and written alike every way; what was accepted is read back where its record, newline
included, is within the limit. -/
theorem record_roundTrip (lib : Externals) :
    (∀ parts b limits, fromParts parts = .ok b → b.recordLen ≤ ContentLimits.get limits .preparationRecord →
      ReadsRecord lib b → fromRecordBytes lib b.toRecordBytes = .ok b ∧ b.recordLen = b.toRecordBytes.length ∧
        ∀ out, b.writeRecord out = out.writeAll b.toRecordBytes) ∧
    ∀ bytes b, fromRecordBytes lib bytes = .ok b → ReadsRecord lib b →
      (fromRecordBytes lib b.toRecordBytes = .ok b ↔ b.recordLen ≤ ContentLimits.initial.get .preparationRecord) := by
  refine ⟨fun parts b limits hparts hfits hread => ?_, fun bytes b haccepted hread => ?_⟩
  · obtain ⟨hvalid, hschema⟩ := validIdentifiers_of_fromParts hparts
    have hdefault : b.recordLen ≤ ContentLimits.initial.get .preparationRecord :=
      Nat.le_trans hfits (limits.get_le .preparationRecord)
    refine ⟨(fromRecordBytes_toRecordBytes hvalid hschema hread).mpr hdefault, ?_, b.writeRecord_eq⟩
    have hmost : ContentLimits.initial.get .preparationRecord < U64_MAX := by decide
    have hlen := b.recordLen_eq
    omega
  · obtain ⟨hvalid, hschema⟩ := validIdentifiers_of_parseRecord haccepted
    exact fromRecordBytes_toRecordBytes hvalid hschema hread

end

/-! ### A record of the limit without its newline -/

def shortBinding : PreparationBinding where
  schema := RECORD_SCHEMA
  manifestSha256 := ⟨List.replicate 32 0xaa, rfl⟩
  manifestLength := 4096
  archiveSha256 := ⟨List.replicate 32 0xbb, rfl⟩
  archiveLength := 1048576
  target := "example-app"
  version := "1.0.0"
  commit := "1111111111111111111111111111111111111111"
  targetArch := .x86_64
  namespaceName := none
  trustEpoch := none

def namespaceOf (n : Nat) : String := .ofList (List.replicate n 'a')

theorem byteLen_namespaceOf (n : Nat) : byteLen (namespaceOf n) = n := by
  have hascii : ∀ c ∈ List.replicate n 'a', c.toNat < 0x80 := by
    intro c hc
    rw [List.eq_of_mem_replicate hc]
    decide
  rw [namespaceOf, byteLen, asBytes_eq_encode, String.toList_ofList, encode_of_ascii hascii, List.length_map,
    List.length_replicate]

theorem isValidSegment_namespaceOf {n : Nat} (h : 0 < n) : isValidSegment (namespaceOf n) = true := by
  obtain ⟨k, rfl⟩ := Nat.exists_eq_succ_of_ne_zero (Nat.ne_of_gt h)
  rw [isValidSegment, namespaceOf, String.toList_ofList, List.replicate_succ, headTail.eq_def]
  simp only [List.all_replicate]
  rcases k with _ | k <;> rfl

def longBinding : PreparationBinding := { shortBinding with namespaceName := some (namespaceOf 65143) }

theorem length_toRecordBytes_namespace (b : PreparationBinding) (name : String) :
    ({ b with namespaceName := some name } : PreparationBinding).toRecordBytes.length + 2 =
      ({ b with namespaceName := none } : PreparationBinding).toRecordBytes.length + byteLen name := by
  have hquote : (asBytes "\"").length = 1 := by decide +kernel
  have hnull : (asBytes "null").length = 4 := by decide +kernel
  simp only [toRecordBytes_eq, texts, emitNamespace, List.flatMap_append, List.flatMap_cons, List.flatMap_nil,
    List.length_append, byteLen, hquote, hnull, List.length_nil]
  omega

/-- Lengths are compared for any namespace, so that none is counted out. -/
theorem length_namespaceOf {n m : Nat} (h : 394 + n = m) :
    ({ shortBinding with namespaceName := some (namespaceOf n) } : PreparationBinding).toRecordBytes.length = m := by
  have hshort : shortBinding.toRecordBytes.length = 396 := by decide +kernel
  have hnone : ({ shortBinding with namespaceName := none } : PreparationBinding).toRecordBytes.length = 396 := hshort
  have hnamespace := length_toRecordBytes_namespace shortBinding (namespaceOf n)
  rw [byteLen_namespaceOf, hnone] at hnamespace
  have hsum : 396 + n = m + 2 := by omega
  exact Nat.add_right_cancel (hnamespace.trans hsum)

theorem length_compact {b : PreparationBinding} {m : Nat} (h : b.ValidIdentifiers) (hlength : b.toRecordBytes.length = m + 1) :
    (compact (.obj b.members)).length = m := by
  have hnewline := congrArg List.length (toRecordBytes_compact h)
  rw [hlength, List.length_append, List.length_singleton] at hnewline
  exact (Nat.add_right_cancel hnewline).symm

/-- A reader that knows one record, with and without its newline. -/
def longExternals : Externals where
  readJson _ := some (Value.obj longBinding.members).toText
  base64Decode _ := none
  sha256 _ := []
  verifies _ _ _ _ := false

theorem fromRecordBytes_withoutNewline :
    fromRecordBytes longExternals (compact (.obj longBinding.members)) = .ok longBinding ∧
    fromRecordBytes longExternals longBinding.toRecordBytes = .error (.limitExceeded .preparationRecord 65536) := by
  have hlength : longBinding.toRecordBytes.length = 65537 := length_namespaceOf rfl
  have hvalid : longBinding.ValidIdentifiers := by
    refine ⟨by decide +kernel, by decide +kernel, by decide +kernel, fun name hsome => ?_⟩
    rw [← Option.some.inj hsome]
    exact isValidSegment_namespaceOf (by decide)
  have hcompact : (compact (.obj longBinding.members)).length ≤ 65536 := Nat.le_of_eq (length_compact hvalid hlength)
  have htext : JsonText.Text true 1 (compact (.obj longBinding.members)) := by
    have hvalue : JsonText.Value true 1 (compact (.obj longBinding.members)) :=
      Value.text_write members_integral members_fits
    have hmk := @JsonText.Text.mk true 1 [] _ [] JsonText.ws_nil hvalue JsonText.ws_nil
    rwa [List.nil_append, List.append_nil] at hmk
  refine ⟨parseRecord_of_text hvalid rfl hcompact htext rfl, ?_⟩
  rw [fromRecordBytes, parseRecord]
  exact if_pos (by rw [hlength]; decide)

end PreparationBinding

end DeployCore
