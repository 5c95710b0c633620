import DeployCore.TrustSetDocument

/-! # What the trust-set reader accepts

`readTrustSetDocument` is to refuse whatever it cannot account for (`DocumentAccounted`). It does so for the fields of every
object, but a struct is also read from an array of its fields, and the check of the fields passes over such an entry. -/

namespace DeployCore
open Serde Json

/-- The entries of the arrays under a field of the document. -/
def fieldEntries (field : String) : Text → List Text
  | .obj members => members.flatMap fun
    | (some name, .arr entries) => if name = field then entries else []
    | _ => []
  | _ => []

/-- Every key is read, known and not repeated. -/
def KnownOnce (known : List String) (members : List (Option String × Text)) : Prop :=
  ∃ keys : List String, members.map Prod.fst = keys.map some ∧ keys.Nodup ∧ ∀ key ∈ keys, key ∈ known

/-- Every anchor and every withdrawn build is written as an object. -/
def EntriesAreObjects (text : Text) : Prop :=
  ∀ field ∈ [ANCHORS_FIELD, WITHDRAWN_BUILDS_FIELD], ∀ entry ∈ fieldEntries field text, ∃ members, entry = .obj members

/-- A document that the reader can account for, but for the form of its entries. -/
structure ContentAccounted (lib : Externals) (text : Text) (document : TrustSetDocument) : Prop where
  version : document.trustSetVersion = TRUST_SET_VERSION
  epoch : 0 < document.epoch
  live : ∀ algorithm, ∃ anchor ∈ document.anchors, anchor.algorithm = algorithm ∧ anchor.revoked = false
  derived : ∀ anchor ∈ document.anchors, ∃ publicKey,
    decodeLowercaseHex anchor.publicKey anchor.algorithm.publicKeyLen = some publicKey ∧ anchor.keyId = keyId lib publicKey
  keyIds : (document.anchors.map TrustSetAnchor.keyId).Nodup
  safe : ∀ build ∈ document.withdrawnBuilds, isSafeBuildIdentifier build.packageId = true ∧
    isSafeBuildIdentifier build.version = true ∧ isSafeBuildIdentifier build.commit = true
  withdrawn : document.withdrawnBuilds.Nodup
  fields : ∃ members, text = .obj members ∧ KnownOnce TOP_LEVEL_FIELDS members
  anchorFields : ∀ members, .obj members ∈ fieldEntries ANCHORS_FIELD text → KnownOnce ANCHOR_FIELDS members
  withdrawnFields : ∀ members, .obj members ∈ fieldEntries WITHDRAWN_BUILDS_FIELD text →
    KnownOnce WITHDRAWN_BUILD_FIELDS members

/-- A document that the reader can account for. -/
structure DocumentAccounted (lib : Externals) (text : Text) (document : TrustSetDocument) : Prop where
  content : ContentAccounted lib text document
  objects : EntriesAreObjects text

/-! ### The fields -/

theorem TrustSetAnchor.knownOnce {members : List (Option String × Text)} {d : Nat} {anchor : TrustSetAnchor}
    (h : TrustSetAnchor.decoder.text (.obj members) d = some anchor) : KnownOnce ANCHOR_FIELDS members :=
  Decoder.record_text_keys (.cons <| .cons <| .cons <| .cons .nil) h

theorem WithdrawnBuild.knownOnce {members : List (Option String × Text)} {d : Nat} {build : WithdrawnBuild}
    (h : WithdrawnBuild.decoder.text (.obj members) d = some build) : KnownOnce WITHDRAWN_BUILD_FIELDS members :=
  Decoder.record_text_keys (.cons <| .cons <| .cons .nil) h

theorem TrustSetDocument.knownOnce {members : List (Option String × Text)} {d : Nat} {document : TrustSetDocument}
    (h : TrustSetDocument.decoder.text (.obj members) d = some document) : KnownOnce TOP_LEVEL_FIELDS members :=
  Decoder.record_text_keys (.cons <| .cons <| .cons <| .cons <| .cons .nil) h

theorem mem_fieldEntries {field : String} {members : List (Option String × Text)} {entry : Text}
    (h : entry ∈ fieldEntries field (.obj members)) : ∃ entries, (some field, .arr entries) ∈ members ∧ entry ∈ entries := by
  obtain ⟨⟨key, t⟩, hmem, hentry⟩ := List.mem_flatMap.mp h
  rcases key with _ | name
  · cases hentry
  cases t with
  | arr entries =>
    dsimp only at hentry
    split at hentry
    · next hname => exact ⟨entries, hname ▸ hmem, hentry⟩
    · cases hentry
  | _ => cases hentry

/-- The entries of a field that is read as a sequence are read, each on its own. -/
theorem exists_of_mem_fieldEntries {α : Type} {field : String} {default : Option (List α)} {D : Decoder α}
    {members : List (Option String × Text)} {ms : List (String × Text)} {d : Nat} {as : List α} {entry : Text}
    (hms : readKeys members = some ms) (ha : Fields.fieldText field default D.seq ms d = some as)
    (h : entry ∈ fieldEntries field (.obj members)) : ∃ d' a, D.text entry d' = some a := by
  obtain ⟨entries, hmem, hentry⟩ := mem_fieldEntries h
  rw [Decoder.readKeys_eq_some hms] at hmem
  obtain ⟨⟨name, t⟩, hfield, heq⟩ := List.mem_map.mp hmem
  obtain ⟨hname, rfl⟩ := Prod.mk.inj heq
  obtain rfl := Option.some.inj hname
  have hseq := Fields.text_of_fieldText ha hfield
  simp only [Decoder.seq] at hseq
  split at hseq
  · cases hseq
  · obtain ⟨a, ha⟩ := Checks.exists_of_mapM hseq entry hentry
    exact ⟨_, a, ha⟩

section
variable {lib : Externals} {bytes : Bytes} {document : TrustSetDocument}

theorem TrustSetDocument.entries_of_decoder {members : List (Option String × Text)} {d : Nat}
    (h : decoder.text (.obj members) d = some document) :
    (∀ entry ∈ fieldEntries ANCHORS_FIELD (.obj members), ∃ d' anchor, TrustSetAnchor.decoder.text entry d' = some anchor) ∧
      ∀ entry ∈ fieldEntries WITHDRAWN_BUILDS_FIELD (.obj members),
        ∃ d' build, WithdrawnBuild.decoder.text entry d' = some build := by
  obtain ⟨ms, fields, hms, hfields, rfl⟩ := Decoder.record_text_obj h
  simp only [Fields.cons, Option.bind_eq_bind, Option.bind_eq_some_iff, Option.some.injEq] at hfields
  obtain ⟨_, -, _, ⟨_, -, _, ⟨_, -, _, ⟨anchors, hanchors, _, ⟨builds, hbuilds, _, -, rfl⟩, rfl⟩, rfl⟩, rfl⟩, rfl⟩ := hfields
  exact ⟨fun entry => exists_of_mem_fieldEntries hms hanchors, fun entry => exists_of_mem_fieldEntries hms hbuilds⟩

/-! ### The version -/

theorem toUInt64_toUInt32 {n : UInt64} (h : n.toNat < 2 ^ 32) : n.toUInt32.toUInt64 = n := by
  apply UInt64.toNat_inj.mp
  rw [UInt32.toNat_toUInt64, UInt64.toNat_toUInt32, Nat.mod_eq_of_lt h]

theorem readVersionGate_ok {object : Json.Members} (h : readVersionGate lib bytes = .ok object) :
    (lib.readJson bytes).bind (·.toValue recursionLimit) = some (.obj object) ∧
      ∃ value, object.lookup TRUST_SET_VERSION_FIELD = some value ∧ value.asU64 = some TRUST_SET_VERSION.toUInt64 := by
  unfold readVersionGate at h
  split at h
  · next object' hobject =>
    split at h
    · cases h
    · cases h
    next value _ hlookup =>
    split at h
    · next found hfound =>
      split at h
      · next hlt =>
        split at h
        · cases h
        next heq =>
          cases h
          refine ⟨hobject, value, hlookup, hfound.trans (congrArg some ?_)⟩
          rw [← not_not.mp heq, toUInt64_toUInt32 hlt]
      · cases h
    · cases h
  · cases h

theorem asU64_of_u32 {t : Text} {d : Nat} {v : Value} {n : UInt32} (h : t.toValue d = some v)
    (hn : Decoder.u32.text t d = some n) : ∃ m, v.asU64 = some m ∧ m.toUInt32 = n := by
  rw [Decoder.u32.agree h trivial] at hn
  cases v with
  | num k =>
    cases k with
    | posInt k =>
      simp only [Decoder.u32, Decoder.scalar] at hn
      split at hn
      · exact ⟨k, rfl, Option.some.inj hn⟩
      · cases hn
    | _ => cases hn
  | _ => cases hn

theorem version_of_decoder {members : List (Option String × Text)} {d : Nat} {object : Json.Members} {value : Value}
    (h : (Text.obj members).toValue d = some (.obj object))
    (hdocument : TrustSetDocument.decoder.text (.obj members) d = some document)
    (hlookup : object.lookup TRUST_SET_VERSION_FIELD = some value)
    (hvalue : value.asU64 = some TRUST_SET_VERSION.toUInt64) : document.trustSetVersion = TRUST_SET_VERSION := by
  obtain ⟨-, ms, vs, hms, hdecoded, heq⟩ := toValue_obj h
  obtain rfl := Value.obj.inj heq
  obtain ⟨ms', fields, hms', hfields, rfl⟩ := Decoder.record_text_obj hdocument
  obtain rfl := Option.some.inj (hms.symm.trans hms')
  simp only [Fields.cons, Option.bind_eq_bind, Option.bind_eq_some_iff, Option.some.injEq] at hfields
  obtain ⟨version, hversion, _, -, rfl⟩ := hfields
  obtain hdefault | ⟨_, v, hv, hread, hlookup'⟩ := Fields.lookup_of_fieldText hdecoded hversion
  · cases hdefault
  obtain rfl := Option.some.inj (hlookup.symm.trans hlookup')
  obtain ⟨m, hm, rfl⟩ := asU64_of_u32 hv hread
  obtain rfl := Option.some.inj (hm.symm.trans hvalue)
  rfl

/-- A document of another version is refused for it before anything else is looked at. -/
theorem readTrustSetDocument_version {object : Json.Members} {number : Number}
    (hobject : (lib.readJson bytes).bind (·.toValue recursionLimit) = some (.obj object))
    (hlookup : object.lookup TRUST_SET_VERSION_FIELD = some (.num number))
    (hne : number ≠ .posInt TRUST_SET_VERSION.toUInt64) :
    readTrustSetDocument lib bytes = .error .malformedVersion ∨
      ∃ found, found ≠ TRUST_SET_VERSION ∧ readTrustSetDocument lib bytes = .error (.unsupportedVersion found) := by
  have hread {e : TrustSetDocumentError} (hgate : readVersionGate lib bytes = .error e) :
      readTrustSetDocument lib bytes = .error e := by
    rw [readTrustSetDocument, hgate]
    rfl
  rw [readVersionGate, hobject] at hread
  simp only [hlookup] at hread
  cases number with
  | posInt found =>
    simp only [Value.asU64] at hread
    by_cases hlt : found.toNat < 2 ^ 32
    · have hfound : found.toUInt32 ≠ TRUST_SET_VERSION := fun heq => hne (by
        rw [← heq, toUInt64_toUInt32 hlt])
      exact .inr ⟨_, hfound, hread (by rw [if_pos hlt, if_pos hfound])⟩
    · exact .inl (hread (by rw [if_neg hlt]))
  | negInt => exact .inl (hread rfl)
  | float => exact .inl (hread rfl)

/-! ### The content -/

theorem checkAnchor_derived {anchor : TrustSetAnchor} (h : checkAnchor lib anchor = .ok ()) : ∃ publicKey,
    decodeLowercaseHex anchor.publicKey anchor.algorithm.publicKeyLen = some publicKey ∧
      anchor.keyId = keyId lib publicKey := by
  unfold checkAnchor at h
  split at h
  · cases h
  split at h
  · cases h
  next publicKey hkey =>
  split at h
  · cases h
  next hid => exact ⟨publicKey, hkey, (not_not.mp hid).symm⟩

theorem checkWithdrawnBuild_safe {build : WithdrawnBuild} (h : checkWithdrawnBuild build = .ok ()) :
    isSafeBuildIdentifier build.packageId = true ∧ isSafeBuildIdentifier build.version = true ∧
      isSafeBuildIdentifier build.commit = true := by
  have hsafe {field : BuildIdentifier} {value : String} (h : checkWithdrawnIdentifier field value = .ok ()) :
      isSafeBuildIdentifier value = true := by
    by_contra hunsafe
    rw [checkWithdrawnIdentifier, if_neg hunsafe] at h
    cases h
  obtain ⟨_, hpackage, h⟩ := Checks.bind_ok h
  obtain ⟨_, hversion, hcommit⟩ := Checks.bind_ok h
  exact ⟨hsafe hpackage, hsafe hversion, hsafe hcommit⟩

theorem contentAccounted {text : Text} (h : readTrustSetDocument lib bytes = .ok document)
    (hread : lib.readJson bytes = some text) : ContentAccounted lib text document := by
  obtain ⟨_, object, hread', htext, hdocument, hchecked⟩ := readTrustSetDocument_ok h
  obtain rfl := Option.some.inj (hread.symm.trans hread')
  obtain ⟨object', hgate, -⟩ := Checks.bind_ok h
  obtain ⟨hobject, value, hlookup, hvalue⟩ := readVersionGate_ok hgate
  rw [hread, Option.bind_some, htext] at hobject
  obtain rfl := Value.obj.inj (Option.some.inj hobject)
  obtain ⟨members, rfl⟩ : ∃ members, text = .obj members := by
    cases text with
    | obj members => exact ⟨members, rfl⟩
    | arr => obtain ⟨-, _, -, heq⟩ := toValue_arr htext; cases heq
    | unreadable => cases htext
    | _ => cases htext
  obtain ⟨hanchorEntries, hwithdrawnEntries⟩ := TrustSetDocument.entries_of_decoder hdocument
  unfold checkDocument at hchecked
  split at hchecked
  · cases hchecked
  next hepoch =>
  split at hchecked
  · cases hchecked
  split at hchecked
  · cases hchecked
  obtain ⟨_, hlive, hchecked⟩ := Checks.bind_ok hchecked
  obtain ⟨_, hanchors, hchecked⟩ := Checks.bind_ok hchecked
  obtain ⟨_, hbuilds, -⟩ := Checks.bind_ok hchecked
  obtain ⟨hanchor, -, hkeyIds, -⟩ := Checks.collectDistinct_ok hanchors
  obtain ⟨hbuild, -, hwithdrawn, -⟩ := Checks.collectDistinct_ok hbuilds
  exact {
    version := version_of_decoder htext hdocument hlookup hvalue
    epoch := UInt64.pos_iff_ne_zero.mpr hepoch
    live := fun algorithm => by
      have hany := Checks.each_if_ok hlive algorithm (by cases algorithm <;> decide)
      obtain ⟨anchor, hmem, hboth⟩ := List.any_eq_true.mp hany
      rw [Bool.and_eq_true, beq_iff_eq, Bool.not_eq_true'] at hboth
      exact ⟨anchor, hmem, hboth⟩
    derived := fun anchor hmem => checkAnchor_derived (hanchor anchor hmem)
    keyIds := hkeyIds
    safe := fun build hmem => checkWithdrawnBuild_safe (hbuild build hmem)
    withdrawn := by simpa using hwithdrawn
    fields := ⟨members, rfl, TrustSetDocument.knownOnce hdocument⟩
    anchorFields := fun _ hentry => by
      obtain ⟨_, _, hanchor⟩ := hanchorEntries _ hentry
      exact TrustSetAnchor.knownOnce hanchor
    withdrawnFields := fun _ hentry => by
      obtain ⟨_, _, hbuild⟩ := hwithdrawnEntries _ hentry
      exact WithdrawnBuild.knownOnce hbuild }

/-- All that the reader accepts is accounted for if, and only if, no entry is an array; and a document of another version
is refused for its version. -/
theorem readTrustSetDocument_accounts (lib : Externals) (bytes : Bytes) :
    (∀ document, readTrustSetDocument lib bytes = .ok document → ∃ text, lib.readJson bytes = some text ∧
      ContentAccounted lib text document ∧ (DocumentAccounted lib text document ↔ EntriesAreObjects text)) ∧
    ∀ object number, (lib.readJson bytes).bind (·.toValue recursionLimit) = some (.obj object) →
      object.lookup TRUST_SET_VERSION_FIELD = some (.num number) → number ≠ .posInt TRUST_SET_VERSION.toUInt64 →
      readTrustSetDocument lib bytes = .error .malformedVersion ∨
        ∃ found, found ≠ TRUST_SET_VERSION ∧ readTrustSetDocument lib bytes = .error (.unsupportedVersion found) := by
  refine ⟨fun document h => ?_, fun _ _ => readTrustSetDocument_version⟩
  obtain ⟨text, _, hread, -⟩ := readTrustSetDocument_ok h
  have hcontent := contentAccounted h hread
  exact ⟨text, hread, hcontent, DocumentAccounted.objects, DocumentAccounted.mk hcontent⟩

/-- A document whose anchors are written as arrays is accepted. -/
theorem readTrustSetDocument_array :
    ∃ lib bytes text document, lib.readJson bytes = some text ∧ readTrustSetDocument lib bytes = .ok document ∧
      ¬ DocumentAccounted lib text document := by
  refine ⟨documentExternals [arrayEntry "ed25519" (zeroKeyId .ed25519) (zeroPublicKey .ed25519),
    arrayEntry "ml-dsa-87" (zeroKeyId .mlDsa87) (zeroPublicKey .mlDsa87)], arrayDocumentBytes, _, zeroDocument, rfl,
    readTrustSetDocument_documentText rfl toValues_arrayEntries rfl rfl (checkDocument_zero rfl), fun h => ?_⟩
  obtain ⟨_, hobject⟩ := h.objects ANCHORS_FIELD List.mem_cons_self
    (arrayEntry "ed25519" (zeroKeyId .ed25519) (zeroPublicKey .ed25519)) (by simp [fieldEntries, documentText, ANCHORS_FIELD])
  cases hobject

end

end DeployCore
