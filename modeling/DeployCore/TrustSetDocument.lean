import DeployCore.ManifestDoors
import DeployCore.Statements

/-! # Trust-set documents

A generation document is decoded twice: by `provisionalAnchorsAndEpoch`, before anything has authenticated it, and
by `readTrustSetDocument`, which refuses whatever it cannot account for. `provisional_agrees_iff` says for which
accepted documents the first decode agrees with the second. -/

namespace DeployCore
open Serde Json

def TRUST_SET_VERSION : UInt32 := 2
def TRUST_SET_VERSION_FIELD : String := "trust_set_version"
def EPOCH_FIELD : String := "epoch"
def ANCHORS_FIELD : String := "anchors"
def ALGORITHM_FIELD : String := "algorithm"
def PUBLIC_KEY_FIELD : String := "public_key"
def REVOKED_FIELD : String := "revoked"
def WITHDRAWN_BUILDS_FIELD : String := "withdrawn_builds"
def DOCUMENT_LOCATION : String := "the document"

def TOP_LEVEL_FIELDS : List String :=
  [TRUST_SET_VERSION_FIELD, EPOCH_FIELD, "min_manifest_format_version", ANCHORS_FIELD, WITHDRAWN_BUILDS_FIELD]

def ANCHOR_FIELDS : List String := [ALGORITHM_FIELD, "key_id", PUBLIC_KEY_FIELD, REVOKED_FIELD]
def WITHDRAWN_BUILD_FIELDS : List String := ["package_id", "version", "commit"]

/-- The algorithm a document's string names. -/
def algorithmNamed (name : String) : Option SignatureAlgorithm :=
  if name = "ed25519" then some .ed25519
  else if name = "ml-dsa-87" then some .mlDsa87
  else none

/-- One anchor entry, as it is written. -/
structure TrustSetAnchor where
  algorithm : SignatureAlgorithm
  keyId : String
  publicKey : String
  revoked : Bool
  deriving DecidableEq

def TrustSetAnchor.decoder : Decoder TrustSetAnchor :=
  .record true
    (.cons ALGORITHM_FIELD none (.refine algorithmNamed .string) <| .cons "key_id" none .string <|
      .cons PUBLIC_KEY_FIELD none .string <| .cons REVOKED_FIELD none .bool .nil)
    fun (algorithm, keyId, publicKey, revoked, ()) => ⟨algorithm, keyId, publicKey, revoked⟩

structure WithdrawnBuild where
  packageId : String
  version : String
  commit : String
  deriving DecidableEq

def WithdrawnBuild.decoder : Decoder WithdrawnBuild :=
  .record true (.cons "package_id" none .string <| .cons "version" none .string <| .cons "commit" none .string .nil)
    fun (packageId, version, commit, ()) => ⟨packageId, version, commit⟩

/-- One generation of trust material. -/
structure TrustSetDocument where
  trustSetVersion : UInt32
  epoch : UInt64
  minManifestFormatVersion : UInt32
  anchors : List TrustSetAnchor
  withdrawnBuilds : List WithdrawnBuild
  deriving DecidableEq

def TrustSetDocument.decoder : Decoder TrustSetDocument :=
  .record true
    (.cons TRUST_SET_VERSION_FIELD none .u32 <| .cons EPOCH_FIELD (some 0) .u64 <|
      .cons "min_manifest_format_version" none .u32 <| .cons ANCHORS_FIELD none (.seq TrustSetAnchor.decoder) <|
      .cons WITHDRAWN_BUILDS_FIELD none (.seq WithdrawnBuild.decoder) .nil)
    fun (trustSetVersion, epoch, minManifestFormatVersion, anchors, withdrawnBuilds, ()) =>
      ⟨trustSetVersion, epoch, minManifestFormatVersion, anchors, withdrawnBuilds⟩

inductive TrustSetDocumentError
  | malformedJson
  | malformedVersion
  | unsupportedVersion (found : UInt32)
  | unknownField (location field : String)
  | decode
  | absentEpoch
  | noAnchors
  | allAnchorsRevoked
  | missingLiveAnchor (algorithm : SignatureAlgorithm)
  | malformedKeyId (keyId : String)
  | malformedPublicKey (algorithm : SignatureAlgorithm) (publicKey : String)
  | keyIdMismatch (declared derived : String)
  | duplicateKeyId (keyId : String)
  | unsafeBuildIdentifier (field : BuildIdentifier) (value : String)
  | duplicateWithdrawnBuild (packageId version commit : String)
  deriving DecidableEq

/-! ### Hexadecimal keys -/

def hexNibble (c : Char) : Option UInt8 :=
  if isAsciiDigit c then some (.ofNat (c.toNat - '0'.toNat))
  else if 'a' ≤ c && c ≤ 'f' then some (.ofNat (c.toNat - 'a'.toNat + 10))
  else none

/-- The bytes of the pairs of digits. -/
def hexPairs : List Char → Option Bytes
  | high :: low :: cs => do
    let high ← hexNibble high
    let low ← hexNibble low
    let bytes ← hexPairs cs
    some ((high <<< 4 ||| low) :: bytes)
  | _ => some []

/-- Exactly this many bytes in lowercase hex; only ASCII characters are digits, so characters count as bytes do. -/
def isLowercaseHex (value : String) (len : Nat) : Bool :=
  value.toList.length == len * 2 && value.toList.all fun c => (hexNibble c).isSome

def decodeLowercaseHex (value : String) (len : Nat) : Option Bytes :=
  if value.toList.length ≠ len * 2 then none else hexPairs value.toList

theorem length_hexPairs {cs : List Char} {bytes : Bytes} (h : hexPairs cs = some bytes) : bytes.length = cs.length / 2 := by
  induction cs using hexPairs.induct generalizing bytes with
  | case1 high low cs ih =>
    simp only [hexPairs, Option.bind_eq_bind, Option.bind_eq_some_iff, Option.some.injEq] at h
    obtain ⟨_, -, _, -, bytes, hbytes, rfl⟩ := h
    rw [List.length_cons, ih hbytes, List.length_cons, List.length_cons]
    omega
  | case2 cs hcs =>
    rcases cs with _ | ⟨high, _ | ⟨low, cs⟩⟩
    · cases h
      rfl
    · cases h
      simp
    · exact absurd rfl (hcs _ _ _)

theorem length_decodeLowercaseHex {value : String} {len : Nat} {bytes : Bytes}
    (h : decodeLowercaseHex value len = some bytes) : bytes.length = len := by
  unfold decodeLowercaseHex at h
  split at h
  · cases h
  · next hlen =>
    rw [length_hexPairs h]
    omega

theorem hexNibble_digitChar {n : Nat} (h : n < 16) : hexNibble (Nat.digitChar n) = some (.ofNat n) := by
  revert n
  decide

theorem nibbles_eq (byte : UInt8) : UInt8.ofNat (byte.toNat / 16) <<< 4 ||| UInt8.ofNat (byte.toNat % 16) = byte := by
  have hall : ∀ n < 256, UInt8.ofNat (n / 16) <<< 4 ||| UInt8.ofNat (n % 16) = UInt8.ofNat n := by decide +kernel
  rw [hall byte.toNat byte.toNat_lt, UInt8.ofNat_toNat]

theorem hexPairs_digits (bytes : Bytes) :
    hexPairs (bytes.flatMap fun byte => [Nat.digitChar (byte.toNat / 16), Nat.digitChar (byte.toNat % 16)]) = some bytes := by
  induction bytes with
  | nil => rfl
  | cons byte bytes ih =>
    have hlt := byte.toNat_lt
    rw [List.flatMap_cons, List.cons_append, List.cons_append, List.nil_append, hexPairs, ih,
      hexNibble_digitChar (by omega), hexNibble_digitChar (by omega)]
    simp [nibbles_eq]

theorem length_toHex (bytes : Bytes) : (toHex bytes).toList.length = bytes.length * 2 := by
  simp [toHex, List.length_flatMap]

/-- A key survives its text. -/
theorem decodeLowercaseHex_toHex (bytes : Bytes) : decodeLowercaseHex (toHex bytes) bytes.length = some bytes := by
  rw [decodeLowercaseHex, if_neg (not_not.mpr (length_toHex bytes)), toHex, String.toList_ofList, hexPairs_digits]

theorem isLowercaseHex_toHex (bytes : Bytes) : isLowercaseHex (toHex bytes) bytes.length = true := by
  have hall : ∀ c ∈ (toHex bytes).toList, (hexNibble c).isSome = true := by
    intro c hc
    simp only [toHex, String.toList_ofList, List.mem_flatMap, List.mem_cons, List.not_mem_nil, or_false] at hc
    obtain ⟨byte, -, rfl | rfl⟩ := hc
    · rw [hexNibble_digitChar (by have := byte.toNat_lt; omega)]
      rfl
    · rw [hexNibble_digitChar (by omega)]
      rfl
  simp only [isLowercaseHex, length_toHex, beq_self_eq_true, Bool.true_and, List.all_eq_true]
  exact hall

/-- The verifier's anchor of a document's key text. -/
def anchorOf (lib : Externals) (algorithm : SignatureAlgorithm) (publicKey : String) (revoked : Bool) :
    Option TrustAnchor :=
  match h : decodeLowercaseHex publicKey algorithm.publicKeyLen with
  | some bytes => some (.of lib algorithm bytes revoked (length_decodeLowercaseHex h))
  | none => none

/-! ### The decode before verification -/

/-- One anchor entry, its `key_id` unread. -/
def provisionalAnchor (lib : Externals) (entry : Value) : Option TrustAnchor := do
  let algorithm ← ((entry.get ALGORITHM_FIELD).bind Value.asStr).bind algorithmNamed
  let publicKey ← (entry.get PUBLIC_KEY_FIELD).bind Value.asStr
  let revoked ← (entry.get REVOKED_FIELD).bind Value.asBool
  anchorOf lib algorithm publicKey revoked

def provisionalAnchorsAndEpoch (lib : Externals) (bytes : Bytes) : Option (List TrustAnchor × UInt64) := do
  let document ← (lib.readJson bytes).bind (·.toValue recursionLimit)
  let epoch ← (document.get EPOCH_FIELD).bind Value.asU64
  let entries ← (document.get ANCHORS_FIELD).bind Value.asArray
  let anchors ← entries.mapM (provisionalAnchor lib)
  some (anchors, epoch)

/-- The candidate set a generation is self-admitted against. -/
def selfAdmissionCandidate (lib : Externals) (bytes : Bytes) : Option (TrustSet × UInt64) := do
  let (anchors, epoch) ← provisionalAnchorsAndEpoch lib bytes
  let trust ← (TrustSet.new anchors [] 0 epoch).toOption
  some (trust, epoch)

def documentAnchors (lib : Externals) (document : TrustSetDocument) : Option (List TrustAnchor) :=
  document.anchors.mapM fun anchor => anchorOf lib anchor.algorithm anchor.publicKey anchor.revoked

/-! ### The refusing reader -/

/-- Stage A: the version gate, and the object whose key sets are checked. -/
def readVersionGate (lib : Externals) (bytes : Bytes) : Except TrustSetDocumentError Json.Members :=
  match (lib.readJson bytes).bind (·.toValue recursionLimit) with
  | some (.obj object) =>
    match object.lookup TRUST_SET_VERSION_FIELD with
    | none | some .null => .error .malformedVersion
    | some value =>
      match value.asU64 with
      | some found =>
        if found.toNat < 2 ^ 32 then
          if found.toUInt32 ≠ TRUST_SET_VERSION then .error (.unsupportedVersion found.toUInt32) else .ok object
        else .error .malformedVersion
      | none => .error .malformedVersion
  | _ => .error .malformedJson

def unknownKey (object : Json.Members) (known : List String) : Option String :=
  (object.map Prod.fst).find? (!known.contains ·)

/-- The unknown fields of an array's object entries; other entries are left alone. -/
def checkEntryKeysFrom (arrayField : String) (known : List String) : Nat → List Value → Except TrustSetDocumentError Unit
  | _, [] => .ok ()
  | index, entry :: entries =>
    match entry with
    | .obj object =>
      match unknownKey object known with
      | some field => .error (.unknownField ("`" ++ arrayField ++ "` entry " ++ toString index) field)
      | none => checkEntryKeysFrom arrayField known (index + 1) entries
    | _ => checkEntryKeysFrom arrayField known (index + 1) entries

def checkEntryKeys (object : Json.Members) (arrayField : String) (known : List String) : Except TrustSetDocumentError Unit :=
  match object.lookup arrayField with
  | some (.arr entries) => checkEntryKeysFrom arrayField known 0 entries
  | _ => .ok ()

/-- Stage B, first half. -/
def checkUnknownFields (object : Json.Members) : Except TrustSetDocumentError Unit := do
  match unknownKey object TOP_LEVEL_FIELDS with
  | some field => .error (.unknownField DOCUMENT_LOCATION field)
  | none => do
    checkEntryKeys object ANCHORS_FIELD ANCHOR_FIELDS
    checkEntryKeys object WITHDRAWN_BUILDS_FIELD WITHDRAWN_BUILD_FIELDS

/-- Stage B, second half: from the text, so that a repeated key is refused. -/
def decodeDocument (lib : Externals) (bytes : Bytes) : Except TrustSetDocumentError TrustSetDocument :=
  match (lib.readJson bytes).bind (TrustSetDocument.decoder.text · recursionLimit) with
  | some document => .ok document
  | none => .error .decode

def checkAnchor (lib : Externals) (anchor : TrustSetAnchor) : Except TrustSetDocumentError Unit :=
  if !isLowercaseHex anchor.keyId 32 then .error (.malformedKeyId anchor.keyId)
  else
    match decodeLowercaseHex anchor.publicKey anchor.algorithm.publicKeyLen with
    | none => .error (.malformedPublicKey anchor.algorithm anchor.publicKey)
    | some publicKey =>
      if keyId lib publicKey ≠ anchor.keyId then .error (.keyIdMismatch anchor.keyId (keyId lib publicKey)) else .ok ()

def checkWithdrawnIdentifier (field : BuildIdentifier) (value : String) : Except TrustSetDocumentError Unit :=
  if isSafeBuildIdentifier value then .ok () else .error (.unsafeBuildIdentifier field value)

def checkWithdrawnBuild (build : WithdrawnBuild) : Except TrustSetDocumentError Unit := do
  checkWithdrawnIdentifier .component build.packageId
  checkWithdrawnIdentifier .version build.version
  checkWithdrawnIdentifier .commit build.commit

/-- Stage C: the anchor list as a whole, then each anchor, then each withdrawn build. -/
def checkDocument (lib : Externals) (document : TrustSetDocument) : Except TrustSetDocumentError Unit := do
  if document.epoch = 0 then .error .absentEpoch
  else if document.anchors.isEmpty then .error .noAnchors
  else if document.anchors.all (·.revoked) then .error .allAnchorsRevoked
  else do
    Checks.each (fun algorithm =>
      if document.anchors.any fun anchor => anchor.algorithm == algorithm && !anchor.revoked then .ok ()
      else .error (.missingLiveAnchor algorithm)) [.ed25519, .mlDsa87]
    let _ ← Checks.collectDistinct TrustSetAnchor.keyId (checkAnchor lib) (fun anchor => .duplicateKeyId anchor.keyId)
      (fun _ => .ok ()) [] document.anchors
    let _ ← Checks.collectDistinct id checkWithdrawnBuild
      (fun build => .duplicateWithdrawnBuild build.packageId build.version build.commit) (fun _ => .ok ()) []
      document.withdrawnBuilds
    .ok ()

def readTrustSetDocument (lib : Externals) (bytes : Bytes) : Except TrustSetDocumentError TrustSetDocument := do
  let object ← readVersionGate lib bytes
  checkUnknownFields object
  let document ← decodeDocument lib bytes
  checkDocument lib document
  .ok document

/-! ### Where the two decodes agree -/

section
variable {lib : Externals} {bytes : Bytes} {document : TrustSetDocument}

/-- An entry the strict decode reads is read alike by the provisional one if it is an object, and not at all
otherwise. -/
theorem provisionalAnchor_of_decoder {t : Text} {d : Nat} {v : Value} {anchor : TrustSetAnchor}
    (h : t.toValue d = some v) (hanchor : TrustSetAnchor.decoder.text t d = some anchor) :
    provisionalAnchor lib v =
      if v.isObject then anchorOf lib anchor.algorithm anchor.publicKey anchor.revoked else none := by
  cases t with
  | obj members =>
    obtain ⟨-, ms, vs, hms, hdecoded, rfl⟩ := toValue_obj h
    obtain ⟨ms', fields, hms', hfields, rfl⟩ := Decoder.record_text_obj hanchor
    obtain rfl := Option.some.inj (hms.symm.trans hms')
    simp only [Fields.cons, Option.bind_eq_bind, Option.bind_eq_some_iff, Option.some.injEq] at hfields
    obtain ⟨algorithm, halgorithm, _, ⟨keyId, -, _, ⟨publicKey, hpublicKey, _, ⟨revoked, hrevoked, _, -, rfl⟩, rfl⟩, rfl⟩,
      rfl⟩ := hfields
    obtain hdefault | ⟨_, v₁, hv₁, hname, halgorithm⟩ := Fields.lookup_of_fieldText hdecoded halgorithm
    · cases hdefault
    obtain hdefault | ⟨_, v₂, hv₂, hkey, hpublicKey⟩ := Fields.lookup_of_fieldText hdecoded hpublicKey
    · cases hdefault
    obtain hdefault | ⟨_, v₃, hv₃, hflag, hrevoked⟩ := Fields.lookup_of_fieldText hdecoded hrevoked
    · cases hdefault
    obtain ⟨name, hname, hnamed⟩ := Option.bind_eq_some_iff.mp hname
    simp [provisionalAnchor, Value.get, halgorithm, hpublicKey, hrevoked, Decoder.asStr_of_string hv₁ hname, hnamed,
      Decoder.asStr_of_string hv₂ hkey, Decoder.asBool_of_bool hv₃ hflag, Value.isObject]
  | arr =>
    obtain ⟨-, _, -, rfl⟩ := toValue_arr h
    rfl
  | unreadable => cases h
  | _ => cases hanchor

theorem mapM_provisionalAnchor {d : Nat} {items : List Text} {entries : List Value} (h : Decoded d items entries)
    (hobjects : ∀ entry ∈ entries, entry.isObject = true) :
    ∀ {anchors}, items.mapM (TrustSetAnchor.decoder.text · d) = some anchors →
      entries.mapM (provisionalAnchor lib) =
        anchors.mapM fun anchor => anchorOf lib anchor.algorithm anchor.publicKey anchor.revoked := by
  induction h with
  | nil =>
    rintro _ ⟨⟩
    rfl
  | cons hhead _ ih =>
    intro anchors hitems
    obtain ⟨hobject, hrest⟩ := List.forall_mem_cons.mp hobjects
    simp only [List.mapM_cons, Option.bind_eq_bind, Option.bind_eq_some_iff, Option.pure_def, Option.some.injEq] at hitems
    obtain ⟨anchor, hanchor, anchors, hanchors, rfl⟩ := hitems
    rw [List.mapM_cons, List.mapM_cons, provisionalAnchor_of_decoder hhead hanchor, if_pos hobject, ih hrest hanchors]

theorem isObject_of_provisionalAnchor {v : Value} {anchor : TrustAnchor} (h : provisionalAnchor lib v = some anchor) :
    v.isObject = true := by
  cases v <;> first | rfl | cases h

/-- What stage B read is what the provisional decode looks at. -/
theorem fields_of_decoder {text : Text} {d : Nat} {object : Json.Members} (h : text.toValue d = some (.obj object))
    (hdocument : TrustSetDocument.decoder.text text d = some document) :
    (document.epoch = 0 ∨ ((Value.obj object).get EPOCH_FIELD).bind Value.asU64 = some document.epoch) ∧
      ∃ d' items entries, (Value.obj object).get ANCHORS_FIELD = some (.arr entries) ∧ Decoded d' items entries ∧
        items.mapM (TrustSetAnchor.decoder.text · d') = some document.anchors := by
  cases text with
  | obj members =>
    obtain ⟨-, ms, vs, hms, hdecoded, heq⟩ := toValue_obj h
    obtain rfl := Value.obj.inj heq
    obtain ⟨ms', fields, hms', hfields, rfl⟩ := Decoder.record_text_obj hdocument
    obtain rfl := Option.some.inj (hms.symm.trans hms')
    simp only [Fields.cons, Option.bind_eq_bind, Option.bind_eq_some_iff, Option.some.injEq] at hfields
    obtain ⟨_, -, _, ⟨epoch, hepoch, _, ⟨_, -, _, ⟨anchors, hanchors, _, -, rfl⟩, rfl⟩, rfl⟩, rfl⟩ := hfields
    refine ⟨?_, ?_⟩
    · obtain hdefault | ⟨_, v, hv, hread, hlookup⟩ := Fields.lookup_of_fieldText hdecoded hepoch
      · exact .inl (Option.some.inj hdefault).symm
      · refine .inr ?_
        rw [Value.get, hlookup]
        exact Decoder.asU64_of_u64 hv hread
    · obtain hdefault | ⟨_, v, hv, hread, hlookup⟩ := Fields.lookup_of_fieldText hdecoded hanchors
      · cases hdefault
      · obtain ⟨items, entries, hentries, rfl, hitems⟩ := Decoder.arr_of_seq hv hread
        exact ⟨_, items, entries, hlookup, hentries, hitems⟩
  | arr =>
    obtain ⟨-, _, -, heq⟩ := toValue_arr h
    cases heq
  | unreadable => cases h
  | _ => cases h

/-- A checked anchor converts, and under the key id it declares. -/
theorem exists_anchorOf_of_checkAnchor {anchor : TrustSetAnchor} (h : checkAnchor lib anchor = .ok ()) :
    ∃ trusted, anchorOf lib anchor.algorithm anchor.publicKey anchor.revoked = some trusted ∧
      trusted.keyId = anchor.keyId := by
  unfold checkAnchor at h
  split at h
  · cases h
  split at h
  · cases h
  next publicKey hkey =>
  split at h
  · cases h
  next hid =>
  refine ⟨.of lib anchor.algorithm publicKey anchor.revoked (length_decodeLowercaseHex hkey), ?_, not_not.mp hid⟩
  unfold anchorOf
  split
  · next bytes hbytes =>
    obtain rfl := Option.some.inj (hkey.symm.trans hbytes)
    rfl
  · next hnone => cases hkey.symm.trans hnone

theorem exists_documentAnchors {anchors : List TrustSetAnchor} (h : ∀ anchor ∈ anchors, checkAnchor lib anchor = .ok ()) :
    ∃ trusted, anchors.mapM (fun anchor => anchorOf lib anchor.algorithm anchor.publicKey anchor.revoked) = some trusted ∧
      trusted.map TrustAnchor.keyId = anchors.map TrustSetAnchor.keyId := by
  induction anchors with
  | nil => exact ⟨[], rfl, rfl⟩
  | cons anchor anchors ih =>
    obtain ⟨hhead, htail⟩ := List.forall_mem_cons.mp h
    obtain ⟨first, hfirst, hid⟩ := exists_anchorOf_of_checkAnchor hhead
    obtain ⟨rest, hrest, hids⟩ := ih htail
    refine ⟨first :: rest, ?_, by rw [List.map_cons, List.map_cons, hid, hids]⟩
    rw [List.mapM_cons, hfirst, hrest]
    rfl

/-- What the semantic checks guarantee: an allocated epoch, and anchors that convert under distinct key ids. -/
theorem checkDocument_ok (h : checkDocument lib document = .ok ()) :
    document.epoch ≠ 0 ∧
      ∃ anchors, documentAnchors lib document = some anchors ∧ (anchors.map TrustAnchor.keyId).Nodup := by
  unfold checkDocument at h
  split at h
  · cases h
  next hepoch =>
  refine ⟨hepoch, ?_⟩
  split at h
  · cases h
  split at h
  · cases h
  obtain ⟨_, -, h⟩ := Checks.bind_ok h
  obtain ⟨_, hanchors, -⟩ := Checks.bind_ok h
  obtain ⟨hchecked, -, hnodup, -⟩ := Checks.collectDistinct_ok hanchors
  obtain ⟨anchors, hsome, hids⟩ := exists_documentAnchors hchecked
  exact ⟨anchors, hsome, hids ▸ hnodup⟩

theorem readTrustSetDocument_ok (h : readTrustSetDocument lib bytes = .ok document) :
    ∃ text object, lib.readJson bytes = some text ∧ text.toValue recursionLimit = some (.obj object) ∧
      TrustSetDocument.decoder.text text recursionLimit = some document ∧ checkDocument lib document = .ok () := by
  obtain ⟨object, hgate, h⟩ := Checks.bind_ok h
  obtain ⟨_, -, h⟩ := Checks.bind_ok h
  obtain ⟨document', hdecoded, h⟩ := Checks.bind_ok h
  obtain ⟨_, hchecked, h⟩ := Checks.bind_ok h
  cases h
  unfold readVersionGate at hgate
  split at hgate
  · next object' hobject =>
    obtain ⟨text, hread, htext⟩ := Option.bind_eq_some_iff.mp hobject
    unfold decodeDocument at hdecoded
    rw [hread, Option.bind_some] at hdecoded
    split at hdecoded
    · next hdocument =>
      cases hdecoded
      exact ⟨text, object', hread, htext, hdocument, hchecked⟩
    · cases hdecoded
  · cases hgate

end

/-- The two decodes of a document agree: the same anchors in the same order, the same epoch, and a candidate set of
them. -/
def DecodesAgree (lib : Externals) (bytes : Bytes) (document : TrustSetDocument) : Prop :=
  ∃ anchors trust, provisionalAnchorsAndEpoch lib bytes = some (anchors, document.epoch) ∧
    documentAnchors lib document = some anchors ∧
    selfAdmissionCandidate lib bytes = some (trust, document.epoch) ∧
    trust.anchors = anchors ∧ trust.epoch = document.epoch

/-- Every entry of the document's `anchors` array is an object. -/
def AnchorEntriesAreObjects (lib : Externals) (bytes : Bytes) : Prop :=
  ∀ document entries, (lib.readJson bytes).bind (·.toValue recursionLimit) = some document →
    document.get ANCHORS_FIELD = some (.arr entries) → ∀ entry ∈ entries, entry.isObject = true

/-- What the provisional decode makes of an accepted document. -/
theorem provisional_of_document {lib : Externals} {bytes : Bytes} {document : TrustSetDocument}
    (h : readTrustSetDocument lib bytes = .ok document) :
    ∃ object entries anchors, (lib.readJson bytes).bind (·.toValue recursionLimit) = some (.obj object) ∧
      (Value.obj object).get ANCHORS_FIELD = some (.arr entries) ∧ documentAnchors lib document = some anchors ∧
      (anchors.map TrustAnchor.keyId).Nodup ∧
      provisionalAnchorsAndEpoch lib bytes =
        ((entries.mapM (provisionalAnchor lib)).bind fun anchors => some (anchors, document.epoch)) ∧
      ((∀ entry ∈ entries, entry.isObject = true) → entries.mapM (provisionalAnchor lib) = some anchors) := by
  obtain ⟨text, object, hread, htext, hdocument, hchecked⟩ := readTrustSetDocument_ok h
  obtain ⟨hepoch, anchors, hanchors, hnodup⟩ := checkDocument_ok hchecked
  obtain ⟨hzero | hepoch', d, items, entries, hentries, hdecoded, hitems⟩ := fields_of_decoder htext hdocument
  · exact absurd hzero hepoch
  refine ⟨object, entries, anchors, by rw [hread, Option.bind_some, htext], hentries, hanchors, hnodup, ?_,
    fun hobjects => (mapM_provisionalAnchor hdecoded hobjects hitems).trans hanchors⟩
  simp only [provisionalAnchorsAndEpoch, hread, Option.bind_some, htext, Option.bind_eq_bind, hepoch', hentries,
    Value.asArray]

/-- A document that both decodes read has the anchors and the epoch that the provisional one says. -/
theorem document_of_provisional {lib : Externals} {bytes : Bytes} {document : TrustSetDocument}
    {anchors : List TrustAnchor} {epoch : UInt64} (h : readTrustSetDocument lib bytes = .ok document)
    (hprovisional : provisionalAnchorsAndEpoch lib bytes = some (anchors, epoch)) :
    epoch = document.epoch ∧ documentAnchors lib document = some anchors ∧ (anchors.map TrustAnchor.keyId).Nodup := by
  obtain ⟨object, entries, anchors', -, -, hanchors, hnodup, heq, hmapM⟩ := provisional_of_document h
  rw [hprovisional] at heq
  obtain ⟨decoded, hdecoded, hpair⟩ := Option.bind_eq_some_iff.mp heq.symm
  obtain ⟨rfl, rfl⟩ := Prod.mk.inj (Option.some.inj hpair)
  have hobjects : ∀ entry ∈ entries, entry.isObject = true := fun entry hentry => by
    obtain ⟨_, hanchor⟩ := Checks.exists_of_mapM hdecoded entry hentry
    exact isObject_of_provisionalAnchor hanchor
  obtain rfl := Option.some.inj (hdecoded.symm.trans (hmapM hobjects))
  exact ⟨rfl, hanchors, hnodup⟩

/-- The provisional decode of an accepted document agrees with the strict one just when every anchor entry is an
object. -/
theorem provisional_agrees_iff (lib : Externals) (bytes : Bytes) (document : TrustSetDocument)
    (h : readTrustSetDocument lib bytes = .ok document) :
    DecodesAgree lib bytes document ↔ AnchorEntriesAreObjects lib bytes := by
  obtain ⟨object, entries, anchors, hobject, hentries, hanchors, hnodup, hprovisional, hmapM⟩ := provisional_of_document h
  constructor
  · rintro ⟨_, _, hagree, -⟩ value entries' hvalue hentries' entry hentry
    obtain rfl := Option.some.inj (hobject.symm.trans hvalue)
    obtain rfl := Value.arr.inj (Option.some.inj (hentries.symm.trans hentries'))
    obtain ⟨_, hdecoded, _⟩ := Option.bind_eq_some_iff.mp (hprovisional.symm.trans hagree)
    obtain ⟨_, hanchor⟩ := Checks.exists_of_mapM hdecoded entry hentry
    exact isObject_of_provisionalAnchor hanchor
  · intro hobjects
    rw [hmapM (hobjects (.obj object) entries hobject hentries), Option.bind_some] at hprovisional
    refine ⟨anchors, ⟨anchors, ∅, 0, document.epoch, hnodup⟩, hprovisional, hanchors, ?_, rfl, rfl⟩
    simp only [selfAdmissionCandidate, hprovisional, Option.bind_eq_bind, Option.bind_some,
      TrustSet.new_of_nodup [] 0 document.epoch hnodup]
    rfl

/-! ### Documents of two keys -/

/-- The text of a document with these anchor entries. -/
def documentText (anchors : List Text) : Text :=
  .obj [(some "trust_set_version", .num (.posInt 2)), (some "epoch", .num (.posInt 1)),
    (some "min_manifest_format_version", .num (.posInt 3)), (some "anchors", .arr anchors),
    (some "withdrawn_builds", .arr [])]

/-- An anchor entry written as an object. -/
def objectEntry (algorithm keyId publicKey : String) : Text :=
  .obj [(some "algorithm", .str algorithm), (some "key_id", .str keyId), (some "public_key", .str publicKey),
    (some "revoked", .bool false)]

/-- An anchor entry written as an array of its four values. -/
def arrayEntry (algorithm keyId publicKey : String) : Text :=
  .arr [.str algorithm, .str keyId, .str publicKey, .bool false]

/-- The document of two keys, however its entries are written. -/
def keysDocument (keyId publicKey keyId' publicKey' : String) : TrustSetDocument where
  trustSetVersion := 2
  epoch := 1
  minManifestFormatVersion := 3
  anchors := [⟨.ed25519, keyId, publicKey, false⟩, ⟨.mlDsa87, keyId', publicKey', false⟩]
  withdrawnBuilds := []

section
variable {lib : Externals} {bytes : Bytes} {keyId publicKey keyId' publicKey' : String} {anchors : List Text}
  {entries : List Value} {document : TrustSetDocument}

theorem fromMembers_document : fromMembers [("trust_set_version", .num (.posInt 2)), ("epoch", .num (.posInt 1)),
    ("min_manifest_format_version", .num (.posInt 3)), ("anchors", .arr entries), ("withdrawn_builds", .arr [])] =
      [("anchors", .arr entries), ("epoch", .num (.posInt 1)), ("min_manifest_format_version", .num (.posInt 3)),
        ("trust_set_version", .num (.posInt 2)), ("withdrawn_builds", .arr [])] := by
  simp +decide only [fromMembers, List.foldl, insertMember, if_true, if_false]

theorem fromMembers_anchor {algorithm : String} : fromMembers [("algorithm", .str algorithm), ("key_id", .str keyId),
    ("public_key", .str publicKey), ("revoked", .bool false)] =
      [("algorithm", .str algorithm), ("key_id", .str keyId), ("public_key", .str publicKey), ("revoked", .bool false)] := by
  simp +decide only [fromMembers, List.foldl, insertMember, if_false]

theorem toValue_documentText (h : toValues anchors 126 = some entries) :
    (documentText anchors).toValue recursionLimit =
      some (.obj [("anchors", .arr entries), ("epoch", .num (.posInt 1)),
        ("min_manifest_format_version", .num (.posInt 3)), ("trust_set_version", .num (.posInt 2)),
        ("withdrawn_builds", .arr [])]) := by
  simp [documentText, Text.toValue, toMembers, recursionLimit, h, toValues, fromMembers_document]

theorem toValues_arrayEntries :
    toValues [arrayEntry "ed25519" keyId publicKey, arrayEntry "ml-dsa-87" keyId' publicKey'] 126 =
      some [.arr [.str "ed25519", .str keyId, .str publicKey, .bool false],
        .arr [.str "ml-dsa-87", .str keyId', .str publicKey', .bool false]] := rfl

theorem toValues_objectEntries :
    toValues [objectEntry "ed25519" keyId publicKey, objectEntry "ml-dsa-87" keyId' publicKey'] 126 =
      some [.obj [("algorithm", .str "ed25519"), ("key_id", .str keyId), ("public_key", .str publicKey),
          ("revoked", .bool false)],
        .obj [("algorithm", .str "ml-dsa-87"), ("key_id", .str keyId'), ("public_key", .str publicKey'),
          ("revoked", .bool false)]] := by
  simp [objectEntry, toValues, Text.toValue, toMembers, fromMembers_anchor]

/-- A document whose keys are all known is accepted when it decodes and its content is in order. -/
theorem readTrustSetDocument_documentText (hread : lib.readJson bytes = some (documentText anchors))
    (hentries : toValues anchors 126 = some entries)
    (hkeys : checkEntryKeysFrom ANCHORS_FIELD ANCHOR_FIELDS 0 entries = .ok ())
    (hdecoded : TrustSetDocument.decoder.text (documentText anchors) recursionLimit = some document)
    (hchecked : checkDocument lib document = .ok ()) : readTrustSetDocument lib bytes = .ok document := by
  rw [readTrustSetDocument, readVersionGate, decodeDocument, hread, Option.bind_some, Option.bind_some,
    toValue_documentText hentries, hdecoded]
  show ((checkEntryKeysFrom ANCHORS_FIELD ANCHOR_FIELDS 0 entries).bind fun _ => .ok ()).bind
    (fun _ => (checkDocument lib document).bind fun _ => .ok document) = _
  rw [hkeys, hchecked]
  rfl

theorem provisionalAnchorsAndEpoch_documentText (hread : lib.readJson bytes = some (documentText anchors))
    (hentries : toValues anchors 126 = some entries) :
    provisionalAnchorsAndEpoch lib bytes = (entries.mapM (provisionalAnchor lib)).bind fun anchors => some (anchors, 1) := by
  rw [provisionalAnchorsAndEpoch, hread, Option.bind_some, toValue_documentText hentries]
  rfl

end

/-! ### Documents that list two live keys -/

/-- A key's text is checked under the key id that is derived from it. -/
theorem checkAnchor_toHex {lib : Externals} {algorithm : SignatureAlgorithm} {key : Bytes} {revoked : Bool}
    (hkey : key.length = algorithm.publicKeyLen) (hdigest : (lib.sha256 key).length = 32) :
    checkAnchor lib ⟨algorithm, keyId lib key, toHex key, revoked⟩ = .ok () := by
  have hid : isLowercaseHex (keyId lib key) 32 = true := by
    rw [keyId, ← hdigest]
    exact isLowercaseHex_toHex _
  have hdecoded : decodeLowercaseHex (toHex key) algorithm.publicKeyLen = some key := hkey ▸ decodeLowercaseHex_toHex key
  simp only [checkAnchor, hid, Bool.not_true, Bool.false_eq_true, if_false, hdecoded, ne_eq, not_true_eq_false]

theorem anchorOf_toHex {lib : Externals} {algorithm : SignatureAlgorithm} {key : Bytes} {revoked : Bool}
    (hkey : key.length = algorithm.publicKeyLen) :
    anchorOf lib algorithm (toHex key) revoked = some (.of lib algorithm key revoked hkey) := by
  have hdecoded : decodeLowercaseHex (toHex key) algorithm.publicKeyLen = some key := hkey ▸ decodeLowercaseHex_toHex key
  unfold anchorOf
  split
  · next bytes hbytes =>
    obtain rfl := Option.some.inj (hdecoded.symm.trans hbytes)
    rfl
  · next hnone => cases hdecoded.symm.trans hnone

/-- Checked anchors under distinct key ids, one of each algorithm live, make a document of an allocated epoch. -/
theorem checkDocument_of_anchors {lib : Externals} {document : TrustSetDocument} (hepoch : document.epoch ≠ 0)
    (hlive : ∀ algorithm, ∃ anchor ∈ document.anchors, anchor.algorithm = algorithm ∧ anchor.revoked = false)
    (hchecked : ∀ anchor ∈ document.anchors, checkAnchor lib anchor = .ok ())
    (hnodup : (document.anchors.map TrustSetAnchor.keyId).Nodup) (hbuilds : document.withdrawnBuilds = []) :
    checkDocument lib document = .ok () := by
  obtain ⟨anchor, hmem, -, hrevoked⟩ := hlive .ed25519
  have hsome : document.anchors.isEmpty = false := by
    rw [List.isEmpty_eq_false_iff]
    exact List.ne_nil_of_mem hmem
  have hall : document.anchors.all (·.revoked) = false :=
    List.all_eq_false.mpr ⟨anchor, hmem, by rw [hrevoked]; exact Bool.false_ne_true⟩
  have heach : Checks.each (fun algorithm =>
      if document.anchors.any fun anchor => anchor.algorithm == algorithm && !anchor.revoked then .ok ()
      else .error (TrustSetDocumentError.missingLiveAnchor algorithm)) [.ed25519, .mlDsa87] = .ok () := by
    refine Checks.each_ok_iff.mpr fun algorithm _ => if_pos (List.any_eq_true.mpr ?_)
    obtain ⟨anchor, hmem, rfl, hrevoked⟩ := hlive algorithm
    exact ⟨anchor, hmem, by simp [hrevoked]⟩
  have hcollected : Checks.collectDistinct TrustSetAnchor.keyId (checkAnchor lib)
      (fun anchor => TrustSetDocumentError.duplicateKeyId anchor.keyId) (fun _ => .ok ()) [] document.anchors =
        .ok (document.anchors.map fun _ => ()) :=
    Checks.collectDistinct_eq_ok hchecked (fun _ _ => List.not_mem_nil) hnodup
      (List.forall₂_map_right_iff.mpr (List.forall₂_same.mpr fun _ _ => rfl))
  simp only [checkDocument, if_neg hepoch, hsome, hall, Bool.false_eq_true, if_false, heach, hcollected, hbuilds,
    Checks.collectDistinct, bind, Except.bind]

/-- The document that lists two live keys. -/
def keysListed (lib : Externals) (epoch : UInt64) (key : SignatureAlgorithm → Bytes) : TrustSetDocument :=
  { keysDocument (keyId lib (key .ed25519)) (toHex (key .ed25519)) (keyId lib (key .mlDsa87)) (toHex (key .mlDsa87)) with
    epoch }

/-- Its text, in one order of its fields. -/
def keysListedText (lib : Externals) (epoch : UInt64) (key : SignatureAlgorithm → Bytes) : Text :=
  .obj [(some "epoch", .num (.posInt epoch)), (some "trust_set_version", .num (.posInt 2)),
    (some "min_manifest_format_version", .num (.posInt 3)),
    (some "anchors", .arr [objectEntry "ed25519" (keyId lib (key .ed25519)) (toHex (key .ed25519)),
      objectEntry "ml-dsa-87" (keyId lib (key .mlDsa87)) (toHex (key .mlDsa87))]),
    (some "withdrawn_builds", .arr [])]

section
variable {lib : Externals} {bytes : Bytes} {epoch : UInt64} {key : SignatureAlgorithm → Bytes}

theorem checkDocument_keysListed (hepoch : epoch ≠ 0) (hkey : ∀ algorithm, (key algorithm).length = algorithm.publicKeyLen)
    (hdigest : ∀ algorithm, (lib.sha256 (key algorithm)).length = 32)
    (hne : keyId lib (key .ed25519) ≠ keyId lib (key .mlDsa87)) : checkDocument lib (keysListed lib epoch key) = .ok () := by
  refine checkDocument_of_anchors hepoch (fun algorithm => ?_) (fun anchor hanchor => ?_) ?_ rfl
  · cases algorithm
    · exact ⟨_, List.mem_cons_self, rfl, rfl⟩
    · exact ⟨_, List.mem_cons_of_mem _ List.mem_cons_self, rfl, rfl⟩
  · rcases List.mem_cons.mp hanchor with rfl | hanchor
    · exact checkAnchor_toHex (hkey .ed25519) (hdigest .ed25519)
    · rw [List.mem_singleton.mp hanchor]
      exact checkAnchor_toHex (hkey .mlDsa87) (hdigest .mlDsa87)
  · simp [keysListed, keysDocument, hne]

theorem toValue_keysListedText : (keysListedText lib epoch key).toValue recursionLimit =
    some (.obj [("anchors", .arr [.obj [("algorithm", .str "ed25519"), ("key_id", .str (keyId lib (key .ed25519))),
        ("public_key", .str (toHex (key .ed25519))), ("revoked", .bool false)],
      .obj [("algorithm", .str "ml-dsa-87"), ("key_id", .str (keyId lib (key .mlDsa87))),
        ("public_key", .str (toHex (key .mlDsa87))), ("revoked", .bool false)]]), ("epoch", .num (.posInt epoch)),
      ("min_manifest_format_version", .num (.posInt 3)), ("trust_set_version", .num (.posInt 2)),
      ("withdrawn_builds", .arr [])]) := by
  simp [keysListedText, objectEntry, Text.toValue, toMembers, recursionLimit, toValues, fromMembers_anchor]
  simp +decide only [fromMembers, List.foldl, insertMember, if_true, if_false]

theorem readTrustSetDocument_keysListed (hread : lib.readJson bytes = some (keysListedText lib epoch key)) (hepoch : epoch ≠ 0)
    (hkey : ∀ algorithm, (key algorithm).length = algorithm.publicKeyLen)
    (hdigest : ∀ algorithm, (lib.sha256 (key algorithm)).length = 32)
    (hne : keyId lib (key .ed25519) ≠ keyId lib (key .mlDsa87)) :
    readTrustSetDocument lib bytes = .ok (keysListed lib epoch key) := by
  have hdecoded : TrustSetDocument.decoder.text (keysListedText lib epoch key) recursionLimit =
      some (keysListed lib epoch key) := rfl
  rw [readTrustSetDocument, readVersionGate, decodeDocument, hread, Option.bind_some, Option.bind_some,
    toValue_keysListedText, hdecoded]
  show (checkDocument lib (keysListed lib epoch key)).bind (fun _ => .ok (keysListed lib epoch key)) = _
  rw [checkDocument_keysListed hepoch hkey hdigest hne]
  rfl

/-- Before verification the document reads as the anchors of its keys. -/
theorem provisionalAnchorsAndEpoch_keysListed (hread : lib.readJson bytes = some (keysListedText lib epoch key))
    (hkey : ∀ algorithm, (key algorithm).length = algorithm.publicKeyLen) :
    provisionalAnchorsAndEpoch lib bytes =
      some ([.of lib .ed25519 (key .ed25519) false (hkey .ed25519), .of lib .mlDsa87 (key .mlDsa87) false (hkey .mlDsa87)],
        epoch) := by
  have hentry (name : String) (algorithm : SignatureAlgorithm) (hname : algorithmNamed name = some algorithm) :
      provisionalAnchor lib (.obj [("algorithm", .str name), ("key_id", .str (keyId lib (key algorithm))),
          ("public_key", .str (toHex (key algorithm))), ("revoked", .bool false)]) =
        some (.of lib algorithm (key algorithm) false (hkey algorithm)) := by
    show (algorithmNamed name >>= fun algorithm' => anchorOf lib algorithm' (toHex (key algorithm)) false) = _
    rw [hname]
    exact anchorOf_toHex (hkey algorithm)
  rw [provisionalAnchorsAndEpoch, hread, Option.bind_some, toValue_keysListedText]
  show (List.mapM (provisionalAnchor lib) [_, _] >>= fun anchors => some (anchors, epoch)) = _
  rw [List.mapM_cons, List.mapM_cons, hentry "ed25519" .ed25519 rfl, hentry "ml-dsa-87" .mlDsa87 rfl]
  rfl

theorem documentAnchors_keysListed (hkey : ∀ algorithm, (key algorithm).length = algorithm.publicKeyLen) :
    documentAnchors lib (keysListed lib epoch key) =
      some [.of lib .ed25519 (key .ed25519) false (hkey .ed25519), .of lib .mlDsa87 (key .mlDsa87) false (hkey .mlDsa87)] := by
  simp only [documentAnchors, keysListed, keysDocument, List.mapM_cons, List.mapM_nil, anchorOf_toHex (hkey .ed25519),
    anchorOf_toHex (hkey .mlDsa87)]
  rfl

end

/-- The text of an all-zero key. -/
def zeroPublicKey (algorithm : SignatureAlgorithm) : String :=
  toHex (List.replicate algorithm.publicKeyLen 0)

/-- The document of the two all-zero keys. -/
def zeroDocument : TrustSetDocument :=
  keysDocument (zeroKeyId .ed25519) (zeroPublicKey .ed25519) (zeroKeyId .mlDsa87) (zeroPublicKey .mlDsa87)

def documentExternals (anchors : List Text) : Externals :=
  { Externals.reading (documentText anchors) with sha256 := zeroSha256 }

theorem checkAnchor_zero {lib : Externals} (h : lib.sha256 = zeroSha256) (algorithm : SignatureAlgorithm) :
    checkAnchor lib ⟨algorithm, zeroKeyId algorithm, zeroPublicKey algorithm, false⟩ = .ok () := by
  have hlen : (zeroSha256 (List.replicate algorithm.publicKeyLen 0)).length = 32 := by
    unfold zeroSha256
    split <;> rfl
  rw [← h] at hlen
  have hid : keyId lib (List.replicate algorithm.publicKeyLen 0) = zeroKeyId algorithm := by
    rw [zeroKeyId, ← h]
    rfl
  exact hid ▸ checkAnchor_toHex List.length_replicate hlen

theorem checkDocument_zero {lib : Externals} (h : lib.sha256 = zeroSha256) : checkDocument lib zeroDocument = .ok () := by
  refine checkDocument_of_anchors (by decide) (fun algorithm => ?_) (fun anchor hanchor => ?_) ?_ rfl
  · cases algorithm
    · exact ⟨_, List.mem_cons_self, rfl, rfl⟩
    · exact ⟨_, List.mem_cons_of_mem _ List.mem_cons_self, rfl, rfl⟩
  · rcases List.mem_cons.mp hanchor with rfl | hanchor
    · exact checkAnchor_zero h .ed25519
    · rw [List.mem_singleton.mp hanchor]
      exact checkAnchor_zero h .mlDsa87
  · simp [zeroDocument, keysDocument, zeroKeyId_ne]

/-- The bytes of the document of two all-zero keys, its entries written as objects. -/
def objectDocumentBytes : Bytes :=
  asBytes ("\x7b\"trust_set_version\":2,\"epoch\":1,\"min_manifest_format_version\":3,\"anchors\":[" ++
    "\x7b\"algorithm\":\"ed25519\",\"key_id\":\"" ++ zeroKeyId .ed25519 ++ "\",\"public_key\":\"" ++
    zeroPublicKey .ed25519 ++ "\",\"revoked\":false\x7d,\x7b\"algorithm\":\"ml-dsa-87\",\"key_id\":\"" ++
    zeroKeyId .mlDsa87 ++ "\",\"public_key\":\"" ++ zeroPublicKey .mlDsa87 ++
    "\",\"revoked\":false\x7d],\"withdrawn_builds\":[]\x7d")

/-- The bytes of the document of two all-zero keys, its entries written as arrays. -/
def arrayDocumentBytes : Bytes :=
  asBytes ("\x7b\"trust_set_version\":2,\"epoch\":1,\"min_manifest_format_version\":3,\"anchors\":[[\"ed25519\",\"" ++
    zeroKeyId .ed25519 ++ "\",\"" ++ zeroPublicKey .ed25519 ++ "\",false],[\"ml-dsa-87\",\"" ++ zeroKeyId .mlDsa87 ++
    "\",\"" ++ zeroPublicKey .mlDsa87 ++ "\",false]],\"withdrawn_builds\":[]\x7d")

theorem provisional_agrees_of_objects :
    DecodesAgree (documentExternals [objectEntry "ed25519" (zeroKeyId .ed25519) (zeroPublicKey .ed25519),
      objectEntry "ml-dsa-87" (zeroKeyId .mlDsa87) (zeroPublicKey .mlDsa87)]) objectDocumentBytes zeroDocument := by
  refine (provisional_agrees_iff _ _ _ (readTrustSetDocument_documentText rfl toValues_objectEntries rfl rfl
    (checkDocument_zero rfl))).mpr fun document entries hdocument hentries entry hentry => ?_
  obtain rfl := Option.some.inj (hdocument.symm.trans (toValue_documentText toValues_objectEntries))
  cases hentries
  simp only [List.mem_cons, List.not_mem_nil, or_false] at hentry
  rcases hentry with rfl | rfl <;> rfl

/-- The strict reader accepts anchor entries written as arrays, and the provisional decode does not read them. -/
theorem provisional_misses_arrays :
    readTrustSetDocument (documentExternals [arrayEntry "ed25519" (zeroKeyId .ed25519) (zeroPublicKey .ed25519),
        arrayEntry "ml-dsa-87" (zeroKeyId .mlDsa87) (zeroPublicKey .mlDsa87)]) arrayDocumentBytes = .ok zeroDocument ∧
      provisionalAnchorsAndEpoch (documentExternals [arrayEntry "ed25519" (zeroKeyId .ed25519) (zeroPublicKey .ed25519),
        arrayEntry "ml-dsa-87" (zeroKeyId .mlDsa87) (zeroPublicKey .mlDsa87)]) arrayDocumentBytes = none :=
  ⟨readTrustSetDocument_documentText rfl toValues_arrayEntries rfl rfl (checkDocument_zero rfl),
    provisionalAnchorsAndEpoch_documentText rfl toValues_arrayEntries⟩

end DeployCore
