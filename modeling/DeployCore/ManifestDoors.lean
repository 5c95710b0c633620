import DeployCore.Manifest

/-! # The two doors into a manifest

`PayloadManifest.parse` decodes through a generic value and `PayloadManifest.deserialize` straight from the
text. They share the validation but not the decoder. On an unambiguous document, and in a container that is not
of the unversioned baseline, they accept the same bytes with the same manifest. -/

namespace DeployCore
open Serde Json

/-- A document both doors read alike: it is not an array, it decodes as a generic value, and no object read as a
struct or an enumeration repeats a key the type reads, nor is a struct variant written as an array. -/
structure UnambiguousManifest (text : Text) : Prop where
  not_array : ∀ items, text ≠ .arr items
  decodes : (text.toValue recursionLimit).isSome
  clean : RawManifest.decoder.Clean text

/-- The version read from the document is the one the typed decode reads. -/
theorem readFormatVersion_of_decoder {document : Value} {raw : RawManifest} (hnot : ∀ items, document ≠ .arr items)
    (h : RawManifest.decoder.value document = some raw) :
    readFormatVersion document = .ok raw.formatVersion := by
  unfold RawManifest.decoder Decoder.record at h
  cases document with
  | obj members =>
    simp only [Bool.false_and, Bool.false_eq_true, if_false, Option.map_eq_some_iff] at h
    obtain ⟨fields, hfields, rfl⟩ := h
    simp only [Fields.cons, Option.bind_eq_bind, Option.bind_eq_some_iff, Option.some.injEq] at hfields
    obtain ⟨formatVersion, hversion, rest, -, rfl⟩ := hfields
    show readFormatVersion (.obj members) = .ok formatVersion
    unfold Fields.fieldValue at hversion
    simp only [readFormatVersion, Value.get]
    cases hlookup : members.lookup "format_version" with
    | none =>
      rw [hlookup] at hversion
      cases hversion
      rfl
    | some value =>
      rw [hlookup] at hversion
      cases value with
      | null =>
        cases hversion
        rfl
      | num n =>
        cases n with
        | posInt n =>
          simp only [Decoder.option, Decoder.u32, Decoder.scalar, Option.map_eq_some_iff] at hversion
          obtain ⟨found, hfound, rfl⟩ := hversion
          split at hfound
          · next hlt =>
            cases hfound
            simpa [Value.asU64] using hlt
          · cases hfound
        | negInt => cases hversion
        | float => cases hversion
      | bool => cases hversion
      | str => cases hversion
      | arr => cases hversion
      | obj => cases hversion
  | arr items => exact absurd rfl (hnot items)
  | null => cases h
  | bool => cases h
  | num => cases h
  | str => cases h

theorem checkFormatVersion_of_fromParts {v : Option UInt32} {pinset : Option String} {releaseBuild : Bool}
    {members : Option (List ArchiveMember)} {parts : List (PayloadArtifact × ImageSource)} {trustSet : Option Bytes}
    {m : PayloadManifest} (h : PayloadManifest.fromParts v pinset releaseBuild members parts trustSet = .ok m) :
    checkFormatVersion v = .ok () := by
  obtain ⟨_, hversion, -⟩ := Checks.bind_ok h
  exact hversion

/-- The conversion names a format version in the accepted range. -/
theorem exists_formatVersion_of_tryInto {lib : Externals} {raw : RawManifest} {m : PayloadManifest}
    (h : raw.tryInto lib = .ok m) :
    ∃ version, raw.formatVersion = some version ∧ checkFormatVersion (some version) = .ok () := by
  unfold RawManifest.tryInto at h
  cases hversion : raw.formatVersion with
  | none =>
    rw [hversion] at h
    cases h
  | some version =>
    rw [hversion] at h
    obtain ⟨trustSet, -, hparts⟩ := Checks.bind_ok h
    exact ⟨version, rfl, checkFormatVersion_of_fromParts hparts⟩

/-- Without the unversioned baseline, an accepted document's version is a number. -/
theorem exists_of_checkDocumentVersion {footerVersion : UInt8} {document : Value} {v : Option UInt32}
    (hfooter : footerVersion ≠ LEGACY_UNVERSIONED_FOOTER_VERSION)
    (h : checkDocumentVersion footerVersion document v = .ok ()) : ∃ version, v = some version := by
  cases v with
  | some version => exact ⟨version, rfl⟩
  | none =>
    have hfooter' : (footerVersion == LEGACY_UNVERSIONED_FOOTER_VERSION) = false := beq_eq_false_iff_ne.mpr hfooter
    simp [checkDocumentVersion, isPreVersionedBaseline, hfooter'] at h

theorem deserialize_ok_iff {lib : Externals} {manifestBytes : Bytes} {m : PayloadManifest} :
    PayloadManifest.deserialize lib manifestBytes = .ok m ↔
      ∃ text raw, lib.readJson manifestBytes = some text ∧ RawManifest.decoder.text text recursionLimit = some raw ∧
        raw.tryInto lib = .ok m := by
  unfold PayloadManifest.deserialize
  constructor
  · intro h
    split at h
    · cases h
    · next text hread =>
      split at h
      · cases h
      · next raw hraw => exact ⟨text, raw, hread, hraw, h⟩
  · rintro ⟨text, raw, hread, hraw, h⟩
    simp only [hread, hraw, h]

/-- The two-stage parse, in a container that is not of the unversioned baseline, is the conversion of the
document's value, unless that is an array. -/
theorem parse_ok_iff {lib : Externals} {manifestBytes : Bytes} {footerVersion : UInt8} {m : PayloadManifest}
    (hfooter : footerVersion ≠ LEGACY_UNVERSIONED_FOOTER_VERSION) :
    PayloadManifest.parse lib manifestBytes footerVersion = .ok m ↔
      ∃ text document raw, lib.readJson manifestBytes = some text ∧ text.toValue recursionLimit = some document ∧
        (∀ items, document ≠ .arr items) ∧ RawManifest.decoder.value document = some raw ∧
        raw.tryInto lib = .ok m := by
  unfold PayloadManifest.parse
  constructor
  · intro h
    split at h
    · cases h
    next document hdocument =>
    obtain ⟨text, hread, htext⟩ := Option.bind_eq_some_iff.mp hdocument
    obtain ⟨v, hv, h⟩ := Checks.bind_ok h
    obtain ⟨_, hchecked, h⟩ := Checks.bind_ok h
    obtain ⟨version, rfl⟩ := exists_of_checkDocumentVersion hfooter hchecked
    have hnot : ∀ items, document ≠ .arr items := by
      rintro items rfl
      cases hv
    split at h
    · cases h
    next raw hraw =>
    refine ⟨text, document, raw, hread, htext, hnot, hraw, ?_⟩
    have hversion : raw.formatVersion = some version :=
      Except.ok.inj ((readFormatVersion_of_decoder hnot hraw).symm.trans hv)
    unfold RawManifest.tryInto
    rw [hversion]
    exact h
  · rintro ⟨text, document, raw, hread, htext, hnot, hraw, h⟩
    obtain ⟨version, hversion, hchecked⟩ := exists_formatVersion_of_tryInto h
    unfold RawManifest.tryInto at h
    rw [hversion] at h
    simp only [hread, Option.bind_some, htext, readFormatVersion_of_decoder hnot hraw, hversion, hraw]
    show (checkFormatVersion (some version)).bind _ = _
    rw [hchecked]
    exact h

/-- Without the unversioned baseline, a manifest that parses names its format. -/
theorem exists_formatVersion_of_parse {lib : Externals} {manifestBytes : Bytes} {footerVersion : UInt8}
    {m : PayloadManifest} (hfooter : footerVersion ≠ LEGACY_UNVERSIONED_FOOTER_VERSION)
    (h : PayloadManifest.parse lib manifestBytes footerVersion = .ok m) : ∃ version, m.formatVersion = some version := by
  obtain ⟨_, _, raw, -, -, -, -, hm⟩ := (parse_ok_iff hfooter).mp h
  obtain ⟨version, hversion, -⟩ := exists_formatVersion_of_tryInto hm
  unfold RawManifest.tryInto at hm
  rw [hversion] at hm
  obtain ⟨_, -, hm⟩ := Checks.bind_ok hm
  exact ⟨version, formatVersion_of_fromParts hm⟩

/-- Both doors accept the bytes with one manifest, or neither accepts them. -/
def DoorsAgree (lib : Externals) (manifestBytes : Bytes) (footerVersion : UInt8) : Prop :=
  ∀ m, PayloadManifest.parse lib manifestBytes footerVersion = .ok m ↔
    PayloadManifest.deserialize lib manifestBytes = .ok m

/-- What both doors accept they read as one manifest, and on an unambiguous document the doors agree. -/
theorem parse_iff_deserialize (lib : Externals) (manifestBytes : Bytes) (footerVersion : UInt8)
    (hfooter : footerVersion ≠ LEGACY_UNVERSIONED_FOOTER_VERSION) :
    (∀ m m', PayloadManifest.parse lib manifestBytes footerVersion = .ok m →
      PayloadManifest.deserialize lib manifestBytes = .ok m' → m = m') ∧
    ((∀ text, lib.readJson manifestBytes = some text → UnambiguousManifest text) →
      DoorsAgree lib manifestBytes footerVersion) := by
  refine ⟨fun m m' hparse hdeserialize => ?_, fun h m => ?_⟩
  · obtain ⟨text, document, raw, hread, htext, -, hraw, hm⟩ := (parse_ok_iff hfooter).mp hparse
    obtain ⟨text', raw', hread', hraw', hm'⟩ := deserialize_ok_iff.mp hdeserialize
    obtain rfl := Option.some.inj (hread.symm.trans hread')
    obtain rfl := RawManifest.decoder.same htext hraw' hraw
    exact Except.ok.inj (hm.symm.trans hm')
  · rw [parse_ok_iff hfooter, deserialize_ok_iff]
    constructor
    · rintro ⟨text, document, raw, hread, htext, -, hraw, hm⟩
      have hagree := RawManifest.decoder.agree htext (h text hread).clean
      exact ⟨text, raw, hread, hagree.trans hraw, hm⟩
    · rintro ⟨text, raw, hread, hraw, hm⟩
      obtain ⟨hnot, hdecodes, hclean⟩ := h text hread
      obtain ⟨document, htext⟩ := Option.isSome_iff_exists.mp hdecodes
      refine ⟨text, document, raw, hread, htext, ?_, (RawManifest.decoder.agree htext hclean).symm.trans hraw, hm⟩
      rintro items rfl
      cases text with
      | arr => exact absurd rfl (hnot _)
      | obj =>
        obtain ⟨-, _, _, -, -, heq⟩ := toValue_obj htext
        cases heq
      | _ => cases htext

/-- A JSON reader that knows one document, and signatures that all verify. -/
def Externals.reading (text : Text) : Externals where
  readJson _ := some text
  base64Decode _ := none
  sha256 _ := []
  verifies _ _ _ _ := true

/-- A manifest of format 9 with these other members. -/
def manifestText (members : List (String × Text)) : Text :=
  .obj ((some "format_version", .num (.posInt 9)) :: members.map fun member => (some member.1, member.2))

theorem parse_iff_deserialize_empty_package :
    DoorsAgree (.reading (manifestText [("archive_members", .arr []), ("artifacts", .arr [])]))
      (asBytes "\x7b\"format_version\":9,\"archive_members\":[],\"artifacts\":[]\x7d") 3 := by
  refine (parse_iff_deserialize _ _ _ (by decide)).2 fun text htext => ?_
  cases htext
  refine ⟨fun items h => (nomatch h), rfl, fun ms hms => ?_⟩
  cases hms
  refine ⟨by decide, fun _ _ => trivial, by decide, fun _ _ => trivial, by decide, fun _ _ => trivial, by decide,
    fun _ _ => trivial, by decide, ?_, by decide, ?_, trivial⟩
  all_goals
    intro m hm items hitems x hx
    obtain rfl := List.mem_singleton.mp hm
    cases hitems
    cases hx

/-- Static assets whose reload is written as an array. -/
def arrayReloadArtifact : Text :=
  .obj [(some "component", .str "app"), (some "version", .str "1"),
    (some "commit", .str "0123456789abcdef0123456789abcdef01234567"), (some "target_arch", .str "x86_64"),
    (some "kind", .str "static-assets"), (some "dispositions", .arr [.str "install"]),
    (some "archive_path", .str "a"), (some "sha256", .str "00"),
    (some "spec", .obj [(some "placement", .str "core-hosts"), (some "registration", .obj [
      (some "package_id", .str "app"), (some "service_name", .str "app"),
      (some "reload", .obj [(some "sighup", .arr [.str "/p"])])])])]

/-- A repeated key, an array, an ignored number that is out of range and a reload written as an array: each document
is accepted at one door only. -/
theorem parse_not_iff_deserialize :
    ¬DoorsAgree (.reading (manifestText [("pinset", .str "a"), ("pinset", .str "b"), ("archive_members", .arr []),
        ("artifacts", .arr [])]))
      (asBytes "\x7b\"format_version\":9,\"pinset\":\"a\",\"pinset\":\"b\",\"archive_members\":[],\"artifacts\":[]\x7d") 3 ∧
    ¬DoorsAgree (.reading (.arr [.num (.posInt 9), .null, .bool false, .null, .arr [], .arr []]))
      (asBytes "[9,null,false,null,[],[]]") 3 ∧
    ¬DoorsAgree (.reading (manifestText [("archive_members", .arr []), ("artifacts", .arr []), ("x", .unreadable)]))
      (asBytes "\x7b\"format_version\":9,\"archive_members\":[],\"artifacts\":[],\"x\":1e999\x7d") 3 ∧
    ¬DoorsAgree (.reading (manifestText [("archive_members", .arr []), ("artifacts", .arr [arrayReloadArtifact])]))
      (asBytes ("\x7b\"format_version\":9,\"archive_members\":[],\"artifacts\":[\x7b\"component\":\"app\"," ++
        "\"version\":\"1\",\"commit\":\"0123456789abcdef0123456789abcdef01234567\",\"target_arch\":\"x86_64\"," ++
        "\"kind\":\"static-assets\",\"dispositions\":[\"install\"],\"archive_path\":\"a\",\"sha256\":\"00\"," ++
        "\"spec\":\x7b\"placement\":\"core-hosts\",\"registration\":\x7b\"package_id\":\"app\"," ++
        "\"service_name\":\"app\",\"reload\":\x7b\"sighup\":[\"/p\"]\x7d\x7d\x7d\x7d]\x7d")) 3 := by
  refine ⟨fun h => ?_, fun h => ?_, fun h => ?_, fun h => ?_⟩
  · exact absurd ((h ⟨some 9, some "b", false, none, some [], []⟩).mp rfl) (by decide)
  · exact absurd ((h ⟨some 9, none, false, none, some [], []⟩).mpr rfl) (by decide)
  · exact absurd ((h ⟨some 9, none, false, none, some [], []⟩).mpr rfl) (by decide)
  · exact absurd ((h ⟨some 9, none, false, none, some [], [
      ⟨"app", "1", some "0123456789abcdef0123456789abcdef01234567", .x86_64, .staticAssets, {.install}, "a", "00",
        some ⟨none, ⟨"app", "app", .sighup "/p", none⟩, .coreHosts⟩, none⟩]⟩).mpr rfl) (by decide)

end DeployCore
