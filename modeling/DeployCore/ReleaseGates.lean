import DeployCore.GenerationServe
import DeployCore.ReleaseTrust

/-! # What the looks of the doors return

A look of a door that returns is what the same look returns where nothing fails, so what each returns is read off its
value: what is recorded and active, and what a package was found to carry. -/

namespace DeployCore
open Directory Crash

/-! ### The epoch record -/

theorem isAsciiDigitByte_iff {byte : UInt8} : isAsciiDigitByte byte = true ↔ 48 ≤ byte.toNat ∧ byte.toNat ≤ 57 := by
  rw [isAsciiDigitByte, Bool.and_eq_true, decide_eq_true_iff, decide_eq_true_iff]
  exact Iff.rfl

theorem isAsciiDigitByte_of_mem_toDecimal {epoch : UInt64} {byte : UInt8} (h : byte ∈ toDecimal epoch) :
    isAsciiDigitByte byte = true ∧ byte ≠ LINE_FEED := by
  obtain ⟨hlo, hhi⟩ := Decimal.mem_write h
  refine ⟨isAsciiDigitByte_iff.mpr ⟨hlo, hhi⟩, ?_⟩
  rintro rfl
  exact absurd hlo (by decide)

theorem takeWhile_renderEpochRecord {epoch : UInt64} :
    (renderEpochRecord epoch).takeWhile (· ≠ LINE_FEED) = toDecimal epoch := by
  rw [renderEpochRecord, List.takeWhile_append_of_pos fun byte hbyte => by
    simpa using (isAsciiDigitByte_of_mem_toDecimal hbyte).2]
  simp

/-- The record of an epoch reads back. -/
theorem parseEpochRecord_render {epoch : UInt64} (h : epoch ≠ 0) :
    parseEpochRecord (renderEpochRecord epoch) = .ok epoch := by
  have hmem : ¬LINE_FEED ∉ renderEpochRecord epoch := by simp [renderEpochRecord]
  have hne : toDecimal epoch ≠ [] := Decimal.write_ne_nil
  have hhead : (toDecimal epoch).head? ≠ some 48 :=
    Decimal.head?_write fun hzero => h (UInt64.toNat_inj.mp hzero)
  have hone : toDecimal epoch ≠ [48] := fun heq => hhead (by rw [heq]; rfl)
  have hfind : (toDecimal epoch).find? (!isAsciiDigitByte ·) = none := by
    rw [List.find?_eq_none]
    intro byte hbyte
    simp [(isAsciiDigitByte_of_mem_toDecimal hbyte).1]
  have hdrop : ((renderEpochRecord epoch).drop (toDecimal epoch).length).length = 1 := by simp [renderEpochRecord]
  simp only [parseEpochRecord, if_neg hmem, takeWhile_renderEpochRecord, hdrop, ne_eq, not_true_eq_false, if_false,
    if_neg hne, hfind, if_neg hone, if_neg hhead, parseU64_toDecimal]

/-- A line is what is before its end, and its end. -/
theorem eq_line {bytes : Bytes} (hmem : LINE_FEED ∈ bytes)
    (hlength : (bytes.drop (bytes.takeWhile (· ≠ LINE_FEED)).length).length = 1) :
    bytes = bytes.takeWhile (· ≠ LINE_FEED) ++ [LINE_FEED] := by
  have hsplit := List.prefix_iff_eq_append.mp (List.takeWhile_prefix (l := bytes) (· ≠ LINE_FEED))
  obtain ⟨last, hlast⟩ := List.length_eq_one_iff.mp hlength
  rw [hlast] at hsplit
  rw [← hsplit] at hmem
  rcases List.mem_append.mp hmem with htake | hend
  · simpa using List.mem_takeWhile_imp htake
  · rw [← List.mem_singleton.mp hend] at hsplit
    exact hsplit.symm

/-- Digits without a leading zero are the spelling of the number that they are read as. -/
theorem eq_toDecimal_of_parseU64 {digits : Bytes} {n : UInt64}
    (hdigits : ∀ byte ∈ digits, isAsciiDigitByte byte = true) (hne : digits ≠ []) (hhead : digits.head? ≠ some 48)
    (h : parseU64 digits = some n) :
    n ≠ 0 ∧ digits = toDecimal n := by
  have hrange : ∀ byte ∈ digits, 48 ≤ byte.toNat ∧ byte.toNat ≤ 57 :=
    fun byte hbyte => isAsciiDigitByte_iff.mp (hdigits byte hbyte)
  have hplus : digits.head? ≠ some 43 := fun hplus => by
    have hlow := (hrange 43 (List.mem_of_mem_head? hplus)).1
    exact absurd hlow (by decide)
  simp only [parseU64, if_neg hplus, if_neg hne] at h
  obtain ⟨value, hread, rfl⟩ := Option.map_eq_some_iff.mp h
  obtain ⟨-, hvalue, hlt⟩ := (Decimal.read_eq_some_iff (by norm_num)).mp hread
  obtain ⟨hwrite, hpos⟩ := Decimal.write_value hrange hne hhead
  rw [show Decimal.value digits = value from hvalue] at hwrite hpos
  have htoNat : (UInt64.ofNat value).toNat = value := Checked.toNat_ofNat hlt
  refine ⟨fun hzero => hpos ?_, ?_⟩
  · rw [← htoNat, hzero]
    rfl
  · rw [toDecimal, htoNat, hwrite]

/-- The record of an epoch is the only one that reads as it, and zero has none. -/
theorem parseEpochRecord_eq_ok_iff {bytes : Bytes} {epoch : UInt64} :
    parseEpochRecord bytes = .ok epoch ↔ 1 ≤ epoch ∧ bytes = renderEpochRecord epoch := by
  have hone : 1 ≤ epoch ↔ epoch ≠ 0 := by
    rw [UInt64.le_iff_toNat_le, ne_eq, ← UInt64.toNat_inj]
    exact Nat.one_le_iff_ne_zero
  rw [hone]
  constructor
  · intro h
    unfold parseEpochRecord at h
    split at h
    · cases h
    next hmem =>
    dsimp only at h
    split at h
    · cases h
    next hlength =>
    split at h
    · cases h
    next hne =>
    split at h
    · cases h
    next hfind =>
    split at h
    · cases h
    split at h
    · cases h
    next hhead =>
    split at h
    next n hparse =>
      cases h
      have hdigits : ∀ byte ∈ bytes.takeWhile (· ≠ LINE_FEED), isAsciiDigitByte byte = true := by
        simpa using List.find?_eq_none.mp hfind
      obtain ⟨hpos, hdecimal⟩ := eq_toDecimal_of_parseU64 hdigits hne hhead hparse
      refine ⟨hpos, ?_⟩
      rw [renderEpochRecord, ← hdecimal]
      exact eq_line (not_not.mp hmem) (not_not.mp hlength)
    · cases h
  · rintro ⟨hne, rfl⟩
    exact parseEpochRecord_render hne

/-! ### Looks give up -/

section GivesUp
variable {α : Type} {platform : Platform} {surroundings : Surroundings} {lib : Externals} {root : Bytes}
  {faulty : ReleaseTrustError → Prop}

theorem lookDevice_looks : (lookDevice platform surroundings).Looks := ⟨fun _ _ => rfl, fun _ _ _ h => h⟩

theorem givesUp_tryMetadata {name : Bytes} {f : Except ErrorKind Unit → Look α}
    (hf : ∀ r, (f r).GivesUp (lookDevice platform surroundings) faulty)
    (hfault : ∀ kind, kind ≠ .notFound → ∃ e, faulty e ∧ f (.error kind) = .fail e) :
    (tryMetadata name >>= f).GivesUp (lookDevice platform surroundings) faulty := by
  refine Prog.GivesUp.perform (o := LookOp.metadata name) hf ?_
  rintro _ ⟨kind, hkind, rfl⟩
  exact hfault kind hkind

theorem givesUp_trySymlinkMetadata {name : Bytes} {f : Except ErrorKind Unit → Look α}
    (hf : ∀ r, (f r).GivesUp (lookDevice platform surroundings) faulty)
    (hfault : ∀ kind, kind ≠ .notFound → ∃ e, faulty e ∧ f (.error kind) = .fail e) :
    (trySymlinkMetadata name >>= f).GivesUp (lookDevice platform surroundings) faulty := by
  refine Prog.GivesUp.perform (o := LookOp.symlinkMetadata name) hf ?_
  rintro _ ⟨kind, hkind, rfl⟩
  exact hfault kind hkind

theorem givesUp_tryReadLink {name : Bytes} {f : Except ErrorKind Bytes → Look α}
    (hf : ∀ r, (f r).GivesUp (lookDevice platform surroundings) faulty)
    (hfault : ∀ kind, kind ≠ .notFound → ∃ e, faulty e ∧ f (.error kind) = .fail e) :
    (tryReadLink name >>= f).GivesUp (lookDevice platform surroundings) faulty := by
  refine Prog.GivesUp.perform (o := LookOp.readLink name) hf ?_
  rintro _ ⟨kind, hkind, rfl⟩
  exact hfault kind hkind

theorem givesUp_tryRead {dir name : Bytes} {f : Except ErrorKind Bytes → Look α}
    (hf : ∀ r, (f r).GivesUp (lookDevice platform surroundings) faulty)
    (hfault : ∀ kind, kind ≠ .notFound → ∃ e, faulty e ∧ f (.error kind) = .fail e) :
    (tryRead dir name >>= f).GivesUp (lookDevice platform surroundings) faulty := by
  refine Prog.GivesUp.perform (o := LookOp.readFile dir name) hf ?_
  rintro _ ⟨kind, hkind, rfl⟩
  exact hfault kind hkind

theorem givesUp_extractMember {package : Bytes} :
    (extractMember package).GivesUp (lookDevice platform surroundings) ReleaseTrustError.IsIo := by
  refine Prog.GivesUp.perform (o := LookOp.extractMember package) (fun _ => .lift) ?_
  rintro _ ⟨e, he, rfl⟩
  exact ⟨e, he, rfl⟩

theorem givesUp_readActiveEpoch : (readActiveEpoch root).GivesUp (lookDevice platform surroundings) ReleaseTrustError.IsIo := by
  refine givesUp_tryMetadata (fun r => ?_) fun kind hkind => ?_
  · match r with
    | .ok () =>
      refine givesUp_tryRead (fun r => ?_) fun kind hkind => ?_
      · match r with
        | .ok bytes => exact .lift
        | .error .notFound | .error .unexpectedEof | .error (.other _) => trivial
      · cases kind <;> first | exact absurd rfl hkind | exact ⟨.io _ (.os _), trivial, rfl⟩
    | .error .notFound | .error .unexpectedEof | .error (.other _) => trivial
  · cases kind <;> first | exact absurd rfl hkind | exact ⟨.io _ (.os _), trivial, rfl⟩

theorem givesUp_readActiveGeneration :
    (readActiveGeneration lib root).GivesUp (lookDevice platform surroundings) ReleaseTrustError.IsIo := by
  refine givesUp_readActiveEpoch.bind fun epoch => ?_
  match epoch with
  | none => trivial
  | some epoch =>
    refine givesUp_tryRead (fun r => ?_) fun kind _ => ⟨.io _ (.os _), trivial, rfl⟩
    cases r with
    | ok member => exact .lift
    | error kind => trivial

theorem givesUp_activeGenerationIndex : (activeGenerationIndex root).GivesUp (lookDevice platform surroundings) ReleaseTrustError.IsIo := by
  refine givesUp_tryReadLink (fun r => ?_) fun kind hkind => ?_
  · match r with
    | .ok target =>
      dsimp only
      split <;> trivial
    | .error .notFound | .error .unexpectedEof | .error (.other _) => trivial
  · cases kind <;> first | exact absurd rfl hkind | exact ⟨.io _ (.os _), trivial, rfl⟩

theorem givesUp_requirePinMarkerSet : (requirePinMarkerSet root).GivesUp (lookDevice platform surroundings) ReleaseTrustError.IsIo := by
  refine givesUp_trySymlinkMetadata (fun r => ?_) fun kind hkind => ?_
  · match r with
    | .ok () => trivial
    | .error .notFound | .error .unexpectedEof | .error (.other _) => trivial
  · cases kind <;> first | exact absurd rfl hkind | exact ⟨.io _ (.os _), trivial, rfl⟩

theorem givesUp_verifySelfAdmitted {package : Bytes} :
    (verifySelfAdmitted lib package).GivesUp (lookDevice platform surroundings) ReleaseTrustError.IsIo :=
  givesUp_extractMember.bind fun _ => Prog.GivesUp.lift.bind fun _ => trivial

theorem givesUp_judgeDelivered {package : Bytes} :
    (judgeDelivered lib root package).GivesUp (lookDevice platform surroundings) ReleaseTrustError.IsIo := by
  refine givesUp_activeGenerationIndex.bind fun generation => ?_
  match generation with
  | none => trivial
  | some generation =>
    refine givesUp_readActiveGeneration.bind fun active => givesUp_tryRead (fun r => ?_) fun kind _ => ⟨.io _ (.os _), trivial, rfl⟩
    match r with
    | .error kind => trivial
    | .ok stored =>
      refine .ite trivial (givesUp_extractMember.bind fun member => ?_)
      split
      · trivial
      · exact Prog.GivesUp.lift.bind fun _ => Prog.GivesUp.lift.bind fun _ => Prog.GivesUp.lift.bind fun _ =>
          Prog.GivesUp.lift.bind fun _ => trivial

theorem givesUp_judgeRebootstrap {package : Bytes} {assertedEpoch : UInt64} {pin : Option String} :
    (judgeRebootstrap lib root package assertedEpoch pin).GivesUp (lookDevice platform surroundings) ReleaseTrustError.IsIo := by
  refine givesUp_readActiveEpoch.bind fun recorded => ?_
  match recorded with
  | none => trivial
  | some recorded =>
    refine .ite trivial (givesUp_requirePinMarkerSet.bind fun marked => .ite trivial ?_)
    exact givesUp_verifySelfAdmitted.bind fun _ => Prog.GivesUp.lift.bind fun _ => .ite trivial trivial

/-- A tree whose active link does not read is told as one that has a generation. -/
theorem givesUp_judgeEmptyTree {pin : Option String} {source : Look Bytes}
    (hsource : source.GivesUp (lookDevice platform surroundings) ReleaseTrustError.IsIo) :
    (judgeEmptyTree lib root pin source).GivesUp (lookDevice platform surroundings)
      fun e => e.IsIo ∨ e = .activeGenerationPresent none := by
  refine givesUp_tryMetadata (fun r => ?_) fun kind hkind => ?_
  · match r with
    | .ok () =>
      refine givesUp_tryReadLink (fun r => ?_) fun kind _ => ⟨_, .inr rfl, rfl⟩
      cases r <;> trivial
    | .error .notFound =>
      refine Prog.GivesUp.mono ?_ fun _ => .inl
      exact hsource.bind fun _ => givesUp_verifySelfAdmitted.bind fun _ => Prog.GivesUp.lift.bind fun _ => trivial
    | .error .unexpectedEof | .error (.other _) => trivial
  · cases kind <;> first | exact absurd rfl hkind | exact ⟨.io _ (.os _), .inl trivial, rfl⟩

theorem givesUp_readJoinGeneration : (readJoinGeneration root).GivesUp (lookDevice platform surroundings) ReleaseTrustError.IsIo := by
  refine Prog.GivesUp.perform (o := LookOp.readRootFile JOIN_GENERATION_FILE) (fun r => ?_) ?_
  · cases r <;> trivial
  · rintro _ ⟨kind, -, rfl⟩
    exact ⟨.io _ (.os _), trivial, rfl⟩

end GivesUp

/-! ### What is verified -/

section Verified
variable {platform : Platform} {surroundings : Surroundings} {root package member : Bytes} {d : Disk}
  {document : TrustSetDocument} {verified : VerifiedGeneration}

/-- The package carries this document, which the reader accepts. -/
structure Platform.Carries (platform : Platform) (package member : Bytes) (document : TrustSetDocument) : Prop where
  extracted : platform.extractMember package = .ok member
  read : readTrustSetDocument platform.lib member = .ok document

/-- What a door hands to the engine. -/
def VerifiedGeneration.From (verified : VerifiedGeneration) (platform : Platform) (package : Bytes) : Prop :=
  platform.Carries package verified.member verified.document ∧ verified.epoch = verified.document.epoch

theorem Platform.Carries.epoch_ne_zero (h : platform.Carries package member document) : document.epoch ≠ 0 := by
  obtain ⟨_, _, -, -, -, hchecked⟩ := readTrustSetDocument_ok h.read
  exact (checkDocument_ok hchecked).1

/-- The trust set that a document makes. -/
structure TrustSetDocument.Makes (lib : Externals) (document : TrustSetDocument) (trust : TrustSet) : Prop where
  anchors : documentAnchors lib document = some trust.anchors
  withdrawn : trust.withdrawnBuilds =
    (document.withdrawnBuilds.map fun build => (build.packageId, build.version, build.commit)).toFinset
  floor : trust.minManifestFormatVersion = document.minManifestFormatVersion
  epoch : trust.epoch = document.epoch

/-- A carried document and its epoch make a generation that a reader accepts. -/
theorem Platform.Carries.generationMaterial (h : platform.Carries package member document) :
    ∃ trust, generationMaterial platform.lib document.epoch member = .ok ⟨document, document.epoch, trust⟩ ∧
      document.Makes platform.lib trust := by
  obtain ⟨_, _, -, -, -, hchecked⟩ := readTrustSetDocument_ok h.read
  obtain ⟨-, anchors, hanchors, hnodup⟩ := checkDocument_ok hchecked
  let withdrawn := document.withdrawnBuilds.map fun build => (build.packageId, build.version, build.commit)
  refine ⟨⟨anchors, withdrawn.toFinset, document.minManifestFormatVersion, document.epoch, hnodup⟩, ?_, hanchors, rfl, rfl, rfl⟩
  have hagree : checkEpochAgreement document.epoch document = .ok () := if_pos rfl
  simp only [DeployCore.generationMaterial, h.read, Except.mapError, bind, Except.bind, hagree, hanchors,
    TrustSet.new_of_nodup withdrawn _ _ hnodup, withdrawn]

theorem value_extractMember :
    (extractMember package).value (lookDevice platform surroundings) d = platform.extractMember package := by
  rw [extractMember, Prog.value_bind]
  exact Prog.value_lift

theorem admitMember_ok {lib : Externals} {src : Source} (h : admitMember lib src member = .ok document) :
    readTrustSetDocument lib member = .ok document := by
  unfold admitMember at h
  split at h
  · cases h
  obtain ⟨_, -, h⟩ := Checks.bind_ok h
  obtain ⟨_, -, h⟩ := Checks.bind_ok h
  exact Checks.mapError_ok.mp h

theorem verifySelfAdmitted_ok
    (h : (verifySelfAdmitted platform.lib package).value (lookDevice platform surroundings) d = .ok verified) :
    verified.From platform package := by
  rw [verifySelfAdmitted, Prog.value_bind, value_extractMember] at h
  obtain ⟨member, hmember, h⟩ := Checks.bind_ok h
  rw [Prog.value_bind, Prog.value_lift] at h
  obtain ⟨document, hdocument, h⟩ := Checks.bind_ok h
  cases h
  exact ⟨⟨hmember, admitMember_ok hdocument⟩, rfl⟩

/-- What the judgement of a delivered package rests on, when it is to be installed: the package carries the document,
states its epoch twice, and verifies under the active generation's anchors, whose epoch is lower. -/
structure Delivered (platform : Platform) (package : Bytes) (active : TrustSet) (verified : VerifiedGeneration) : Prop where
  carried : verified.From platform package
  provisional : ∃ anchors, provisionalAnchorsAndEpoch platform.lib verified.member = some (anchors, verified.epoch)
  carriers : checkDeliveredEpochCarriers platform.lib package verified.epoch = .ok ()
  vouched : ∃ request, VerifyRequest.forTrust (toString verified.epoch) (memberDigest platform.lib verified.member)
    verified.epoch = .ok request ∧ verifyUnder platform.lib (.ofBytes package) active request = .ok ()

theorem Delivered.lt {active : TrustSet} (h : Delivered platform package active verified) :
    active.epoch < verified.epoch := by
  obtain ⟨request, hrequest, hverify⟩ := h.vouched
  cases hrequest
  obtain ⟨_, hverified, -⟩ := Checks.map_ok hverify
  obtain ⟨_, _, -, -, hstated, -⟩ := verifyPackage_ok (Checks.mapError_ok.mp hverified)
  exact (checkStatements_ok hstated).epoch _ rfl

theorem judgeDelivered_install
    (h : (judgeDelivered platform.lib root package).value (lookDevice platform surroundings) d = .ok (.install verified)) :
    ∃ active, (readActiveGeneration platform.lib root).value (lookDevice platform surroundings) d = .ok active ∧
      Delivered platform package active.trust verified ∧
      d.read surroundings.elsewhere ACTIVE_LINK GENERATION_PACKAGE_FILE ≠ .ok package := by
  rw [judgeDelivered, Prog.value_bind] at h
  obtain ⟨generation, -, h⟩ := Checks.bind_ok h
  cases generation with
  | none => cases h
  | some generation =>
  dsimp only at h
  rw [Prog.value_bind] at h
  obtain ⟨active, hactive, h⟩ := Checks.bind_ok h
  refine ⟨active, hactive, ?_⟩
  rw [Prog.value_bind] at h
  obtain ⟨stored, hstored, h⟩ := Checks.bind_ok h
  have hstored : d.read surroundings.elsewhere ACTIVE_LINK GENERATION_PACKAGE_FILE = stored := Except.ok.inj hstored
  rw [hstored]
  cases stored with
  | error kind => cases h
  | ok stored =>
  dsimp only at h
  split at h
  · cases h
  next hne =>
  rw [Prog.value_bind, value_extractMember] at h
  obtain ⟨member, hmember, h⟩ := Checks.bind_ok h
  split at h
  · cases h
  next anchors deliveredEpoch hprovisional =>
  rw [Prog.value_bind, Prog.value_lift] at h
  obtain ⟨_, hcarriers, h⟩ := Checks.bind_ok h
  rw [Prog.value_bind, Prog.value_lift] at h
  obtain ⟨request, hrequest, h⟩ := Checks.bind_ok h
  rw [Prog.value_bind, Prog.value_lift] at h
  obtain ⟨_, hverify, h⟩ := Checks.bind_ok h
  rw [Prog.value_bind, Prog.value_lift] at h
  obtain ⟨document, hdocument, h⟩ := Checks.bind_ok h
  cases h
  have hread := Checks.mapError_ok.mp hdocument
  obtain ⟨rfl, -, -⟩ := document_of_provisional hread hprovisional
  exact ⟨⟨⟨⟨hmember, hread⟩, rfl⟩, ⟨anchors, hprovisional⟩, hcarriers, request, Checks.mapError_ok.mp hrequest, hverify⟩,
    fun heq => hne (Except.ok.inj heq)⟩

theorem requirePinMarkerSet_value : (requirePinMarkerSet root).value (lookDevice platform surroundings) d =
    (match LookOp.run platform surroundings (.symlinkMetadata REQUIRE_TRUST_PIN_MARKER) d with
      | .ok () => pure true
      | .error .notFound => pure false
      | .error kind => .fail (.io (joinPath root REQUIRE_TRUST_PIN_MARKER) (.os kind)) : Look Bool).value
        (lookDevice platform surroundings) d := by
  rw [requirePinMarkerSet, Prog.value_bind]
  rfl

theorem judgeRebootstrap_ok {assertedEpoch : UInt64} {pin : Option String}
    (h : (judgeRebootstrap platform.lib root package assertedEpoch pin).value (lookDevice platform surroundings) d =
      .ok verified) :
    (readActiveEpoch root).value (lookDevice platform surroundings) d = .ok (some assertedEpoch) ∧
      verified.From platform package ∧ assertedEpoch < verified.epoch ∧
      (∀ pin', pin = some pin' → pin' = memberDigest platform.lib verified.member) ∧
      ((find d.root REQUIRE_TRUST_PIN_MARKER).isSome → pin.isSome) := by
  rw [judgeRebootstrap, Prog.value_bind] at h
  obtain ⟨recorded, hrecorded, h⟩ := Checks.bind_ok h
  cases recorded with
  | none => cases h
  | some recorded =>
  dsimp only at h
  split at h
  · cases h
  next hasserted =>
  obtain rfl := not_not.mp hasserted
  rw [Prog.value_bind] at h
  obtain ⟨marked, hmarked, h⟩ := Checks.bind_ok h
  split at h
  · cases h
  next hpinned =>
  rw [Prog.value_bind] at h
  obtain ⟨verified', hverified, h⟩ := Checks.bind_ok h
  rw [Prog.value_bind, Prog.value_lift] at h
  obtain ⟨_, hpin, h⟩ := Checks.bind_ok h
  split at h
  · cases h
  next hfloor =>
  cases h
  refine ⟨hrecorded, verifySelfAdmitted_ok hverified, UInt64.not_le.mp hfloor, fun pin' hpin' => ?_, fun hmarker => ?_⟩
  · subst hpin'
    unfold checkFingerprintPin at hpin
    dsimp only at hpin
    split at hpin
    · assumption
    · cases hpin
  · have hset : (requirePinMarkerSet root).value (lookDevice platform surroundings) d = .ok true := by
      rw [requirePinMarkerSet_value, LookOp.run, if_pos hmarker]
      rfl
    obtain rfl := Except.ok.inj (hset.symm.trans hmarked)
    cases pin with
    | none => exact absurd rfl hpinned
    | some pin => rfl

theorem judgeEmptyTree_ok {pin : Option String} {source : Look Bytes}
    (h : (judgeEmptyTree platform.lib root pin source).value (lookDevice platform surroundings) d =
      .ok (package, verified)) :
    d.metadata surroundings.stat ACTIVE_LINK = .error .notFound ∧ verified.From platform package := by
  rw [judgeEmptyTree, Prog.value_bind] at h
  obtain ⟨stat, hstat, h⟩ := Checks.bind_ok h
  obtain rfl : d.metadata surroundings.stat ACTIVE_LINK = stat := Except.ok.inj hstat
  split at h
  · next hnone =>
    rw [Prog.value_bind] at h
    obtain ⟨package', -, h⟩ := Checks.bind_ok h
    rw [Prog.value_bind] at h
    obtain ⟨verified', hverified, h⟩ := Checks.bind_ok h
    rw [Prog.value_bind, Prog.value_lift] at h
    obtain ⟨_, -, h⟩ := Checks.bind_ok h
    cases h
    exact ⟨hnone, verifySelfAdmitted_ok hverified⟩
  · cases h
  · rw [Prog.value_bind] at h
    obtain ⟨link, -, h⟩ := Checks.bind_ok h
    cases link <;> cases h

end Verified

end DeployCore
