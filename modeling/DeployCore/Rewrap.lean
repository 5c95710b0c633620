import DeployCore.Tail

/-! # Grafting a trailer onto another base

`rewrapTrailer` streams a new base, copies the source's trailer body and writes a footer whose present
offsets are shifted. On the file of a sound container it writes the file of the same container with the new
base (`rewrapTrailer_bytes`); whether that container is sound again is a matter of the new offsets alone. -/

namespace DeployCore
open LittleEndian Adjacent

/-- A present block's offset at its distance past the new base. -/
def shifted (oldBaseLen newBaseLen offset : UInt64) : Except PayloadError UInt64 :=
  match (Checked.sub offset oldBaseLen).bind fun withinBody => Checked.add newBaseLen withinBody with
  | some offset => .ok offset
  | none => .error .truncatedTrailer

/-- An absent envelope pair is left exactly all-zero. -/
def shiftedEnvelope (oldBaseLen newBaseLen offset len : UInt64) : Except PayloadError UInt64 :=
  if isAbsentPair offset len then .ok 0 else shifted oldBaseLen newBaseLen offset

/-- The footer of the graft. -/
def rewrittenFooter (footer : Footer) (newBaseLen : UInt64) : Except PayloadError Footer := do
  let oldBaseLen := footer.manifestOffset
  let archiveOffset ← shifted oldBaseLen newBaseLen footer.archiveOffset
  let signatureOffset ← shiftedEnvelope oldBaseLen newBaseLen footer.signatureOffset footer.signatureLen
  let keyIdOffset ← shiftedEnvelope oldBaseLen newBaseLen footer.keyIdOffset footer.keyIdLen
  let mlDsa87SignatureOffset ←
    shiftedEnvelope oldBaseLen newBaseLen footer.mlDsa87SignatureOffset footer.mlDsa87SignatureLen
  let mlDsa87KeyIdOffset ← shiftedEnvelope oldBaseLen newBaseLen footer.mlDsa87KeyIdOffset footer.mlDsa87KeyIdLen
  .ok { footer with
    manifestOffset := newBaseLen
    archiveOffset, signatureOffset, keyIdOffset, mlDsa87SignatureOffset, mlDsa87KeyIdOffset }

/-- Locates and validates the footer of a rewrap's source. -/
def rewrapSource (source : Source) : Except PayloadError (Footer × Nat) := do
  let sourceLen ← liftIo source.len
  match ← locateFooter source sourceLen with
  | .noTrailer => .error .noTrailer
  | .found footer footerStart => do
    validateFooter footer footerStart
    .ok (footer, footerStart)

/-- Copies an existing payload's trailer onto a different base binary. -/
def rewrapTrailer (source : Source) (newBase : Stream) (out : Out) : Except PayloadError Unit × Out :=
  match rewrapSource source with
  | .error e => (.error e, out)
  | .ok (footer, footerStart) =>
    let oldBaseLen := footer.manifestOffset.toNat
    let bodyLen := footerStart - oldBaseLen
    match out.copy newBase with
    | (.error e, out) => (.error (.io e), out)
    | (.ok newBaseLen, out) =>
      match out.copy (source.takeAt oldBaseLen bodyLen) with
      | (.error e, out) => (.error (.io e), out)
      | (.ok copied, out) =>
        if copied ≠ bodyLen then (.error .truncatedTrailer, out)
        else
          match rewrittenFooter footer (.ofNat newBaseLen) with
          | .error e => (.error e, out)
          | .ok rewritten =>
            let (written, out) := out.writeAll rewritten.encode
            (liftIo written, out)

/-! ### The graft is the container on its new base -/

/-- The container with another base. -/
def Container.rebase (c : Container) (base : Bytes) : Container :=
  { c with base }

theorem shifted_ofNat {oldBase newBase offset : Nat} (hle : oldBase ≤ offset) (ho : offset < 2 ^ 64)
    (hn : newBase + (offset - oldBase) < 2 ^ 64) :
    shifted (.ofNat oldBase) (.ofNat newBase) (.ofNat offset) = .ok (.ofNat (newBase + (offset - oldBase))) := by
  have hsub : Checked.sub (.ofNat offset) (.ofNat oldBase) = some (.ofNat (offset - oldBase)) := by
    rw [Checked.sub_eq_some, Checked.toNat_ofNat ho, Checked.toNat_ofNat (by omega), Checked.toNat_ofNat (by omega)]
    omega
  have hadd : Checked.add (.ofNat newBase) (.ofNat (offset - oldBase)) =
      some (.ofNat (newBase + (offset - oldBase))) := by
    rw [Checked.add_eq_some, Checked.toNat_ofNat (by omega), Checked.toNat_ofNat (by omega), Checked.toNat_ofNat hn]
  rw [shifted, hsub, Option.bind_some, hadd]

theorem shiftedEnvelope_wireOf {oldBase newBase : Nat} {p : Option (Nat × Nat)}
    (h : ∀ offset len, p = some (offset, len) → oldBase ≤ offset ∧ offset < 2 ^ 64 ∧
      newBase + (offset - oldBase) < 2 ^ 64 ∧ 0 < len ∧ len < 2 ^ 64) :
    shiftedEnvelope (.ofNat oldBase) (.ofNat newBase) (wireOf p).1 (wireOf p).2 =
      .ok (wireOf (p.map fun p => (newBase + (p.1 - oldBase), p.2))).1 := by
  rcases p with _ | ⟨offset, len⟩
  · rfl
  · obtain ⟨hle, ho, hn, hpos, hl⟩ := h offset len rfl
    have hlen : UInt64.ofNat len ≠ 0 := by
      rw [ne_eq, ← UInt64.toNat_inj, Checked.toNat_ofNat hl]
      exact hpos.ne'
    rw [shiftedEnvelope, if_neg (by simp [wireOf, isAbsentPair_iff, hlen])]
    exact shifted_ofNat hle ho hn

theorem wireOf_some (p : Nat × Nat) : wireOf (some p) = (UInt64.ofNat p.1, UInt64.ofNat p.2) := rfl

theorem wireOf_map_snd (p : Option (Nat × Nat)) (g : Nat × Nat → Nat) :
    (wireOf (p.map fun p => (g p, p.2))).2 = (wireOf p).2 := by
  rcases p with _ | ⟨offset, len⟩ <;> rfl

/-- Rewriting a footer of adjacent blocks shifts every description and keeps every length. -/
theorem rewrittenFooter_ofPairs {base newBase manifest archive : Nat} {p₀ p₁ p₂ p₃ : Option (Nat × Nat)}
    (hfits : base + manifest < 2 ^ 64 ∧ newBase + manifest < 2 ^ 64)
    (h : ∀ offset len, some (offset, len) ∈ [p₀, p₁, p₂, p₃] → base ≤ offset ∧ offset < 2 ^ 64 ∧
      newBase + (offset - base) < 2 ^ 64 ∧ 0 < len ∧ len < 2 ^ 64) :
    let pairs := [some (base, manifest), some (base + manifest, archive), p₀, p₁, p₂, p₃]
    rewrittenFooter (.ofPairs pairs) (.ofNat newBase) =
      .ok (.ofPairs (pairs.map (Option.map fun p => (newBase + (p.1 - base), p.2)))) := by
  have harchive : shifted (.ofNat base) (.ofNat newBase) (.ofNat (base + manifest)) =
      .ok (.ofNat (newBase + (base + manifest - base))) :=
    shifted_ofNat (by omega) hfits.1 (by omega)
  have henv (p : Option (Nat × Nat)) (hp : p ∈ [p₀, p₁, p₂, p₃]) :
      shiftedEnvelope (.ofNat base) (.ofNat newBase) (wireOf p).1 (wireOf p).2 =
        .ok (wireOf (p.map fun p => (newBase + (p.1 - base), p.2))).1 :=
    shiftedEnvelope_wireOf fun offset len heq => h offset len (heq ▸ hp)
  have hsnd (p : Option (Nat × Nat)) :
      (wireOf (p.map fun p => (newBase + (p.1 - base), p.2))).2 = (wireOf p).2 := wireOf_map_snd p _
  intro pairs
  simp only [pairs, rewrittenFooter, Footer.ofPairs, Footer.fromFields]
  show (shifted (.ofNat base) (.ofNat newBase) (.ofNat (base + manifest))).bind _ = _
  rw [harchive]
  show (shiftedEnvelope (.ofNat base) (.ofNat newBase) (wireOf p₀).1 (wireOf p₀).2).bind _ = _
  rw [henv p₀ (by simp)]
  show (shiftedEnvelope (.ofNat base) (.ofNat newBase) (wireOf p₁).1 (wireOf p₁).2).bind _ = _
  rw [henv p₁ (by simp)]
  show (shiftedEnvelope (.ofNat base) (.ofNat newBase) (wireOf p₂).1 (wireOf p₂).2).bind _ = _
  rw [henv p₂ (by simp)]
  show (shiftedEnvelope (.ofNat base) (.ofNat newBase) (wireOf p₃).1 (wireOf p₃).2).bind _ = _
  rw [henv p₃ (by simp)]
  simp [Except.bind, hsnd, wireOf_some]

namespace Container
variable {c : Container}

/-- The footer of the graft is the rebased container's. -/
theorem rewrittenFooter_footer (h : c.Sound) {newBase : Bytes}
    (hfits : newBase.length + c.body.length < 2 ^ 64) :
    rewrittenFooter c.footer (.ofNat newBase.length) = .ok (c.rebase newBase).footer := by
  have hold := h.fits
  rw [footerStart] at hold
  have hbody : c.body.length = c.manifest.length + (c.archive.length + (joined c.envelope).length) := by
    simp [body, blocks, joined]
  have hplace : place c.base.length c.blocks = some (c.base.length, c.manifest.length) ::
      some (c.base.length + c.manifest.length, c.archive.length) ::
        place (c.base.length + c.manifest.length + c.archive.length) c.envelope := rfl
  have hlen : (place (c.base.length + c.manifest.length + c.archive.length) c.envelope).length = 4 :=
    length_place _ _
  have hmem (offset len : Nat)
      (hp : some (offset, len) ∈ place (c.base.length + c.manifest.length + c.archive.length) c.envelope) :
      c.base.length ≤ offset ∧ offset < 2 ^ 64 ∧ newBase.length + (offset - c.base.length) < 2 ^ 64 ∧
        0 < len ∧ len < 2 ^ 64 := by
    obtain ⟨-, hl, ho, hl'⟩ := mem_place_envelope h hp
    obtain ⟨-, -, -, hstart, hstop⟩ := mem_place hp
    exact ⟨by omega, ho, by omega, hl, hl'⟩
  have hrebased : (c.rebase newBase).footer = Footer.ofPairs (place newBase.length c.blocks) := rfl
  rw [hrebased, place_shift c.base.length newBase.length, footer, hplace]
  obtain ⟨p₀, p₁, p₂, p₃, hps⟩ := List.length_eq_four.mp hlen
  rw [hps] at hmem ⊢
  exact rewrittenFooter_ofPairs (by omega) hmem

theorem rewrapSource_bytes (h : c.Sound) : rewrapSource (.ofBytes c.bytes) = .ok (c.footer, c.footerStart) := by
  rw [rewrapSource, Source.len_ofBytes]
  simp only [liftIo, Except.mapError, bind, Except.bind, locateFooter_bytes h, validateFooter_footer h]

/-- A rewrap writes the container on its new base. -/
theorem rewrapTrailer_bytes (h : c.Sound) {newBase : Bytes} (hfits : newBase.length + c.body.length < 2 ^ 64) :
    rewrapTrailer (.ofBytes c.bytes) ⟨newBase, none⟩ (.ofBytes []) =
      (.ok (), .ofBytes (c.rebase newBase).bytes) := by
  have hold := h.fits
  rw [footerStart] at hold
  have hoffset : c.footer.manifestOffset.toNat = c.base.length := Checked.toNat_ofNat (by omega)
  have hbody : (Source.ofBytes c.bytes).takeAt c.base.length c.body.length = ⟨c.body, none⟩ := by
    show (⟨slice c.bytes c.base.length c.body.length, none⟩ : Stream) = _
    rw [bytes, slice_middle]
  have hlen : c.footerStart - c.footer.manifestOffset.toNat = c.body.length := by
    rw [hoffset, footerStart, Nat.add_sub_cancel_left]
  simp only [rewrapTrailer, rewrapSource_bytes h, Out.copy_ofBytes, hlen]
  rw [hoffset]
  simp only [hbody, Out.copy_ofBytes, ne_eq, not_true_eq_false, if_false, rewrittenFooter_footer h hfits]
  rfl

/-- The rebased container is sound unless its first envelope block lands on offset zero or a shifted pair
spells a retired footer. -/
theorem sound_rebase (h : c.Sound) {newBase : Bytes} (hfits : newBase.length + c.body.length < 2 ^ 64)
    (hplaced : (∃ b, some b ∈ c.envelope) → 0 < newBase.length + c.manifest.length + c.archive.length)
    (hkey : ¬SpellsFooter 1 (c.rebase newBase).footer.keyIdOffset (c.rebase newBase).footer.keyIdLen)
    (harchive : ¬SpellsFooter 2 (c.rebase newBase).footer.archiveOffset (c.rebase newBase).footer.archiveLen) :
    (c.rebase newBase).Sound :=
  ⟨hfits, h.nonempty, hplaced, hkey, harchive⟩

end Container

/-! ### Rewrapping any container -/

/-- An offset of the source, at its distance past a new base. -/
def Footer.rebasedOffset (f : Footer) (newBaseLen : Nat) (offset : UInt64) : Nat :=
  newBaseLen + (offset.toNat - f.manifestOffset.toNat)

/-- The graft of a valid container onto a new base of `newBaseLen` bytes reads back: no present envelope block
lands on offset zero, and neither the shifted archive pair nor the shifted `key_id` pair spells a retired
footer. -/
structure Footer.Graftable (f : Footer) (newBaseLen : Nat) : Prop where
  placed : (∃ p, some p ∈ f.pairs.drop 2) → 0 < newBaseLen + f.manifestLen.toNat + f.archiveLen.toNat
  archive : ¬(f.rebasedOffset newBaseLen f.archiveOffset / 2 ^ 56 = 0x42 ∧ f.archiveLen = 0x02444C5950524C54)
  keyId : ¬(f.rebasedOffset newBaseLen f.keyIdOffset / 2 ^ 56 = 0x42 ∧ f.keyIdLen = 0x01444C5950524C54)

theorem toNat_of_shifted {oldBaseLen newBaseLen offset x : UInt64}
    (h : shifted oldBaseLen newBaseLen offset = .ok x) :
    x.toNat = newBaseLen.toNat + (offset.toNat - oldBaseLen.toNat) := by
  unfold shifted at h
  split at h
  · next y hy =>
    cases h
    obtain ⟨withinBody, hsub, hadd⟩ := Option.bind_eq_some_iff.mp hy
    rw [Checked.sub_eq_some] at hsub
    rw [Checked.add_eq_some] at hadd
    omega
  · cases h

/-- What a rewritten footer records of the archive and the Ed25519 `key_id`. -/
theorem rewrittenFooter_ok {f f' : Footer} {newBaseLen : UInt64} (h : rewrittenFooter f newBaseLen = .ok f') :
    f'.archiveLen = f.archiveLen ∧ f'.archiveOffset.toNat = f.rebasedOffset newBaseLen.toNat f.archiveOffset ∧
      f'.keyIdLen = f.keyIdLen ∧
      (f.keyIdLen ≠ 0 → f'.keyIdOffset.toNat = f.rebasedOffset newBaseLen.toNat f.keyIdOffset) := by
  simp only [rewrittenFooter, bind, Except.bind] at h
  split at h
  · cases h
  next archiveOffset harchive =>
  split at h
  · cases h
  split at h
  · cases h
  next keyIdOffset hkey =>
  split at h
  · cases h
  split at h
  · cases h
  cases h
  refine ⟨rfl, toNat_of_shifted harchive, rfl, fun hne => ?_⟩
  rw [shiftedEnvelope, if_neg (by simp [isAbsentPair_iff, hne])] at hkey
  exact toNat_of_shifted hkey

/-- A graftable footer is one whose container stays sound. -/
theorem Footer.Graftable.sound {c : Container} (h : c.Sound) {newBase : Bytes}
    (hfits : newBase.length + c.body.length < 2 ^ 64) (hg : c.footer.Graftable newBase.length) :
    (c.rebase newBase).Sound := by
  obtain ⟨halen, hao, hklen, hko⟩ := rewrittenFooter_ok (Container.rewrittenFooter_footer h hfits)
  have hfold := h.fits
  have hbody : c.body.length = c.manifest.length + (c.archive.length + (joined c.envelope).length) := by
    simp [Container.body, Container.blocks, joined]
  rw [Container.footerStart] at hfold
  have hnew : (UInt64.ofNat newBase.length).toNat = newBase.length := Checked.toNat_ofNat (by omega)
  rw [hnew] at hao hko
  refine Container.sound_rebase h hfits ?_ ?_ ?_
  · rintro ⟨b, hb⟩
    have hm : c.footer.manifestLen.toNat = c.manifest.length := Checked.toNat_ofNat (by omega)
    have ha : c.footer.archiveLen.toNat = c.archive.length := Checked.toNat_ofNat (by omega)
    have henv : extract c.bytes (c.footer.pairs.drop 2) = c.envelope :=
      congrArg (List.drop 2) (Container.extract_bytes h)
    rw [← henv, extract, List.mem_map] at hb
    obtain ⟨_ | p, hp, heq⟩ := hb
    · cases heq
    · have := hg.placed ⟨p, hp⟩
      omega
  · rintro ⟨hoffset, hlen⟩
    have hspelled : ofLE64 (MAGIC.tail ++ [1]) = 0x01444C5950524C54 := by decide
    rw [hspelled, hklen] at hlen
    refine hg.keyId ⟨?_, hlen⟩
    rw [← hko (by rw [hlen]; decide)]
    exact hoffset
  · rintro ⟨hoffset, hlen⟩
    have hspelled : ofLE64 (MAGIC.tail ++ [2]) = 0x02444C5950524C54 := by decide
    rw [hspelled, halen] at hlen
    exact hg.archive ⟨hao ▸ hoffset, hlen⟩

/-- A rewrap succeeds with the new base, the source's trailer body and a footer; where the source is graftable
that footer reads back, describes the same blocks, and rewraps onto the original base to the original file. -/
theorem rewrapTrailer_regrafts (file newBase : Bytes) (f : Footer) (footerStart : Nat)
    (hloc : locateFooter (.ofBytes file) file.length = .ok (.found f footerStart))
    (hval : validateFooter f footerStart = .ok ())
    (hfits : newBase.length + (footerStart - f.manifestOffset.toNat) < 2 ^ 64) :
    ∃ out f', rewrapTrailer (.ofBytes file) ⟨newBase, none⟩ (.ofBytes []) = (.ok (), .ofBytes out) ∧
      out = newBase ++ slice file f.manifestOffset.toNat (footerStart - f.manifestOffset.toNat) ++ f'.encode ∧
      (f.Graftable newBase.length →
        locateFooter (.ofBytes out) out.length =
          .ok (.found f' (newBase.length + (footerStart - f.manifestOffset.toNat))) ∧
        validateFooter f' (newBase.length + (footerStart - f.manifestOffset.toNat)) = .ok () ∧
        extract out f'.pairs = extract file f.pairs ∧
        rewrapTrailer (.ofBytes out) ⟨file.take f.manifestOffset.toNat, none⟩ (.ofBytes []) =
          (.ok (), .ofBytes file)) := by
  obtain ⟨c, hc, rfl, rfl, rfl⟩ := exists_of_located hloc hval
  have hfold := hc.fits
  rw [Container.footerStart] at hfold
  have hoffset : c.footer.manifestOffset.toNat = c.base.length := Checked.toNat_ofNat (by omega)
  have hlen : c.footerStart - c.footer.manifestOffset.toNat = c.body.length := by
    rw [hoffset, Container.footerStart, Nat.add_sub_cancel_left]
  have hbody : slice c.bytes c.base.length c.body.length = c.body := by
    rw [Container.bytes, slice_middle]
  have htake : c.bytes.take c.base.length = c.base := by
    simp [Container.bytes]
  rw [hlen] at hfits ⊢
  rw [hoffset, hbody, htake]
  refine ⟨(c.rebase newBase).bytes, (c.rebase newBase).footer, Container.rewrapTrailer_bytes hc hfits, rfl,
    fun hg => ?_⟩
  have hsound := hg.sound hc hfits
  refine ⟨Container.locateFooter_bytes hsound, Container.validateFooter_footer hsound, ?_, ?_⟩
  · rw [Container.extract_bytes hsound, Container.extract_bytes hc]
    rfl
  · exact Container.rewrapTrailer_bytes hsound hfold

/-- A signed container of one base byte and empty manifest and archive blocks. -/
def signedOnByte : Container :=
  .ofParts [0x7F] [] [] (some zeroSigned)

theorem signedOnByte_sound : signedOnByte.Sound :=
  sound_ofParts (fun _ hs => Option.some.inj hs ▸ validateSigned_zeroSigned)
    (by show 1 + 0 + 0 + 4819 + 105 < 2 ^ 64; omega) (fun _ => by decide) (by decide)

theorem footerStart_signedOnByte : signedOnByte.footerStart - signedOnByte.footer.manifestOffset.toNat = 4819 := by
  rw [signedOnByte, footerStart_ofParts fun _ hs => Option.some.inj hs ▸ validateSigned_zeroSigned]
  rfl

theorem rewrapTrailer_regrafts_signed :
    ∃ out f', rewrapTrailer (.ofBytes signedOnByte.bytes) ⟨[1, 2], none⟩ (.ofBytes []) = (.ok (), .ofBytes out) ∧
      validateFooter f' (([1, 2] : Bytes).length + (signedOnByte.footerStart - signedOnByte.footer.manifestOffset.toNat)) = .ok () ∧
      extract out f'.pairs = extract signedOnByte.bytes signedOnByte.footer.pairs := by
  obtain ⟨out, f', hwrite, -, hback⟩ := rewrapTrailer_regrafts signedOnByte.bytes [1, 2] signedOnByte.footer
    signedOnByte.footerStart (Container.locateFooter_bytes signedOnByte_sound)
    (Container.validateFooter_footer signedOnByte_sound)
    (by rw [footerStart_signedOnByte]; show 2 + 4819 < 2 ^ 64; omega)
  obtain ⟨-, hval, hextract, -⟩ := hback ⟨fun _ => by show 0 < 2 + 0 + 0; omega, by decide, by decide⟩
  exact ⟨out, f', hwrite, hval, hextract⟩

/-- A container's archive pair comes to spell a version-2 footer on a base of 4.7 exabytes. -/
theorem rewrapTrailer_hides_v2 (archive newBase : Bytes) (harchive : archive.length = 0x02444C5950524C54)
    (hbase : newBase.length = 0x42 * 2 ^ 56) :
    let c : Container := .ofParts [] [] archive none
    validateFooter c.footer c.footerStart = .ok () ∧
      locateFooter (.ofBytes c.bytes) c.bytes.length = .ok (.found c.footer c.footerStart) ∧
      ∃ out, rewrapTrailer (.ofBytes c.bytes) ⟨newBase, none⟩ (.ofBytes []) = (.ok (), .ofBytes out) ∧
        locateFooter (.ofBytes out) out.length =
          .error (.unsupportedContainerFormat 2 SUPPORTED_CONTAINER_VERSIONS) := by
  have hnone : ∀ s, (none : Option Signed) = some s → validateSigned s = .ok () := fun _ hs => nomatch hs
  have hsound : (Container.ofParts [] [] archive none).Sound := by
    refine sound_ofParts hnone ?_ (by simp) (by simp)
    show 0 + 0 + archive.length + 0 + 105 < 2 ^ 64
    omega
  have hbody : (Container.ofParts [] [] archive none).body.length = archive.length := by
    simp [Container.body, Container.blocks, Container.envelope, Container.ofParts, joined]
  refine ⟨Container.validateFooter_footer hsound, Container.locateFooter_bytes hsound, _,
    Container.rewrapTrailer_bytes hsound (by omega), ?_⟩
  have hrebased : (Container.ofParts [] [] archive none).rebase newBase = .ofParts newBase [] archive none := rfl
  rw [hrebased]
  refine locateFooter_encode_spells_v2 _ rfl (not_v1_ofParts hnone) ?_
  rw [spells_v2_ofParts (by simp only [List.length_nil]; omega), hbase, harchive]
  exact ⟨by norm_num, rfl⟩

/-- A container whose `key_id` block has the length that spells a version-1 footer. -/
def wideKeyId (keyId : Bytes) : Container where
  base := [0x7F]
  manifest := []
  archive := []
  signature := some [0]
  keyId := some keyId
  mlDsa87Signature := none
  mlDsa87KeyId := none

/-- A container's `key_id` pair comes to spell a version-1 footer on a base of 4.7 exabytes. -/
theorem rewrapTrailer_hides_v1 (keyId newBase : Bytes) (hkey : keyId.length = 0x01444C5950524C54)
    (hbase : newBase.length = 0x42 * 2 ^ 56) :
    validateFooter (wideKeyId keyId).footer (wideKeyId keyId).footerStart = .ok () ∧
      locateFooter (.ofBytes (wideKeyId keyId).bytes) (wideKeyId keyId).bytes.length =
        .ok (.found (wideKeyId keyId).footer (wideKeyId keyId).footerStart) ∧
      ∃ out, rewrapTrailer (.ofBytes (wideKeyId keyId).bytes) ⟨newBase, none⟩ (.ofBytes []) = (.ok (), .ofBytes out) ∧
        locateFooter (.ofBytes out) out.length =
          .error (.unsupportedContainerFormat 1 SUPPORTED_CONTAINER_VERSIONS) := by
  have hlen : (wideKeyId keyId).body.length = 1 + keyId.length := by
    simp [Container.body, Container.blocks, Container.envelope, wideKeyId, joined, Nat.add_comm]
  have hoffset : (wideKeyId keyId).footer.keyIdOffset = 2 := rfl
  have harchive : (wideKeyId keyId).footer.archiveOffset = 1 := rfl
  have hsound : (wideKeyId keyId).Sound := by
    refine ⟨?_, ?_, fun _ => by show 0 < 1 + 0 + 0; omega, ?_, ?_⟩
    · rw [Container.footerStart, hlen]
      show 1 + (1 + keyId.length) < 2 ^ 64
      omega
    · intro b hb
      simp only [Container.envelope, wideKeyId, List.mem_cons, Option.some.injEq, reduceCtorEq, List.not_mem_nil,
        or_false] at hb
      rw [← List.length_pos_iff]
      rcases hb with rfl | rfl
      · decide
      · omega
    · rw [hoffset]
      exact fun h => absurd h.le_offset (by decide)
    · rw [harchive]
      exact fun h => absurd h.le_offset (by decide)
  refine ⟨Container.validateFooter_footer hsound, Container.locateFooter_bytes hsound, _,
    Container.rewrapTrailer_bytes hsound (by rw [hlen]; omega), ?_⟩
  refine locateFooter_encode_spells_v1 _ rfl ⟨?_, ?_⟩
  · show (UInt64.ofNat (newBase.length + 1)).toNat / 2 ^ 56 = 0x42
    rw [Checked.toNat_ofNat (by omega), hbase]
    norm_num
  · show UInt64.ofNat keyId.length = _
    rw [hkey]
    decide

/-- Three rewraps that succeed and whose output does not read back. -/
theorem rewrapTrailer_not_regraft :
    (locateFooter (.ofBytes signedOnByte.bytes) signedOnByte.bytes.length =
        .ok (.found signedOnByte.footer signedOnByte.footerStart) ∧
      validateFooter signedOnByte.footer signedOnByte.footerStart = .ok () ∧
      ∃ out f' footerStart', rewrapTrailer (.ofBytes signedOnByte.bytes) ⟨[], none⟩ (.ofBytes []) =
          (.ok (), .ofBytes out) ∧
        locateFooter (.ofBytes out) out.length = .ok (.found f' footerStart') ∧
        validateFooter f' footerStart' =
          .error (.malformedFooter "Ed25519 signature pair is half-zero: neither present nor absent")) ∧
    (let c : Container := .ofParts [] [] (List.replicate 0x02444C5950524C54 0) none;
      validateFooter c.footer c.footerStart = .ok () ∧
      locateFooter (.ofBytes c.bytes) c.bytes.length = .ok (.found c.footer c.footerStart) ∧
      ∃ out, rewrapTrailer (.ofBytes c.bytes) ⟨List.replicate (0x42 * 2 ^ 56) 0, none⟩ (.ofBytes []) =
          (.ok (), .ofBytes out) ∧
        locateFooter (.ofBytes out) out.length =
          .error (.unsupportedContainerFormat 2 SUPPORTED_CONTAINER_VERSIONS)) ∧
    (let c := wideKeyId (List.replicate 0x01444C5950524C54 0);
      validateFooter c.footer c.footerStart = .ok () ∧
      locateFooter (.ofBytes c.bytes) c.bytes.length = .ok (.found c.footer c.footerStart) ∧
      ∃ out, rewrapTrailer (.ofBytes c.bytes) ⟨List.replicate (0x42 * 2 ^ 56) 0, none⟩ (.ofBytes []) =
          (.ok (), .ofBytes out) ∧
        locateFooter (.ofBytes out) out.length =
          .error (.unsupportedContainerFormat 1 SUPPORTED_CONTAINER_VERSIONS)) := by
  have hzero : ∀ s, some zeroSigned = some s → validateSigned s = .ok () :=
    fun s hs => Option.some.inj hs ▸ validateSigned_zeroSigned
  have hbody : signedOnByte.body.length < 2 ^ 64 := by
    have hfits := signedOnByte_sound.fits
    rw [Container.footerStart] at hfits
    omega
  have hrebased : signedOnByte.rebase [] = .ofParts [] [] [] (some zeroSigned) := rfl
  refine ⟨⟨Container.locateFooter_bytes signedOnByte_sound, Container.validateFooter_footer signedOnByte_sound, _,
    (signedOnByte.rebase []).footer, (signedOnByte.rebase []).footerStart,
    Container.rewrapTrailer_bytes signedOnByte_sound (by simpa using hbody), ?_, ?_⟩,
    rewrapTrailer_hides_v2 _ _ List.length_replicate List.length_replicate,
    rewrapTrailer_hides_v1 _ _ List.length_replicate List.length_replicate⟩
  · rw [hrebased]
    exact Container.locateFooter_bytes_of_not_spells (not_v1_ofParts hzero)
      (mt (spells_v2_ofParts (by simp)).mp (by simp))
  · rw [hrebased]
    refine validateFooter_signature_at_zero _ rfl ?_
    show UInt64.ofNat (List.replicate 64 (0 : UInt8)).length ≠ 0
    rw [List.length_replicate]
    decide

end DeployCore
