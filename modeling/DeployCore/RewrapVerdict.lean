import DeployCore.Extract
import DeployCore.Rewrap
import DeployCore.VerifyBounded

/-! # What a chain of rewraps leaves of a package

A package may be carried from base to base before anyone verifies it. `Verdict` is what its reader learns of it: the
verdict of `verifyPackage`, that of `verifyPackageBounded`, and what the verified package extracts to. A rewrap moves
the archive block and nothing else of that, so a chain of rewraps keeps every verdict (`rewrapEach_verdict`). -/

namespace DeployCore

/-- `verify_package`, and `VerifiedPackage::extract_to` behind it. -/
def verifyAndExtract (lib : Externals) (decode : ArchiveDecoder) (src : Source) (trust : TrustSet)
    (request : VerifyRequest) : Except ContainerError Staging := do
  let verified ← (verifyPackage lib src trust request).mapError .verify
  (extractTo lib decode src verified.payload).mapError .ofArchive

/-- Rewraps a file onto each base in turn. -/
def rewrapEach (file : Bytes) : List Bytes → Except PayloadError Bytes
  | [] => .ok file
  | base :: bases =>
    match rewrapTrailer (.ofBytes file) ⟨base, none⟩ (.ofBytes []) with
    | (.ok (), out) => rewrapEach out.written bases
    | (.error e, _) => .error e

/-- A payload whose archive block is found elsewhere. -/
def Payload.movedTo (payload : Payload) (archiveOffset : UInt64) : Payload :=
  { payload with archiveOffset }

def VerifiedPackage.movedTo (verified : VerifiedPackage) (archiveOffset : UInt64) : VerifiedPackage :=
  ⟨verified.payload.movedTo archiveOffset⟩

def BoundedVerified.movedTo (verified : BoundedVerified) (archiveOffset : UInt64) : BoundedVerified :=
  { verified with archiveOffset }

/-- Two files that no verification and no extraction tells apart, but for where the archive block is. -/
structure SameVerdicts (lib : Externals) (decode : ArchiveDecoder) (file file' : Bytes) : Prop where
  verify (trust : TrustSet) (request : VerifyRequest) :
    (verifyPackage lib (.ofBytes file') trust request).map (·.movedTo 0) =
      (verifyPackage lib (.ofBytes file) trust request).map (·.movedTo 0)
  bounded (trust : TrustSet) (request : VerifyRequest) (bounds : ContainerBounds) :
    (verifyPackageBounded lib (.ofBytes file') trust request bounds).map (·.movedTo 0) =
      (verifyPackageBounded lib (.ofBytes file) trust request bounds).map (·.movedTo 0)
  extract (trust : TrustSet) (request : VerifyRequest) :
    verifyAndExtract lib decode (.ofBytes file') trust request =
      verifyAndExtract lib decode (.ofBytes file) trust request

/-- A container as it is read, on no base. -/
def UnparsedContainer.movedTo (container : UnparsedContainer) (archiveOffset : UInt64) : UnparsedContainer :=
  { container with archiveOffset }

section
variable {lib : Externals} {decode : ArchiveDecoder} {trust : TrustSet} {request : VerifyRequest} {c c' : Container}

/-- Two sound containers of the same blocks. -/
structure Container.SameBlocks (c c' : Container) : Prop where
  sound : c.Sound
  sound' : c'.Sound
  blocks : c'.blocks = c.blocks

namespace Container.SameBlocks

theorem archive (h : c.SameBlocks c') : c'.archive = c.archive :=
  Option.some.inj (List.cons.inj (List.cons.inj h.blocks).2).1

theorem archiveLen (h : c.SameBlocks c') : c'.footer.archiveLen = c.footer.archiveLen := by
  show UInt64.ofNat c'.archive.length = UInt64.ofNat c.archive.length
  rw [h.archive]

theorem manifestLen (h : c.SameBlocks c') : c'.footer.manifestLen = c.footer.manifestLen := by
  have hmanifest : c'.manifest = c.manifest := Option.some.inj (List.cons.inj h.blocks).1
  show UInt64.ofNat c'.manifest.length = UInt64.ofNat c.manifest.length
  rw [hmanifest]

/-- What is read of the two differs in the archive's offset alone. -/
theorem unparsed (h : c.SameBlocks c') (bounds : EnvelopeBounds) :
    c'.unparsed bounds = (c.unparsed bounds).movedTo c'.footer.archiveOffset := by
  have hlen := h.archiveLen
  have hblocks := h.blocks
  simp only [Container.blocks, Container.envelope, List.cons.injEq, Option.some.injEq, and_true] at hblocks
  obtain ⟨hmanifest, -, hsignature, hkeyId, hmlSignature, hmlKeyId⟩ := hblocks
  simp only [Container.unparsed, UnparsedContainer.movedTo, hmanifest, hsignature, hkeyId, hmlSignature, hmlKeyId, hlen]

end Container.SameBlocks

/-- The verdict on a container does not look at where its archive is. -/
theorem judge_movedTo (container : UnparsedContainer) (offset : UInt64) :
    judge lib trust request (container.movedTo offset) = (judge lib trust request container).map (·.movedTo offset) := by
  show (authenticate lib container trust request).bind _ = _
  rw [judge]
  cases authenticate lib container trust request <;> rfl

theorem verifyPackage_bytes (h : c.Sound) : verifyPackage lib (.ofBytes c.bytes) trust request =
    judge lib trust request (c.unparsed ENVELOPE_BOUNDS) := by
  rw [verifyPackage_eq_judge, Container.readPackageContainer_bytes h]
  rfl

theorem verifyPackageBounded_bytes (h : c.Sound) {bounds : ContainerBounds} :
    verifyPackageBounded lib (.ofBytes c.bytes) trust request bounds =
      ((bounds.check c.footer).mapError .ofContainer).bind fun _ =>
        ((judge lib trust request (c.unparsed ENVELOPE_BOUNDS)).map .ofPackage).mapError .verify := by
  have hlocated : locatedFooter (.ofBytes c.bytes) = .ok (some c.footer) :=
    locatedFooter_eq_some.mpr ⟨_, _, Source.len_ofBytes, Container.locateFooter_bytes h, Container.validateFooter_footer h⟩
  rw [verifyPackageBounded_eq_judge, readPackageContainerBounded_eq, hlocated]
  dsimp only
  rw [Container.readPackageContainer_bytes h]
  cases bounds.check c.footer <;> rfl

/-- The archive block of a verified package is the container's, wherever the footer says it is. -/
theorem takeAt_archive (h : c.Sound) {verified : VerifiedPackage}
    (hverified : judge lib trust request (c.unparsed ENVELOPE_BOUNDS) = .ok verified) :
    (Source.ofBytes c.bytes).takeAt verified.payload.archiveOffset.toNat verified.payload.archiveLen.toNat =
      ⟨c.archive, none⟩ := by
  obtain ⟨manifest, -, hpayload⟩ := Checks.bind_ok hverified
  cases hpayload
  have harchive : LittleEndian.slice c.bytes c.footer.archiveOffset.toNat c.footer.archiveLen.toNat = c.archive :=
    Option.some.inj (List.cons.inj (List.cons.inj (Container.extract_bytes h)).2).1
  exact congrArg (Stream.mk · none) harchive

/-- Files of the same blocks get the same verdicts. -/
theorem Container.SameBlocks.verdicts (h : c.SameBlocks c') : SameVerdicts lib decode c.bytes c'.bytes := by
  have hjudge (trust : TrustSet) (request : VerifyRequest) : judge lib trust request (c'.unparsed ENVELOPE_BOUNDS) =
      (judge lib trust request (c.unparsed ENVELOPE_BOUNDS)).map (·.movedTo c'.footer.archiveOffset) := by
    rw [h.unparsed, judge_movedTo]
  refine ⟨fun trust request => ?_, fun trust request bounds => ?_, fun trust request => ?_⟩
  · rw [verifyPackage_bytes h.sound, verifyPackage_bytes h.sound', hjudge]
    cases judge lib trust request (c.unparsed ENVELOPE_BOUNDS) <;> rfl
  · have hcheck : bounds.check c'.footer = bounds.check c.footer := by
      simp only [ContainerBounds.check, h.manifestLen, h.archiveLen]
    rw [verifyPackageBounded_bytes h.sound, verifyPackageBounded_bytes h.sound', hcheck, hjudge]
    cases bounds.check c.footer with
    | error e => rfl
    | ok => cases judge lib trust request (c.unparsed ENVELOPE_BOUNDS) <;> rfl
  · have htake := @takeAt_archive lib trust request _ h.sound
    have htake' := @takeAt_archive lib trust request _ h.sound'
    rw [verifyAndExtract, verifyAndExtract, verifyPackage_bytes h.sound, verifyPackage_bytes h.sound']
    rw [hjudge] at htake' ⊢
    cases hverified : judge lib trust request (c.unparsed ENVELOPE_BOUNDS) with
    | error e => rfl
    | ok verified =>
      rw [hverified] at htake'
      have htake' := htake' rfl
      show ((extractTo lib decode _ _).mapError _) = (extractTo lib decode _ _).mapError _
      rw [extractTo, extractTo, htake hverified, htake', h.archive]
      rfl

end

/-! ### The chain -/

section
variable {lib : Externals} {decode : ArchiveDecoder} {c : Container}

theorem Footer.LaidOut.offset_le {f : Footer} {footerStart : Nat} (h : f.LaidOut footerStart) {offset len : UInt64}
    (hmem : wirePair offset len ∈ f.pairs) : offset.toNat ≤ footerStart := by
  cases hp : wirePair offset len with
  | none =>
    unfold wirePair at hp
    split at hp
    · next habsent =>
      rw [(isAbsentPair_iff.mp habsent).1]
      exact Nat.zero_le _
    · cases hp
  | some p =>
    rw [hp] at hmem
    have hle := (h.chain.mem_le hmem).2
    unfold wirePair at hp
    split at hp
    · cases hp
    · cases hp
      exact Nat.le_trans (Nat.le_add_right _ _) hle

/-- A base that is not empty, on which the file stays below 4.7 exabytes, keeps a container sound. -/
theorem Container.sound_rebase_of_lt (h : c.Sound) {newBase : Bytes} (hne : newBase ≠ [])
    (hlt : newBase.length + c.body.length < 0x42 * 2 ^ 56) : (c.rebase newBase).Sound := by
  have hlaid := laidOut_footer h
  have hfits := h.fits
  have hoffset : c.footer.manifestOffset.toNat = c.base.length := by
    rw [footerStart] at hfits
    exact Checked.toNat_ofNat (by omega)
  have hbelow {offset len : UInt64} (hmem : wirePair offset len ∈ c.footer.pairs) :
      ¬c.footer.rebasedOffset newBase.length offset / 2 ^ 56 = 0x42 := by
    have hle := hlaid.offset_le hmem
    rw [footerStart] at hle
    rw [Footer.rebasedOffset, hoffset]
    omega
  refine Footer.Graftable.sound h (by omega) ⟨fun _ => ?_, fun hspelled => ?_, fun hspelled => ?_⟩
  · have := List.length_pos_iff.mpr hne
    omega
  · have harchive : wirePair c.footer.archiveOffset c.footer.archiveLen ∈ c.footer.pairs := by
      rw [wirePair, if_neg]
      · exact .tail _ (.head _)
      · rw [isAbsentPair_iff, hspelled.2]
        rintro ⟨-, hlen⟩
        exact absurd hlen (by decide)
    exact hbelow harchive hspelled.1
  · exact hbelow (.tail _ (.tail _ (.tail _ (.head _)))) hspelled.1

/-- A chain of rewraps is the container on its last base. -/
theorem rewrapEach_bytes (h : c.Sound) {bases : List Bytes}
    (hbases : ∀ base ∈ bases, base ≠ [] ∧ base.length + c.body.length < 0x42 * 2 ^ 56) :
    (c.rebase (bases.getLastD c.base)).Sound ∧
      rewrapEach c.bytes bases = .ok (c.rebase (bases.getLastD c.base)).bytes := by
  induction bases generalizing c with
  | nil => exact ⟨h, rfl⟩
  | cons base bases ih =>
    obtain ⟨⟨hne, hlt⟩, hbases⟩ := List.forall_mem_cons.mp hbases
    have hrebased := Container.sound_rebase_of_lt h hne hlt
    obtain ⟨hsound, hrest⟩ := ih hrebased hbases
    have hlast : (base :: bases).getLastD c.base = bases.getLastD base := List.getLastD_cons
    rw [hlast]
    refine ⟨hsound, ?_⟩
    rw [rewrapEach, Container.rewrapTrailer_bytes h (by omega)]
    exact hrest

end

/-- A chain of rewraps onto bases that are not empty, short of 4.7 exabytes, succeeds and keeps every verdict on the
package: the base alone is another one, and a last rewrap onto the first base restores the first file. -/
theorem rewrapEach_verdict (lib : Externals) (decode : ArchiveDecoder) (file : Bytes) (f : Footer) (footerStart : Nat)
    (bases : List Bytes) (base : Bytes)
    (hloc : locateFooter (.ofBytes file) file.length = .ok (.found f footerStart))
    (hval : validateFooter f footerStart = .ok ())
    (hbases : ∀ b ∈ bases ++ [base], b ≠ [] ∧ b.length + (footerStart - f.manifestOffset.toNat) < 0x42 * 2 ^ 56) :
    ∃ out, rewrapEach file (bases ++ [base]) = .ok out ∧
      readBaseExecutable (.ofBytes out) = .ok base ∧
      SameVerdicts lib decode file out ∧
      rewrapTrailer (.ofBytes out) ⟨file.take f.manifestOffset.toNat, none⟩ (.ofBytes []) = (.ok (), .ofBytes file) := by
  obtain ⟨c, hc, rfl, rfl, rfl⟩ := exists_of_located hloc hval
  have hfits := hc.fits
  rw [Container.footerStart] at hfits
  have hoffset : c.footer.manifestOffset.toNat = c.base.length := Checked.toNat_ofNat (by omega)
  have hlen : c.footerStart - c.footer.manifestOffset.toNat = c.body.length := by
    rw [hoffset, Container.footerStart, Nat.add_sub_cancel_left]
  rw [hlen] at hbases
  obtain ⟨hsound, hrun⟩ := rewrapEach_bytes hc hbases
  have hlast : (bases ++ [base]).getLastD c.base = base := by simp
  rw [hlast] at hsound hrun
  have htake : c.bytes.take c.footer.manifestOffset.toNat = c.base := by
    rw [hoffset]
    simp [Container.bytes]
  refine ⟨_, hrun, Container.readBaseExecutable_bytes hsound, Container.SameBlocks.verdicts ⟨hc, hsound, rfl⟩, ?_⟩
  rw [htake]
  exact Container.rewrapTrailer_bytes hsound hfits

theorem footerStart_signedOn {manifest : Bytes} (h : manifest.length < 1000) :
    (Container.ofParts [] manifest [0] (some zeroSigned)).footerStart < 6000 := by
  have henvelope : envelopeLen (some zeroSigned) = 4819 := rfl
  rw [footerStart_ofParts fun _ hs => Option.some.inj hs ▸ validateSigned_zeroSigned, henvelope, List.length_nil,
    List.length_singleton]
  omega

/-- A package of trust material, carried over two bases, is accepted as it was. -/
theorem rewrapEach_verdict_trustPackage :
    ∃ out verified, rewrapEach trustPackage.bytes [[0x7F], [1, 2]] = .ok out ∧
      readBaseExecutable (.ofBytes out) = .ok [1, 2] ∧
      verifyPackage trustExternals (.ofBytes out) (sampleTrustSet ∅) trustRequest = .ok verified ∧
      verified.payload.manifest = trustManifest := by
  have hsound : trustPackage.Sound := sound_signedOn length_trustManifestBytes
  have hstart : trustPackage.footerStart < 6000 := footerStart_signedOn length_trustManifestBytes
  obtain ⟨out, hrun, hbase, hsame, -⟩ := rewrapEach_verdict trustExternals (fun _ => .error .unreadableFrame)
    trustPackage.bytes trustPackage.footer trustPackage.footerStart [[0x7F]] [1, 2]
    (Container.locateFooter_bytes hsound) (Container.validateFooter_footer hsound) (by
      simp only [List.cons_append, List.nil_append, List.forall_mem_cons, ne_eq, reduceCtorEq, not_false_eq_true, true_and,
        List.length_cons, List.length_nil, List.not_mem_nil, false_implies, implies_true, and_true]
      omega)
  obtain ⟨verified, hverified, hmanifest⟩ := @verifyPackage_trustPackage ∅ (by simp)
  have hkept := hsame.verify (sampleTrustSet ∅) trustRequest
  rw [hverified] at hkept
  cases hout : verifyPackage trustExternals (.ofBytes out) (sampleTrustSet ∅) trustRequest with
  | error e =>
    rw [hout] at hkept
    cases hkept
  | ok verified' =>
    rw [hout] at hkept
    refine ⟨out, verified', hrun, hbase, hout, ?_⟩
    rw [← hmanifest]
    exact congrArg (·.payload.manifest) (Except.ok.inj hkept)

end DeployCore
