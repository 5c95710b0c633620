import DeployCore.Reader
import DeployCore.Strings

/-! # Writing a container's tail

`writeStandaloneTail` writes everything after the archive block: the four envelope blocks of a signed
container and the footer. It validates and computes first (`tailFooter`), so a refusal writes nothing. What
it writes is the tail of `Container.ofParts`, and from there the reader's side of the story is the one
`Container` tells. -/

namespace DeployCore
open LittleEndian Adjacent

def ED25519_SIGNATURE_LEN : Nat := 64
def ML_DSA_87_SIGNATURE_LEN : Nat := 4627
def KEY_ID_HEX_LEN : Nat := 64

/-- The bounds this release format defines. -/
def ENVELOPE_BOUNDS : EnvelopeBounds where
  signatureLen := UInt64.ofNat ED25519_SIGNATURE_LEN
  keyIdLen := UInt64.ofNat KEY_ID_HEX_LEN
  mlDsa87SignatureLen := UInt64.ofNat ML_DSA_87_SIGNATURE_LEN
  mlDsa87KeyIdLen := UInt64.ofNat KEY_ID_HEX_LEN

/-- One detached signature and the `key_id` of the key that made it. -/
structure DetachedSignature where
  signature : Bytes
  keyId : String
  deriving DecidableEq

/-- The two detached signatures over one raw manifest block. -/
structure Signed where
  ed25519 : DetachedSignature
  mlDsa87 : DetachedSignature
  deriving DecidableEq

/-- The one length a detached signature of `algorithm` occupies. -/
def signatureLen : SignatureAlgorithm → Nat
  | .ed25519 => ED25519_SIGNATURE_LEN
  | .mlDsa87 => ML_DSA_87_SIGNATURE_LEN

/-- Holds one detached signature of `algorithm` to its framing. -/
def validateDetached (algorithm : SignatureAlgorithm) (detached : DetachedSignature) : Except PayloadError Unit :=
  if detached.signature.length ≠ signatureLen algorithm then
    .error (.invalidSignatureLength algorithm detached.signature.length)
  else if byteLen detached.keyId ≠ KEY_ID_HEX_LEN then
    .error (.invalidKeyId algorithm "must be exactly 64 lowercase-hex ASCII characters")
  else if !isLowerHex detached.keyId then
    .error (.invalidKeyId algorithm "must contain only lowercase hexadecimal ASCII characters")
  else .ok ()

/-- Holds `signed` to the framing the container verifier accepts, the Ed25519 signature first. -/
def validateSigned (signed : Signed) : Except PayloadError Unit := do
  validateDetached .ed25519 signed.ed25519
  validateDetached .mlDsa87 signed.mlDsa87

def tailOverflow : PayloadError :=
  .malformedFooter "a block offset or the container length overflows a u64"

/-- `checked_add` under the tail's overflow error. -/
def tailAdd (a b : UInt64) : Except PayloadError UInt64 :=
  match Checked.add a b with
  | some c => .ok c
  | none => .error tailOverflow

/-- Phase one of the tail write: the footer, computed with every check and nothing written. -/
def tailFooter (manifestOffset manifestLen archiveLen : UInt64) (signed : Option Signed) :
    Except PayloadError Footer := do
  if let some signed := signed then
    validateSigned signed
  let archiveOffset ← tailAdd manifestOffset manifestLen
  let archiveEnd ← tailAdd archiveOffset archiveLen
  let footer : Footer :=
    { Footer.fromFields FORMAT_VERSION (Vector.replicate FOOTER_FIELDS 0) with
      manifestOffset, manifestLen, archiveOffset, archiveLen }
  if signed.isSome then do
    let keyIdOffset ← tailAdd archiveEnd (.ofNat ED25519_SIGNATURE_LEN)
    let mlDsa87SignatureOffset ← tailAdd keyIdOffset (.ofNat KEY_ID_HEX_LEN)
    let mlDsa87KeyIdOffset ← tailAdd mlDsa87SignatureOffset (.ofNat ML_DSA_87_SIGNATURE_LEN)
    let footerStart ← tailAdd mlDsa87KeyIdOffset (.ofNat KEY_ID_HEX_LEN)
    let _ ← tailAdd footerStart (.ofNat FOOTER_SIZE)
    .ok { footer with
      signatureOffset := archiveEnd, signatureLen := .ofNat ED25519_SIGNATURE_LEN
      keyIdOffset, keyIdLen := .ofNat KEY_ID_HEX_LEN
      mlDsa87SignatureOffset, mlDsa87SignatureLen := .ofNat ML_DSA_87_SIGNATURE_LEN
      mlDsa87KeyIdOffset, mlDsa87KeyIdLen := .ofNat KEY_ID_HEX_LEN }
  else do
    let _ ← tailAdd archiveEnd (.ofNat FOOTER_SIZE)
    .ok footer

/-- Writes one run of bytes after another, stopping at the first that fails. -/
def Out.writeEach (out : Out) : List Bytes → Except IoError Unit × Out
  | [] => (.ok (), out)
  | bs :: rest =>
    match out.writeAll bs with
    | (.ok (), out) => out.writeEach rest
    | (.error e, out) => (.error e, out)

/-- The envelope blocks a signed container holds, in the order they are written. -/
def Signed.blocks (signed : Signed) : List Bytes :=
  [signed.ed25519.signature, asBytes signed.ed25519.keyId, signed.mlDsa87.signature, asBytes signed.mlDsa87.keyId]

/-- Writes everything a standalone container holds after its archive block. -/
def writeStandaloneTail (out : Out) (manifestOffset manifestLen archiveLen : UInt64) (signed : Option Signed) :
    Except PayloadError Unit × Out :=
  match tailFooter manifestOffset manifestLen archiveLen signed with
  | .error e => (.error e, out)
  | .ok footer =>
    let (written, out) := out.writeEach ((signed.map Signed.blocks).getD [] ++ [footer.encode])
    (liftIo written, out)

/-! ### The container that is written -/

/-- The container a base, a manifest and an archive make with the tail of `signed`. -/
def Container.ofParts (base manifest archive : Bytes) (signed : Option Signed) : Container where
  base := base
  manifest := manifest
  archive := archive
  signature := signed.map (·.ed25519.signature)
  keyId := signed.map (asBytes ·.ed25519.keyId)
  mlDsa87Signature := signed.map (·.mlDsa87.signature)
  mlDsa87KeyId := signed.map (asBytes ·.mlDsa87.keyId)

/-- How many envelope bytes the tail of `signed` writes before the footer. -/
def envelopeLen (signed : Option Signed) : Nat :=
  if signed.isSome then ED25519_SIGNATURE_LEN + KEY_ID_HEX_LEN + ML_DSA_87_SIGNATURE_LEN + KEY_ID_HEX_LEN else 0

theorem validateDetached_ok {algorithm : SignatureAlgorithm} {detached : DetachedSignature}
    (h : validateDetached algorithm detached = .ok ()) :
    detached.signature.length = signatureLen algorithm ∧ (asBytes detached.keyId).length = KEY_ID_HEX_LEN := by
  unfold validateDetached at h
  split at h
  · cases h
  next hsig =>
  split at h
  · cases h
  next hkey => exact ⟨not_not.mp hsig, not_not.mp hkey⟩

theorem validateSigned_ok {signed : Signed} (h : validateSigned signed = .ok ()) :
    validateDetached .ed25519 signed.ed25519 = .ok () ∧ validateDetached .mlDsa87 signed.mlDsa87 = .ok () := by
  unfold validateSigned at h
  cases hed : validateDetached .ed25519 signed.ed25519 with
  | error e => rw [hed] at h; cases h
  | ok => exact ⟨rfl, by rwa [hed] at h⟩

/-- A signed tail's blocks have the one length each signature and `key_id` has. -/
theorem lengths_of_validateSigned {signed : Signed} (h : validateSigned signed = .ok ()) :
    signed.ed25519.signature.length = 64 ∧ (asBytes signed.ed25519.keyId).length = 64 ∧
      signed.mlDsa87.signature.length = 4627 ∧ (asBytes signed.mlDsa87.keyId).length = 64 :=
  let ⟨hed, hml⟩ := validateSigned_ok h
  ⟨(validateDetached_ok hed).1, (validateDetached_ok hed).2, (validateDetached_ok hml).1, (validateDetached_ok hml).2⟩

theorem tailAdd_ok {a b c : UInt64} (h : a.toNat + b.toNat = c.toNat) : tailAdd a b = .ok c := by
  rw [tailAdd, Checked.add_eq_some.mpr h]

section OfParts
variable {base manifest archive : Bytes} {signed : Option Signed}

theorem footerStart_ofParts (h : ∀ s, signed = some s → validateSigned s = .ok ()) :
    (Container.ofParts base manifest archive signed).footerStart =
      base.length + manifest.length + archive.length + envelopeLen signed := by
  cases signed with
  | none =>
    simp [Container.footerStart, Container.body, Container.blocks, Container.envelope, Container.ofParts, joined,
      envelopeLen, Nat.add_assoc]
  | some s =>
    obtain ⟨h0, h1, h2, h3⟩ := lengths_of_validateSigned (h s rfl)
    simp [Container.footerStart, Container.body, Container.blocks, Container.envelope, Container.ofParts, joined,
      envelopeLen, h0, h1, h2, h3, ED25519_SIGNATURE_LEN, ML_DSA_87_SIGNATURE_LEN, KEY_ID_HEX_LEN, Nat.add_assoc]

theorem archiveOffset_ofParts : (Container.ofParts base manifest archive signed).footer.archiveOffset =
    UInt64.ofNat (base.length + manifest.length) := rfl

theorem archiveLen_ofParts : (Container.ofParts base manifest archive signed).footer.archiveLen =
    UInt64.ofNat archive.length := rfl

/-- The footer computed for a tail is the footer of the container it completes. -/
theorem tailFooter_ofParts (h : ∀ s, signed = some s → validateSigned s = .ok ())
    (hfits : base.length + manifest.length + archive.length + envelopeLen signed + FOOTER_SIZE < 2 ^ 64) :
    tailFooter (.ofNat base.length) (.ofNat manifest.length) (.ofNat archive.length) signed =
      .ok (Container.ofParts base manifest archive signed).footer := by
  have hsize : FOOTER_SIZE = 105 := rfl
  have hnat {n : Nat} (hn : n < 2 ^ 64) : (UInt64.ofNat n).toNat = n := Checked.toNat_ofNat hn
  have hadd {a b : Nat} (hab : a + b < 2 ^ 64) : tailAdd (.ofNat a) (.ofNat b) = .ok (.ofNat (a + b)) := by
    apply tailAdd_ok
    rw [hnat (by omega), hnat (by omega), hnat hab]
  cases signed with
  | none =>
    simp only [envelopeLen, Option.isSome_none, Bool.false_eq_true, if_false, Nat.add_zero] at hfits
    simp (disch := omega) only [tailFooter, bind, Except.bind, Option.isSome_none, Bool.false_eq_true, if_false, hadd]
    rfl
  | some s =>
    obtain ⟨h0, h1, h2, h3⟩ := lengths_of_validateSigned (h s rfl)
    simp only [envelopeLen, Option.isSome_some, if_true, ED25519_SIGNATURE_LEN, ML_DSA_87_SIGNATURE_LEN,
      KEY_ID_HEX_LEN] at hfits
    simp (disch := omega) only [tailFooter, bind, Except.bind, h s rfl, Option.isSome_some, if_true,
      ED25519_SIGNATURE_LEN, ML_DSA_87_SIGNATURE_LEN, KEY_ID_HEX_LEN, hadd]
    simp only [Container.footer, Container.blocks, Container.envelope, Container.ofParts, place, Option.map_some,
      h0, h1, h2, h3]
    rfl

/-- The tail's blocks are the envelope of the container it completes. -/
theorem bytes_ofParts (base manifest archive : Bytes) (signed : Option Signed) :
    (Container.ofParts base manifest archive signed).bytes = base ++ manifest ++ archive ++
      ((signed.map Signed.blocks).getD [] ++ [(Container.ofParts base manifest archive signed).footer.encode]).flatten := by
  rw [Container.bytes, Container.body]
  cases signed <;>
    simp [Container.blocks, Container.envelope, Container.ofParts, joined, Signed.blocks]

theorem Out.writeEach_ofBytes (written : Bytes) (runs : List Bytes) :
    (Out.ofBytes written).writeEach runs = (.ok (), .ofBytes (written ++ runs.flatten)) := by
  induction runs generalizing written with
  | nil => simp [writeEach]
  | cons bs runs ih =>
    rw [writeEach]
    show (Out.ofBytes (written ++ bs)).writeEach runs = _
    rw [ih, List.flatten_cons, List.append_assoc]

/-- The tail completes the container of its parts. -/
theorem writeStandaloneTail_ofParts (h : ∀ s, signed = some s → validateSigned s = .ok ())
    (hfits : base.length + manifest.length + archive.length + envelopeLen signed + FOOTER_SIZE < 2 ^ 64) :
    writeStandaloneTail (.ofBytes (base ++ manifest ++ archive)) (.ofNat base.length) (.ofNat manifest.length)
        (.ofNat archive.length) signed =
      (.ok (), .ofBytes (Container.ofParts base manifest archive signed).bytes) := by
  rw [writeStandaloneTail, tailFooter_ofParts h hfits, bytes_ofParts]
  simp only [Out.writeEach_ofBytes, liftIo, Except.mapError]

/-- No window of the footer spells a version-1 footer: a `key_id` block is 64 bytes. -/
theorem not_v1_ofParts (h : ∀ s, signed = some s → validateSigned s = .ok ()) :
    ¬SpellsFooter 1 (Container.ofParts base manifest archive signed).footer.keyIdOffset
      (Container.ofParts base manifest archive signed).footer.keyIdLen := by
  rintro ⟨-, hlen⟩
  cases signed with
  | none =>
    have hfield : (Container.ofParts base manifest archive none).footer.keyIdLen = 0 := rfl
    rw [hfield] at hlen
    exact absurd hlen (by decide)
  | some s =>
    have hfield : (Container.ofParts base manifest archive (some s)).footer.keyIdLen =
        UInt64.ofNat (asBytes s.ed25519.keyId).length := rfl
    rw [hfield, (lengths_of_validateSigned (h s rfl)).2.1] at hlen
    exact absurd hlen (by decide)

/-- The archive pair spells a version-2 footer at one archive length and in one range of offsets. -/
theorem spells_v2_ofParts (hfits : base.length + manifest.length + archive.length < 2 ^ 64) :
    SpellsFooter 2 (Container.ofParts base manifest archive signed).footer.archiveOffset
        (Container.ofParts base manifest archive signed).footer.archiveLen ↔
      (base.length + manifest.length) / 2 ^ 56 = 0x42 ∧ archive.length = 0x02444C5950524C54 := by
  have hspelled : ofLE64 (MAGIC.tail ++ [2]) = UInt64.ofNat 0x02444C5950524C54 := by decide
  rw [SpellsFooter, archiveOffset_ofParts, archiveLen_ofParts, Checked.toNat_ofNat (by omega), hspelled,
    ← UInt64.toNat_inj, Checked.toNat_ofNat (by omega), Checked.toNat_ofNat (by omega)]

/-- The container of the parts is sound but for two accidents: a signed one of three empty parts, whose first
envelope block starts at offset zero, and an archive pair that spells a version-2 footer. -/
theorem sound_ofParts (h : ∀ s, signed = some s → validateSigned s = .ok ())
    (hfits : base.length + manifest.length + archive.length + envelopeLen signed + FOOTER_SIZE < 2 ^ 64)
    (hplaced : signed.isSome → 0 < base.length + manifest.length + archive.length)
    (hspell : ¬((base.length + manifest.length) / 2 ^ 56 = 0x42 ∧ archive.length = 0x02444C5950524C54)) :
    (Container.ofParts base manifest archive signed).Sound := by
  refine ⟨?_, ?_, ?_, not_v1_ofParts h, mt (spells_v2_ofParts (by omega)).mp hspell⟩
  · rw [footerStart_ofParts h]
    omega
  · intro b hb
    cases signed with
    | none => simp [Container.envelope, Container.ofParts] at hb
    | some s =>
      obtain ⟨h0, h1, h2, h3⟩ := lengths_of_validateSigned (h s rfl)
      rw [← List.length_pos_iff]
      simp only [Container.envelope, Container.ofParts, Option.map_some, List.mem_cons, Option.some.injEq,
        List.not_mem_nil, or_false] at hb
      rcases hb with rfl | rfl | rfl | rfl <;> omega
  · rintro ⟨b, hb⟩
    refine hplaced ?_
    cases signed with
    | none => simp [Container.envelope, Container.ofParts] at hb
    | some s => rfl

end OfParts

/-- A tail write that is refused, rather than failing in the sink, writes nothing. -/
theorem writeStandaloneTail_refused {out : Out} {manifestOffset manifestLen archiveLen : UInt64}
    {signed : Option Signed} {e : PayloadError}
    (h : (writeStandaloneTail out manifestOffset manifestLen archiveLen signed).1 = .error e)
    (hio : ∀ error, e ≠ .io error) :
    (writeStandaloneTail out manifestOffset manifestLen archiveLen signed).2 = out := by
  unfold writeStandaloneTail at h ⊢
  split at h
  · rfl
  · next footer hfooter =>
    dsimp only [liftIo] at h
    cases hwrite : (out.writeEach ((signed.map Signed.blocks).getD [] ++ [footer.encode])).1 with
    | ok => rw [hwrite] at h; cases h
    | error io =>
      rw [hwrite] at h
      cases h
      exact absurd rfl (hio io)

/-- What is written reads back, and a refusal writes nothing. The two exclusions are the signed container of
three empty parts and the archive pair that spells a version-2 footer. -/
theorem writeStandaloneTail_reads_back :
    (∀ (base manifest archive : Bytes) (signed : Option Signed),
      (∀ s, signed = some s → validateSigned s = .ok ()) →
      base.length + manifest.length + archive.length + envelopeLen signed + FOOTER_SIZE < 2 ^ 64 →
      (signed.isSome → 0 < base.length + manifest.length + archive.length) →
      ¬((base.length + manifest.length) / 2 ^ 56 = 0x42 ∧ archive.length = 0x02444C5950524C54) →
      ∃ file footer footerStart container,
        writeStandaloneTail (.ofBytes (base ++ manifest ++ archive)) (.ofNat base.length) (.ofNat manifest.length)
          (.ofNat archive.length) signed = (.ok (), .ofBytes file) ∧
        base ++ manifest ++ archive <+: file ∧
        locateFooter (.ofBytes file) file.length = .ok (.found footer footerStart) ∧
        validateFooter footer footerStart = .ok () ∧
        readPackageContainer (.ofBytes file) ENVELOPE_BOUNDS = .ok container ∧
        container.manifestBytes = manifest ∧
        container.archiveOffset.toNat = base.length + manifest.length ∧
        container.archiveLen.toNat = archive.length ∧
        slice file container.archiveOffset.toNat container.archiveLen.toNat = archive ∧
        container.signature = signed.elim .absent (.present ·.ed25519.signature) ∧
        container.keyId = signed.elim .absent (.present <| asBytes ·.ed25519.keyId) ∧
        container.mlDsa87Signature = signed.elim .absent (.present ·.mlDsa87.signature) ∧
        container.mlDsa87KeyId = signed.elim .absent (.present <| asBytes ·.mlDsa87.keyId) ∧
        readBaseExecutable (.ofBytes file) = .ok base) ∧
    ∀ (out : Out) (manifestOffset manifestLen archiveLen : UInt64) (signed : Option Signed) (e : PayloadError),
      (writeStandaloneTail out manifestOffset manifestLen archiveLen signed).1 = .error e →
      (∀ error, e ≠ .io error) →
      (writeStandaloneTail out manifestOffset manifestLen archiveLen signed).2 = out := by
  refine ⟨fun base manifest archive signed h hfits hplaced hspell => ?_,
    fun _ _ _ _ _ _ => writeStandaloneTail_refused⟩
  have hsound := sound_ofParts h hfits hplaced hspell
  have hlocate := Container.locateFooter_bytes hsound
  have hread := Container.readPackageContainer_bytes hsound ENVELOPE_BOUNDS
  have hoffset : (Container.ofParts base manifest archive signed).footer.archiveOffset.toNat =
      base.length + manifest.length := by rw [archiveOffset_ofParts, Checked.toNat_ofNat (by omega)]
  have hlen : (Container.ofParts base manifest archive signed).footer.archiveLen.toNat = archive.length := by
    rw [archiveLen_ofParts, Checked.toNat_ofNat (by omega)]
  refine ⟨_, _, _, _, writeStandaloneTail_ofParts h hfits, ?_, hlocate, Container.validateFooter_footer hsound, hread,
    rfl, hoffset, hlen, ?_, ?_, ?_, ?_, ?_, Container.readBaseExecutable_bytes hsound⟩
  · rw [bytes_ofParts]
    exact List.prefix_append _ _
  · show slice _ (Container.ofParts base manifest archive signed).footer.archiveOffset.toNat
      (Container.ofParts base manifest archive signed).footer.archiveLen.toNat = archive
    rw [hoffset, hlen, bytes_ofParts, ← List.length_append]
    exact slice_middle (base ++ manifest) archive _
  all_goals
    cases signed with
    | none => rfl
    | some s =>
      obtain ⟨h0, h1, h2, h3⟩ := lengths_of_validateSigned (h s rfl)
      first
      | exact if_pos h0
      | exact if_pos h1
      | exact if_pos h2
      | exact if_pos h3

/-- Two signatures of zero bytes under the all-zero `key_id`. -/
def zeroSigned : Signed where
  ed25519 := ⟨List.replicate 64 0, "0000000000000000000000000000000000000000000000000000000000000000"⟩
  mlDsa87 := ⟨List.replicate 4627 0, "0000000000000000000000000000000000000000000000000000000000000000"⟩

theorem validateSigned_zeroSigned : validateSigned zeroSigned = .ok () := by
  have hkey : byteLen "0000000000000000000000000000000000000000000000000000000000000000" = KEY_ID_HEX_LEN := by
    decide
  have hhex : isLowerHex "0000000000000000000000000000000000000000000000000000000000000000" = true := by
    decide
  simp only [validateSigned, validateDetached, zeroSigned, List.length_replicate, signatureLen, hkey, hhex,
    ED25519_SIGNATURE_LEN, ML_DSA_87_SIGNATURE_LEN, ne_eq, not_true_eq_false, if_false, bind, Except.bind,
    Bool.not_true, Bool.false_eq_true]

theorem writeStandaloneTail_reads_back_signed :
    ∃ file, writeStandaloneTail (.ofBytes ([0x7F] ++ [0x7B, 0x7D] ++ [])) 1 2 0 (some zeroSigned) =
        (.ok (), .ofBytes file) ∧
      readBaseExecutable (.ofBytes file) = .ok [0x7F] ∧
      (writeStandaloneTail (.ofBytes []) 0xFFFFFFFFFFFFFFFF 1 0 none).2 = .ofBytes [] := by
  obtain ⟨file, _, _, _, hwrite, -, -, -, -, -, -, -, -, -, -, -, -, hbase⟩ :=
    writeStandaloneTail_reads_back.1 [0x7F] [0x7B, 0x7D] [] (some zeroSigned)
      (fun s hs => Option.some.inj hs ▸ validateSigned_zeroSigned)
      (by show 1 + 2 + 0 + 4819 + 105 < 2 ^ 64; omega) (fun _ => by decide) (by decide)
  exact ⟨file, hwrite, hbase,
    writeStandaloneTail_reads_back.2 _ _ _ _ none tailOverflow (by rfl) (by rintro _ ⟨⟩)⟩

/-- A container of 4.7 exabytes whose archive pair spells a version-2 footer is written and then refused as a
version-2 container. -/
theorem writeStandaloneTail_hidden (base archive : Bytes) (hbase : base.length = 0x42 * 2 ^ 56)
    (harchive : archive.length = 0x02444C5950524C54) :
    ∃ file, writeStandaloneTail (.ofBytes (base ++ [] ++ archive)) (.ofNat (0x42 * 2 ^ 56)) 0
        (.ofNat 0x02444C5950524C54) none = (.ok (), .ofBytes file) ∧
      locateFooter (.ofBytes file) file.length =
        .error (.unsupportedContainerFormat 2 SUPPORTED_CONTAINER_VERSIONS) := by
  have hnone : ∀ s, (none : Option Signed) = some s → validateSigned s = .ok () := fun _ hs => nomatch hs
  have hfits : base.length + ([] : Bytes).length + archive.length + envelopeLen none + FOOTER_SIZE < 2 ^ 64 := by
    show base.length + 0 + archive.length + 0 + 105 < 2 ^ 64
    omega
  have hwrite := writeStandaloneTail_ofParts hnone hfits
  rw [hbase, harchive] at hwrite
  refine ⟨_, hwrite, locateFooter_encode_spells_v2 _ rfl (not_v1_ofParts hnone) ?_⟩
  rw [spells_v2_ofParts (by omega), hbase, harchive]
  exact ⟨by norm_num, rfl⟩

/-- Two accepted tails that do not read back: a signed container of three empty parts, and an unsigned one
whose archive pair spells a version-2 footer. -/
theorem writeStandaloneTail_not_read_back :
    validateSigned zeroSigned = .ok () ∧
    (∃ file footer footerStart,
      writeStandaloneTail (.ofBytes []) 0 0 0 (some zeroSigned) = (.ok (), .ofBytes file) ∧
      locateFooter (.ofBytes file) file.length = .ok (.found footer footerStart) ∧
      validateFooter footer footerStart =
        .error (.malformedFooter "Ed25519 signature pair is half-zero: neither present nor absent")) ∧
    ∃ file,
      writeStandaloneTail
          (.ofBytes (List.replicate (0x42 * 2 ^ 56) 0 ++ [] ++ List.replicate 0x02444C5950524C54 0))
          (.ofNat (0x42 * 2 ^ 56)) 0 (.ofNat 0x02444C5950524C54) none = (.ok (), .ofBytes file) ∧
      locateFooter (.ofBytes file) file.length =
        .error (.unsupportedContainerFormat 2 SUPPORTED_CONTAINER_VERSIONS) := by
  have hzero : ∀ s, some zeroSigned = some s → validateSigned s = .ok () :=
    fun s hs => Option.some.inj hs ▸ validateSigned_zeroSigned
  have hfits : ([] : Bytes).length + ([] : Bytes).length + ([] : Bytes).length + envelopeLen (some zeroSigned) +
      FOOTER_SIZE < 2 ^ 64 := by
    show 0 + 0 + 0 + 4819 + 105 < 2 ^ 64
    omega
  have hwrite := @writeStandaloneTail_ofParts [] [] [] (some zeroSigned) hzero hfits
  simp only [List.length_nil, List.append_nil, show UInt64.ofNat 0 = 0 from rfl] at hwrite
  refine ⟨validateSigned_zeroSigned, ⟨_, _, _, hwrite,
    Container.locateFooter_bytes_of_not_spells (not_v1_ofParts hzero) (mt (spells_v2_ofParts (by simp)).mp (by simp)),
    validateFooter_signature_at_zero _ rfl ?_⟩, ?_⟩
  · show UInt64.ofNat (List.replicate 64 (0 : UInt8)).length ≠ 0
    rw [List.length_replicate]
    decide
  · exact writeStandaloneTail_hidden _ _ List.length_replicate List.length_replicate

end DeployCore
