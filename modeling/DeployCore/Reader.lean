import DeployCore.Container
import DeployCore.Lib.Checks
import DeployCore.Limits

/-! # Container readers

The two package readers share one head reader, which locates the footer, validates it, runs a check of the
caller's on it and reads the manifest block; each envelope block is then read only at the one length its
bound states. `readPackageContainer_bytes` is what they return on the file of a sound container, and
`readPackageContainerBounded_eq` says how the bounded one differs from the other on any source. -/

namespace DeployCore
open LittleEndian Adjacent

/-- The one length at which each envelope block is read. -/
structure EnvelopeBounds where
  signatureLen : UInt64
  keyIdLen : UInt64
  mlDsa87SignatureLen : UInt64
  mlDsa87KeyIdLen : UInt64
  deriving DecidableEq

/-- One envelope block as a bounded read leaves it. -/
inductive EnvelopeBlock
  | absent
  | present (bytes : Bytes)
  | wrongLength
  deriving DecidableEq

def EnvelopeBlock.intoBytes : EnvelopeBlock → Option Bytes
  | .present bytes => some bytes
  | .absent | .wrongLength => none

/-- A located container's selected footer and unparsed manifest block. -/
structure ContainerHead where
  footer : Footer
  manifestBytes : Bytes

/-- A located container whose manifest block has been read but not parsed. -/
structure UnparsedContainer where
  footerVersion : UInt8
  manifestBytes : Bytes
  signature : EnvelopeBlock
  keyId : EnvelopeBlock
  mlDsa87Signature : EnvelopeBlock
  mlDsa87KeyId : EnvelopeBlock
  archiveOffset : UInt64
  archiveLen : UInt64
  deriving DecidableEq

/-- A source operation under the container layer's error. -/
def liftIo {α : Type} (r : Except IoError α) : Except PayloadError α :=
  r.mapError .io

/-- Locates a container and reads its manifest block, with `check` run on the validated footer in between.
`ofPayload` is the `From` conversion into the caller's error. -/
def readContainerHeadWith {ε : Type} (ofPayload : PayloadError → ε) (src : Source)
    (check : Footer → Except ε Unit) : Except ε (Option ContainerHead) := do
  let fileLen ← (liftIo src.len).mapError ofPayload
  match ← (locateFooter src fileLen).mapError ofPayload with
  | .noTrailer => .ok none
  | .found footer footerStart => do
    (validateFooter footer footerStart).mapError ofPayload
    check footer
    let manifestBytes ←
      (liftIo (src.readAt footer.manifestOffset.toNat footer.manifestLen.toNat)).mapError ofPayload
    .ok (some ⟨footer, manifestBytes⟩)

def readContainerHead (src : Source) : Except PayloadError (Option ContainerHead) :=
  readContainerHeadWith id src fun _ => .ok ()

/-- Reads one trailer block into memory, or reports it absent. -/
def readBlock (src : Source) (offset len : UInt64) : Except PayloadError (Option Bytes) :=
  if isAbsentPair offset len then .ok none
  else do
    let block ← liftIo (src.readAt offset.toNat len.toNat)
    .ok (some block)

/-- Reads one envelope block, but only at the length `bound`. -/
def readBoundedBlock (src : Source) (offset len bound : UInt64) : Except PayloadError EnvelopeBlock :=
  if isAbsentPair offset len then .ok .absent
  else if len ≠ bound then .ok .wrongLength
  else do
    match ← readBlock src offset len with
    | some bytes => .ok (.present bytes)
    | none => .ok .absent

/-- Reads the envelope blocks of a located container and assembles the unparsed container. -/
def finishPackageContainer (src : Source) (head : ContainerHead) (bounds : EnvelopeBounds) :
    Except PayloadError UnparsedContainer := do
  let footer := head.footer
  let signature ← readBoundedBlock src footer.signatureOffset footer.signatureLen bounds.signatureLen
  let keyId ← readBoundedBlock src footer.keyIdOffset footer.keyIdLen bounds.keyIdLen
  let mlDsa87Signature ← readBoundedBlock src footer.mlDsa87SignatureOffset footer.mlDsa87SignatureLen
    bounds.mlDsa87SignatureLen
  let mlDsa87KeyId ← readBoundedBlock src footer.mlDsa87KeyIdOffset footer.mlDsa87KeyIdLen
    bounds.mlDsa87KeyIdLen
  .ok {
    footerVersion := footer.version
    manifestBytes := head.manifestBytes
    signature, keyId, mlDsa87Signature, mlDsa87KeyId
    archiveOffset := footer.archiveOffset
    archiveLen := footer.archiveLen }

/-- Reads a package's container without parsing its manifest. -/
def readPackageContainer (src : Source) (bounds : EnvelopeBounds) : Except PayloadError UnparsedContainer := do
  match ← readContainerHead src with
  | none => .error .noTrailer
  | some head => finishPackageContainer src head bounds

/-- The ceilings a bounded read holds a footer's block lengths to. -/
structure ContainerBounds where
  maxManifestLen : UInt64
  maxArchiveLen : UInt64
  deriving DecidableEq

/-- Why a bounded read refused a container. -/
inductive BoundedContainerError
  | payload (error : PayloadError)
  | limitExceeded (resource : LimitResource) (limit : UInt64)
  | retainedIo (error : IoError)
  deriving DecidableEq

/-- `From<PayloadError>`: a retained-storage failure is recovered before anything else classifies it. -/
def BoundedContainerError.ofPayload : PayloadError → BoundedContainerError
  | .io error =>
    match error.recover with
    | some original => .retainedIo original
    | none => .payload (.io error)
  | other => .payload other

/-- The ceilings, as the check the bounded read makes of a validated footer. -/
def ContainerBounds.check (bounds : ContainerBounds) (footer : Footer) : Except BoundedContainerError Unit :=
  if footer.manifestLen > bounds.maxManifestLen then
    .error (.limitExceeded .rawManifest bounds.maxManifestLen)
  else if footer.archiveLen > bounds.maxArchiveLen then
    .error (.limitExceeded .compressedArchive bounds.maxArchiveLen)
  else .ok ()

/-- Reads a package's container, with the footer's manifest and archive lengths held to `bounds` first. -/
def readPackageContainerBounded (src : Source) (envelope : EnvelopeBounds) (bounds : ContainerBounds) :
    Except BoundedContainerError UnparsedContainer := do
  match ← readContainerHeadWith .ofPayload src bounds.check with
  | none => .error (.payload .noTrailer)
  | some head => (finishPackageContainer src head envelope).mapError .ofPayload

/-- Reads the payload-free base executable. -/
def readBaseExecutable (src : Source) : Except PayloadError Bytes := do
  let fileLen ← liftIo src.len
  let baseLen ← match ← locateFooter src fileLen with
    | .found footer footerStart =>
      if footer.manifestOffset.toNat > footerStart then .error .truncatedTrailer
      else .ok footer.manifestOffset.toNat
    | .noTrailer => .ok fileLen
  liftIo (src.readAt 0 baseLen)

/-! ### What the head reader does -/

/-- The validated footer of a source, before any block is read. -/
def locatedFooter (src : Source) : Except PayloadError (Option Footer) := do
  let fileLen ← liftIo src.len
  match ← locateFooter src fileLen with
  | .noTrailer => .ok none
  | .found footer footerStart => do
    validateFooter footer footerStart
    .ok (some footer)

section
variable {src : Source}

theorem locatedFooter_eq_some {footer : Footer} : locatedFooter src = .ok (some footer) ↔
    ∃ fileLen footerStart, src.len = .ok fileLen ∧ locateFooter src fileLen = .ok (.found footer footerStart) ∧
      validateFooter footer footerStart = .ok () := by
  unfold locatedFooter
  constructor
  · intro h
    obtain ⟨fileLen, hlen, h⟩ := Checks.bind_ok h
    obtain ⟨location, hlocation, h⟩ := Checks.bind_ok h
    cases location with
    | noTrailer => cases h
    | found f footerStart =>
      obtain ⟨_, hvalid, h⟩ := Checks.bind_ok h
      cases h
      exact ⟨fileLen, footerStart, Checks.mapError_ok.mp hlen, hlocation, hvalid⟩
  · rintro ⟨fileLen, footerStart, hlen, hlocation, hvalid⟩
    simp only [liftIo, hlen, Except.mapError, bind, Except.bind, hlocation, hvalid]

/-- The manifest block a footer describes, as a head. -/
def readHead (src : Source) (footer : Footer) : Except PayloadError ContainerHead :=
  (liftIo (src.readAt footer.manifestOffset.toNat footer.manifestLen.toNat)).map fun manifestBytes => ⟨footer, manifestBytes⟩

theorem readContainerHeadWith_eq {ε : Type} (ofPayload : PayloadError → ε) (check : Footer → Except ε Unit) :
    readContainerHeadWith ofPayload src check =
      match locatedFooter src with
      | .error e => .error (ofPayload e)
      | .ok none => .ok none
      | .ok (some footer) => (check footer).bind fun _ => ((readHead src footer).mapError ofPayload).map some := by
  unfold readContainerHeadWith locatedFooter
  cases hlen : liftIo src.len with
  | error e => rfl
  | ok fileLen =>
    show (((locateFooter src fileLen).mapError ofPayload).bind _) = _
    simp only [bind, Except.bind]
    cases locateFooter src fileLen with
    | error e => rfl
    | ok location =>
      cases location with
      | noTrailer => rfl
      | found footer footerStart =>
        simp only [Except.mapError]
        cases validateFooter footer footerStart with
        | error e => rfl
        | ok =>
          simp only [readHead]
          cases check footer with
          | error e => rfl
          | ok => cases liftIo (src.readAt footer.manifestOffset.toNat footer.manifestLen.toNat) <;> rfl

theorem readPackageContainer_eq (envelope : EnvelopeBounds) :
    readPackageContainer src envelope =
      match locatedFooter src with
      | .error e => .error e
      | .ok none => .error .noTrailer
      | .ok (some footer) => (readHead src footer).bind fun head => finishPackageContainer src head envelope := by
  rw [readPackageContainer, readContainerHead, readContainerHeadWith_eq]
  cases locatedFooter src with
  | error e => rfl
  | ok location =>
    cases location with
    | none => rfl
    | some footer =>
      show ((((readHead src footer).mapError id).map some).bind _) = (readHead src footer).bind _
      cases readHead src footer <;> rfl

/-- The bounded reader holds the validated footer to the bounds, and is the other reader besides. -/
theorem readPackageContainerBounded_eq (envelope : EnvelopeBounds) (bounds : ContainerBounds) :
    readPackageContainerBounded src envelope bounds =
      match locatedFooter src with
      | .ok (some footer) =>
        (bounds.check footer).bind fun _ => (readPackageContainer src envelope).mapError .ofPayload
      | _ => (readPackageContainer src envelope).mapError .ofPayload := by
  rw [readPackageContainerBounded, readContainerHeadWith_eq, readPackageContainer_eq]
  cases locatedFooter src with
  | error e => rfl
  | ok location =>
    cases location with
    | none => rfl
    | some footer =>
      dsimp only
      cases bounds.check footer with
      | error e => rfl
      | ok => cases readHead src footer <;> rfl

end

/-! ### Reading a sound container's file -/

/-- A block as a read bounded to `bound` leaves it. -/
def EnvelopeBlock.ofBlock (bound : UInt64) : Option Bytes → EnvelopeBlock
  | none => .absent
  | some b => if b.length = bound.toNat then .present b else .wrongLength

theorem readBoundedBlock_ofBytes {file : Bytes} {offset len bound : UInt64}
    (h : ∀ p, wirePair offset len = some p → p.1 + p.2 ≤ file.length) :
    readBoundedBlock (.ofBytes file) offset len bound =
      .ok (.ofBlock bound ((wirePair offset len).map fun p => slice file p.1 p.2)) := by
  unfold readBoundedBlock wirePair
  split
  · rfl
  next habsent =>
  have hle : offset.toNat + len.toNat ≤ file.length := h _ (by rw [wirePair, if_neg habsent])
  simp only [Option.map_some, EnvelopeBlock.ofBlock, length_slice file hle, UInt64.toNat_inj]
  split
  · rfl
  · next heq =>
    rw [ne_eq, not_not] at heq
    rw [if_pos heq, readBlock, if_neg habsent, Source.readAt_ofBytes hle]
    rfl

namespace Container
variable {c : Container}

theorem readContainerHead_bytes (h : c.Sound) :
    readContainerHead (.ofBytes c.bytes) = .ok (some ⟨c.footer, c.manifest⟩) := by
  have hchain := (laidOut_footer h).chain
  have hblocks := extract_bytes h
  have hmanifest : slice c.bytes c.footer.manifestOffset.toNat c.footer.manifestLen.toNat = c.manifest :=
    Option.some.inj (List.cons.inj hblocks).1
  have hmem : some (c.footer.manifestOffset.toNat, c.footer.manifestLen.toNat) ∈ c.footer.pairs :=
    List.mem_cons_self
  have hle : c.footer.manifestOffset.toNat + c.footer.manifestLen.toNat ≤ c.bytes.length := by
    have hstop := (hchain.mem_le hmem).2
    have hlen := c.length_bytes
    omega
  rw [readContainerHead, readContainerHeadWith, Source.len_ofBytes]
  simp only [liftIo, Except.mapError, bind, Except.bind, locateFooter_bytes h, validateFooter_footer h,
    Source.readAt_ofBytes hle, hmanifest]

/-- What a bounded read finds of a sound container. -/
def unparsed (c : Container) (bounds : EnvelopeBounds) : UnparsedContainer where
  footerVersion := FORMAT_VERSION
  manifestBytes := c.manifest
  signature := .ofBlock bounds.signatureLen c.signature
  keyId := .ofBlock bounds.keyIdLen c.keyId
  mlDsa87Signature := .ofBlock bounds.mlDsa87SignatureLen c.mlDsa87Signature
  mlDsa87KeyId := .ofBlock bounds.mlDsa87KeyIdLen c.mlDsa87KeyId
  archiveOffset := c.footer.archiveOffset
  archiveLen := c.footer.archiveLen

theorem readPackageContainer_bytes (h : c.Sound) (bounds : EnvelopeBounds) :
    readPackageContainer (.ofBytes c.bytes) bounds = .ok (c.unparsed bounds) := by
  have hchain := (laidOut_footer h).chain
  have hlen := c.length_bytes
  have hread (offset len bound : UInt64) (hmem : wirePair offset len ∈ c.footer.pairs) :
      readBoundedBlock (.ofBytes c.bytes) offset len bound =
        .ok (.ofBlock bound ((wirePair offset len).map fun p => slice c.bytes p.1 p.2)) := by
    refine readBoundedBlock_ofBytes fun p hp => ?_
    rw [hp] at hmem
    have := hchain.mem_le hmem
    omega
  have hblocks := extract_bytes h
  simp only [extract, Footer.pairs, blocks, envelope, List.map_cons, List.map_nil, List.cons.injEq, and_true] at hblocks
  obtain ⟨-, -, h0, h1, h2, h3⟩ := hblocks
  rw [readPackageContainer, readContainerHead_bytes h]
  simp only [bind, Except.bind, finishPackageContainer]
  rw [hread _ _ _ (by simp [Footer.pairs]), h0]
  simp only
  rw [hread _ _ _ (by simp [Footer.pairs]), h1]
  simp only
  rw [hread _ _ _ (by simp [Footer.pairs]), h2]
  simp only
  rw [hread _ _ _ (by simp [Footer.pairs]), h3]
  rfl

theorem readBaseExecutable_bytes (h : c.Sound) : readBaseExecutable (.ofBytes c.bytes) = .ok c.base := by
  have hfits := h.fits
  have hlen := c.length_bytes
  rw [footerStart] at hfits hlen
  have hoffset : c.footer.manifestOffset.toNat = c.base.length := Checked.toNat_ofNat (by omega)
  have hle : 0 + c.base.length ≤ c.bytes.length := by omega
  have hslice : slice c.bytes 0 c.base.length = c.base := by simp [slice, bytes]
  rw [readBaseExecutable, Source.len_ofBytes]
  simp only [liftIo, Except.mapError, bind, Except.bind, locateFooter_bytes h]
  rw [if_neg (by rw [hoffset, footerStart]; omega), hoffset]
  simp only [Source.readAt_ofBytes hle, hslice]

end Container

/-- A file whose container is read is the file of a sound container. -/
theorem exists_of_readPackageContainer {file : Bytes} {bounds : EnvelopeBounds} {container : UnparsedContainer}
    (h : readPackageContainer (.ofBytes file) bounds = .ok container) :
    ∃ c : Container, c.Sound ∧ c.bytes = file ∧ container = c.unparsed bounds := by
  have heq := h
  rw [readPackageContainer_eq] at heq
  split at heq
  · cases heq
  · cases heq
  next footer hfooter =>
  obtain ⟨fileLen, footerStart, hlen, hlocation, hvalid⟩ := locatedFooter_eq_some.mp hfooter
  obtain rfl := Except.ok.inj hlen
  obtain ⟨c, hsound, rfl, -, -⟩ := exists_of_located hlocation hvalid
  rw [Container.readPackageContainer_bytes hsound] at h
  exact ⟨c, hsound, rfl, (Except.ok.inj h).symm⟩

end DeployCore
