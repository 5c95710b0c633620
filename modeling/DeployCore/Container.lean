import DeployCore.FooterProbe
import DeployCore.Layout

/-! # Containers

`Container` is what a version-3 file holds, without its offsets: a base, the manifest and archive blocks and
four envelope blocks that may be missing. `Container.bytes` is its file. The footer code refines this view in
both directions: the file of a `Sound` container is located and validated as that container's footer
(`locateFooter_bytes`, `validateFooter_footer`), and every file that is located and validated is the file of
one sound container (`exists_of_located`). -/

namespace DeployCore
open LittleEndian Adjacent

/-- What a version-3 container holds. -/
structure Container where
  base : Bytes
  manifest : Bytes
  archive : Bytes
  signature : Option Bytes
  keyId : Option Bytes
  mlDsa87Signature : Option Bytes
  mlDsa87KeyId : Option Bytes
  deriving DecidableEq

/-- The two fields that encode a block's description. -/
def wireOf : Option (Nat × Nat) → UInt64 × UInt64
  | none => (0, 0)
  | some (offset, len) => (UInt64.ofNat offset, UInt64.ofNat len)

/-- The version-3 footer that describes six blocks. -/
def Footer.ofPairs (pairs : List (Option (Nat × Nat))) : Footer :=
  let field (i : Nat) := wireOf (pairs[i]?.join)
  fromFields FORMAT_VERSION
    #v[(field 0).1, (field 0).2, (field 1).1, (field 1).2, (field 2).1, (field 2).2, (field 3).1, (field 3).2,
      (field 4).1, (field 4).2, (field 5).1, (field 5).2]

namespace Container

/-- The blocks that may be missing, in the fixed order. -/
def envelope (c : Container) : List (Option Bytes) :=
  [c.signature, c.keyId, c.mlDsa87Signature, c.mlDsa87KeyId]

/-- The blocks in the fixed order. -/
def blocks (c : Container) : List (Option Bytes) :=
  some c.manifest :: some c.archive :: c.envelope

/-- The trailer body: everything between the base and the footer. -/
def body (c : Container) : Bytes :=
  joined c.blocks

/-- Where the footer starts. -/
def footerStart (c : Container) : Nat :=
  c.base.length + c.body.length

def footer (c : Container) : Footer :=
  Footer.ofPairs (place c.base.length c.blocks)

/-- The container's file. -/
def bytes (c : Container) : Bytes :=
  c.base ++ c.body ++ c.footer.encode

/-- The containers whose files are read back: positions fit the fields, a present envelope block is not
described by a zero offset or length, and no smaller window of the footer spells a retired one. -/
structure Sound (c : Container) : Prop where
  fits : c.footerStart < 2 ^ 64
  nonempty : ∀ b, some b ∈ c.envelope → b ≠ []
  placed : (∃ b, some b ∈ c.envelope) → 0 < c.base.length + c.manifest.length + c.archive.length
  not_v1 : ¬SpellsFooter 1 c.footer.keyIdOffset c.footer.keyIdLen
  not_v2 : ¬SpellsFooter 2 c.footer.archiveOffset c.footer.archiveLen

end Container

/-! ### Descriptions and their wire form -/

theorem wireOf_wirePair (offset len : UInt64) : wireOf (wirePair offset len) = (offset, len) := by
  unfold wirePair
  split
  · next h =>
    obtain ⟨rfl, rfl⟩ := isAbsentPair_iff.mp h
    rfl
  · simp [wireOf]

theorem wirePair_wireOf {offset len : Nat} (ho : offset < 2 ^ 64) (hl : len < 2 ^ 64) (hpos : 0 < len) :
    wirePair (UInt64.ofNat offset) (UInt64.ofNat len) = some (offset, len) := by
  have hlen : UInt64.ofNat len ≠ 0 := by
    rw [ne_eq, ← UInt64.toNat_inj, Checked.toNat_ofNat hl]
    exact hpos.ne'
  rw [wirePair, if_neg (by simp [isAbsentPair_iff, hlen]), Checked.toNat_ofNat ho, Checked.toNat_ofNat hl]

theorem Footer.ofPairs_pairs {f : Footer} (hv : f.version = FORMAT_VERSION) : ofPairs f.pairs = f := by
  obtain ⟨version, _, _, _, _, _, _, _, _, _, _, _, _⟩ := f
  obtain rfl : version = FORMAT_VERSION := hv
  simp [ofPairs, pairs, fromFields, wireOf_wirePair]
  simp [wireOf]

namespace Container
variable {c : Container}

theorem length_bytes (c : Container) : c.bytes.length = c.footerStart + FOOTER_SIZE_V3 := by
  rw [bytes, List.length_append, List.length_append, length_encode_v3 rfl]
  rfl

/-- Where a present envelope block is described. -/
theorem mem_place_envelope (h : c.Sound) {offset len : Nat}
    (hp : some (offset, len) ∈ place (c.base.length + c.manifest.length + c.archive.length) c.envelope) :
    0 < offset ∧ 0 < len ∧ offset < 2 ^ 64 ∧ len < 2 ^ 64 := by
  obtain ⟨b, hb, rfl, hstart, hstop⟩ := mem_place hp
  have hlen := List.length_pos_iff.mpr (h.nonempty b hb)
  have hpos := h.placed ⟨b, hb⟩
  have hfits := h.fits
  have hbody : c.body.length = c.manifest.length + (c.archive.length + (joined c.envelope).length) := by
    simp [body, blocks, joined]
  rw [footerStart, hbody] at hfits
  omega

/-- A sound container's footer describes its blocks where they are. -/
theorem pairs_footer (h : c.Sound) : c.footer.pairs = place c.base.length c.blocks := by
  have hfits := h.fits
  have hbody : c.body.length = c.manifest.length + (c.archive.length + (joined c.envelope).length) := by
    simp [body, blocks, joined]
  rw [footerStart, hbody] at hfits
  have henv := @mem_place_envelope c h
  have hplace : place c.base.length c.blocks = some (c.base.length, c.manifest.length) ::
      some (c.base.length + c.manifest.length, c.archive.length) ::
        place (c.base.length + c.manifest.length + c.archive.length) c.envelope := rfl
  have hlen : (place (c.base.length + c.manifest.length + c.archive.length) c.envelope).length = 4 :=
    length_place _ _
  rw [footer, hplace]
  obtain ⟨p₀, p₁, p₂, p₃, hps⟩ := List.length_eq_four.mp hlen
  rw [hps] at henv ⊢
  have hwire (p : Option (Nat × Nat)) (hp : p ∈ [p₀, p₁, p₂, p₃]) :
      wirePair (wireOf p).1 (wireOf p).2 = p := by
    rcases p with _ | ⟨offset, len⟩
    · rfl
    · obtain ⟨-, hl, ho, hl'⟩ := henv hp
      exact wirePair_wireOf ho hl' hl
  have h0 := hwire p₀ (by simp)
  have h1 := hwire p₁ (by simp)
  have h2 := hwire p₂ (by simp)
  have h3 := hwire p₃ (by simp)
  show [some (_, _), some (_, _), wirePair (wireOf p₀).1 (wireOf p₀).2, wirePair (wireOf p₁).1 (wireOf p₁).2,
    wirePair (wireOf p₂).1 (wireOf p₂).2, wirePair (wireOf p₃).1 (wireOf p₃).2] = _
  rw [h0, h1, h2, h3]
  simp [Footer.ofPairs, Footer.fromFields, wireOf]
  omega

/-- A sound container's footer is valid. -/
theorem laidOut_footer (h : c.Sound) : c.footer.LaidOut c.footerStart := by
  have hpairs := pairs_footer h
  refine ⟨h.fits, ?_, ?_⟩
  · have henv := @mem_place_envelope c h
    -- the envelope pairs of the footer are the wire form of the placed envelope
    have hwhole (p : Option (Nat × Nat))
        (hp : p ∈ place (c.base.length + c.manifest.length + c.archive.length) c.envelope) :
        (wireOf p).1 = 0 ↔ (wireOf p).2 = 0 := by
      rcases p with _ | ⟨offset, len⟩
      · simp [wireOf]
      · obtain ⟨ho, hl, ho', hl'⟩ := henv hp
        simp only [wireOf, ← UInt64.toNat_inj, Checked.toNat_ofNat ho', Checked.toNat_ofNat hl', UInt64.toNat_zero]
        omega
    have hlen : (place (c.base.length + c.manifest.length + c.archive.length) c.envelope).length = 4 :=
      length_place _ _
    have hfooter : c.footer = Footer.ofPairs (some (c.base.length, c.manifest.length) ::
      some (c.base.length + c.manifest.length, c.archive.length) ::
        place (c.base.length + c.manifest.length + c.archive.length) c.envelope) := rfl
    rw [hfooter]
    match hps : place (c.base.length + c.manifest.length + c.archive.length) c.envelope, hlen with
    | [p₀, p₁, p₂, p₃], _ =>
      rw [hps] at hwhole
      intro p hp
      simp only [Footer.envelopePairs, List.mem_cons, List.not_mem_nil, or_false] at hp
      rcases hp with rfl | rfl | rfl | rfl
      exacts [hwhole p₀ (by simp), hwhole p₁ (by simp), hwhole p₂ (by simp), hwhole p₃ (by simp)]
  · have hm : c.footer.manifestOffset.toNat = c.base.length := by
      have hfits := h.fits
      rw [footerStart] at hfits
      exact Checked.toNat_ofNat (by omega)
    rw [hm, hpairs]
    exact chain_place _ _

theorem validateFooter_footer (h : c.Sound) : validateFooter c.footer c.footerStart = .ok () :=
  validateFooter_ok_iff.mpr (laidOut_footer h)

theorem locateFooter_bytes_of_not_spells (h1 : ¬SpellsFooter 1 c.footer.keyIdOffset c.footer.keyIdLen)
    (h2 : ¬SpellsFooter 2 c.footer.archiveOffset c.footer.archiveLen) :
    locateFooter (.ofBytes c.bytes) c.bytes.length = .ok (.found c.footer c.footerStart) := by
  have hlocated := locateFooter_encode (c.base ++ c.body) rfl h1 h2
  have hstart : (c.base ++ c.body).length = c.footerStart := List.length_append
  rwa [hstart] at hlocated

theorem locateFooter_bytes (h : c.Sound) :
    locateFooter (.ofBytes c.bytes) c.bytes.length = .ok (.found c.footer c.footerStart) :=
  locateFooter_bytes_of_not_spells h.not_v1 h.not_v2

/-- The blocks a sound container's footer describes are the container's. -/
theorem extract_bytes (h : c.Sound) : extract c.bytes c.footer.pairs = c.blocks := by
  rw [pairs_footer h]
  exact extract_place c.base c.footer.encode c.blocks

end Container

/-! ### Every readable file is a container's -/

/-- The container a footer describes in a file. -/
def Container.ofFile (file : Bytes) (f : Footer) : Container where
  base := file.take f.manifestOffset.toNat
  manifest := slice file f.manifestOffset.toNat f.manifestLen.toNat
  archive := slice file f.archiveOffset.toNat f.archiveLen.toNat
  signature := (wirePair f.signatureOffset f.signatureLen).map fun p => slice file p.1 p.2
  keyId := (wirePair f.keyIdOffset f.keyIdLen).map fun p => slice file p.1 p.2
  mlDsa87Signature := (wirePair f.mlDsa87SignatureOffset f.mlDsa87SignatureLen).map fun p => slice file p.1 p.2
  mlDsa87KeyId := (wirePair f.mlDsa87KeyIdOffset f.mlDsa87KeyIdLen).map fun p => slice file p.1 p.2

theorem Container.blocks_ofFile (file : Bytes) (f : Footer) :
    (Container.ofFile file f).blocks = extract file f.pairs := rfl

/-- A present envelope block is described by a non-zero offset and length. -/
theorem Footer.LaidOut.envelope_pos {f : Footer} {footerStart offset len : Nat} (h : f.LaidOut footerStart)
    (hp : some (offset, len) ∈ f.pairs.drop 2) : 0 < offset ∧ 0 < len := by
  have hpairs : f.pairs.drop 2 = f.envelopePairs.map fun q => wirePair q.1 q.2.1 := rfl
  rw [hpairs] at hp
  obtain ⟨q, hq, hwire⟩ := List.mem_map.mp hp
  have hwhole := h.whole q hq
  unfold wirePair at hwire
  split at hwire
  · cases hwire
  · next habsent =>
    cases hwire
    rw [isAbsentPair_iff] at habsent
    have hzero (x : UInt64) : x.toNat = 0 ↔ x = 0 := by rw [← UInt64.toNat_inj, UInt64.toNat_zero]
    simp only [Nat.pos_iff_ne_zero, ne_eq, hzero]
    exact ⟨fun h0 => habsent ⟨h0, hwhole.mp h0⟩, fun h0 => habsent ⟨hwhole.mpr h0, h0⟩⟩

/-- A file whose footer is located and validated is the file of the sound container its footer describes. -/
theorem exists_of_located {file : Bytes} {f : Footer} {footerStart : Nat}
    (hloc : locateFooter (.ofBytes file) file.length = .ok (.found f footerStart))
    (hval : validateFooter f footerStart = .ok ()) :
    ∃ c : Container, c.Sound ∧ c.bytes = file ∧ c.footer = f ∧ c.footerStart = footerStart := by
  obtain ⟨hv, hfile, htake, h1, h2⟩ := eq_encode_of_locateFooter hloc
  have hlaid := validateFooter_ok_iff.mp hval
  have hchain := hlaid.chain
  have hstart := hchain.le
  have hle : footerStart ≤ file.length := by
    rw [List.length_take] at htake
    omega
  obtain ⟨hplace, hjoined⟩ := place_extract hchain hle
  have hbase : (file.take f.manifestOffset.toNat).length = f.manifestOffset.toNat := by
    rw [List.length_take]
    omega
  have hfooter : (Container.ofFile file f).footer = f := by
    rw [Container.footer, Container.blocks_ofFile, Container.ofFile, hbase, hplace, Footer.ofPairs_pairs hv]
  have hbody : (Container.ofFile file f).body =
      slice file f.manifestOffset.toNat (footerStart - f.manifestOffset.toNat) := by
    rw [Container.body, Container.blocks_ofFile, hjoined]
  have hend : (Container.ofFile file f).footerStart = footerStart := by
    rw [Container.footerStart, hbody, length_slice file (by omega)]
    show (file.take f.manifestOffset.toNat).length + _ = _
    omega
  have henv : (Container.ofFile file f).envelope = extract file (f.pairs.drop 2) := rfl
  have hpresent {b : Bytes} (hb : some b ∈ (Container.ofFile file f).envelope) :
      ∃ p, some p ∈ f.pairs.drop 2 ∧ slice file p.1 p.2 = b := by
    rw [henv, extract, List.mem_map] at hb
    obtain ⟨_ | p, hp, heq⟩ := hb
    · cases heq
    · exact ⟨p, hp, Option.some.inj heq⟩
  refine ⟨Container.ofFile file f, ⟨hend ▸ hlaid.start_lt, ?_, ?_, by rwa [hfooter], by rwa [hfooter]⟩, ?_,
    hfooter, hend⟩
  · intro b hb
    obtain ⟨p, hp, rfl⟩ := hpresent hb
    have hpos := hlaid.envelope_pos hp
    have hmem := hchain.mem_le (List.mem_of_mem_drop hp)
    rw [← List.length_pos_iff, length_slice file (by omega)]
    exact hpos.2
  · rintro ⟨b, hb⟩
    obtain ⟨p, hp, rfl⟩ := hpresent hb
    -- the first present envelope block starts where the archive ends, and no envelope block starts at zero
    obtain ⟨-, harchive, hrest⟩ := hchain
    obtain ⟨len, hlen⟩ := hrest.exists_start hp
    have hpos := (hlaid.envelope_pos hlen).1
    have hend := hrest.le
    show 0 < (file.take f.manifestOffset.toNat).length + (slice file _ _).length + (slice file _ _).length
    rw [hbase, length_slice file (by omega), length_slice file (by omega)]
    exact hpos
  · have htakes : file.take f.manifestOffset.toNat ++
        slice file f.manifestOffset.toNat (footerStart - f.manifestOffset.toNat) = file.take footerStart := by
      rw [slice, ← List.take_add, Nat.add_sub_cancel' hstart]
    rw [Container.bytes, hbody, hfooter]
    show file.take f.manifestOffset.toNat ++ _ ++ _ = _
    rw [htakes]
    exact hfile.symm

end DeployCore
