import DeployCore.ImageInventory
import DeployCore.SourceRounds

/-! # The mirror of the archive's count

The walker of the image tar reads through a mirror of the count, fed the probed bytes again and then the rest. It takes
the inventory one counting reader over the snapshot would. -/

namespace DeployCore.ImageArchive
open Fallible CountingReader

/-- The walk of one counting reader placed on the snapshot itself. -/
def directInventory (sha256 : Bytes → Bytes) (file : ArchiveFile) (limits : ContentLimits) : Checked Inventory :=
  gather sha256 ByteStream.answers 1 limits (counting file limits)

section Gather
variable {σ τ : Type} {sha256 : Bytes → Bytes} {answers : Answers σ} {answers' : Answers τ} {patience patience' : Nat}
  {At : CountingReader σ → Tape → Prop} {At' : CountingReader τ → Tape → Prop} {w : SourceWalker σ} {w' : SourceWalker τ}
  {limits : ContentLimits}

theorem gatherEntry_alike (hp : Plays answers patience At) (hp' : Plays answers' patience' At')
    (h : SourceWalker.Abreast At At' w w') (copyBuffer : Nat) (g : Gathered) (entry : TarEntry) :
    SourceWalker.Alike At At' (gatherEntry sha256 answers patience copyBuffer g entry)
      (gatherEntry sha256 answers' patience' copyBuffer g entry) w w' := by
  unfold gatherEntry
  split
  · exact .ok h
  split
  · exact .ok h
  dsimp only
  split
  · exact .ok h
  · exact .ok h
  · exact .ok h
  · exact (SourceWalker.Abreast.entryData hp hp' h copyBuffer).bind fun data w w' h => .ok h

/-- Walkers abreast gather the same. -/
theorem gatherFrom_alike (hp : Plays answers patience At) (hp' : Plays answers' patience' At') (copyBuffer fuel : Nat)
    (g : Gathered) (h : SourceWalker.Abreast At At' w w') :
    SourceWalker.Alike At At' (gatherFrom sha256 answers patience copyBuffer fuel g)
      (gatherFrom sha256 answers' patience' copyBuffer fuel g) w w' := by
  induction fuel generalizing g w w' with
  | zero => exact .error trivial
  | succ fuel ih =>
    refine (h.nextEntry hp hp').bind fun next w w' h => ?_
    cases next with
    | none => exact .ok h
    | some entry => exact (gatherEntry_alike hp hp' h copyBuffer g entry).bind fun g w w' h => ih g h

/-- Readers that stand at one tape are gathered to the same inventory. -/
theorem gather_eq (hp : Plays answers patience At) (hp' : Plays answers' patience' At') {source : CountingReader σ}
    {source' : CountingReader τ} {t : Tape} (hat : At source t) (hat' : At' source' t) :
    gather sha256 answers patience limits source = gather sha256 answers' patience' limits source' := by
  have habreast : SourceWalker.Abreast At At' (SourceWalker.ofSource source .imageArchive limits)
      (SourceWalker.ofSource source' .imageArchive limits) :=
    ⟨⟨t, hat, hat'⟩, rfl, rfl, rfl, rfl, rfl, rfl, rfl, limits.copyBuffer_pos⟩
  have halike := @gatherFrom_alike _ _ sha256 _ _ _ _ _ _ _ _ hp hp' (limits.resourceLimit .copyBuffer).max
    ((SourceWalker.ofSource source .imageArchive limits).rules.headersLeft + 1) .empty habreast
  have hfuel : (SourceWalker.ofSource source' .imageArchive limits).rules =
      (SourceWalker.ofSource source .imageArchive limits).rules := rfl
  unfold gather
  dsimp only
  rw [hfuel]
  rcases halike.cases with ⟨g, w, w', hx, hy, -⟩ | ⟨fault, w, w', hx, hy, -⟩ <;> rw [hx, hy]

/-- A walk that cannot read its first header stops at that. -/
theorem gather_cut (hp : Plays answers patience At) {source : CountingReader σ} {t : Tape} (hat : At source t)
    (hcut : t.readable < BLOCK) : gather sha256 answers patience limits source = .error (imageFault t.shortfall) := by
  obtain ⟨w₁, hnext⟩ := SourceWalker.nextEntry_short (w := SourceWalker.ofSource source .imageArchive limits) hp hat
    limits.copyBuffer_pos rfl rfl rfl hcut
  have hgather (copyBuffer fuel : Nat) (g : Gathered) : gatherFrom sha256 answers patience copyBuffer (fuel + 1) g
      (SourceWalker.ofSource source .imageArchive limits) = .error t.shortfall w₁ := by
    unfold gatherFrom
    exact bind_of_error hnext
  unfold gather
  dsimp only
  rw [hgather]

end Gather

/-! ### The probe -/

section Probe
variable {At : StreamReader → Tape → Prop} {counted : StreamReader} {t : Tape}

theorem probeMore_fault {counted' : StreamReader} {probed : Bytes} {fuel : Nat} {fault : ContentFault}
    (hfull : ¬PROBE_LEN ≤ probed.length)
    (h : counted.pull ByteStream.answers 1 (PROBE_LEN - probed.length) = (.error fault, counted')) :
    probeMore (fuel + 1) counted probed = .error fault := by
  rw [probeMore, if_neg hfull, h]

theorem probeMore_end {counted' : StreamReader} {probed : Bytes} {fuel : Nat} (hfull : ¬PROBE_LEN ≤ probed.length)
    (h : counted.pull ByteStream.answers 1 (PROBE_LEN - probed.length) = (.ok [], counted')) :
    probeMore (fuel + 1) counted probed = .ok (probed, counted') := by
  rw [probeMore, if_neg hfull, h]

theorem probeMore_piece {counted' : StreamReader} {probed bytes : Bytes} {fuel : Nat} (hfull : ¬PROBE_LEN ≤ probed.length)
    (hne : bytes ≠ []) (h : counted.pull ByteStream.answers 1 (PROBE_LEN - probed.length) = (.ok bytes, counted')) :
    probeMore (fuel + 1) counted probed = probeMore fuel counted' (probed ++ bytes) := by
  obtain ⟨b, rest, rfl⟩ := List.exists_cons_of_ne_nil hne
  rw [probeMore, if_neg hfull, h]

/-- The probe reads the first bytes there are, or stops at the limit. -/
theorem probeMore_comes (hp : Plays ByteStream.answers 1 At) (hending : t.ending = none) {fuel : Nat} {probed : Bytes}
    (hat : At counted t) (hfuel : PROBE_LEN ≤ fuel + probed.length) (hprobed : probed.length ≤ PROBE_LEN) :
    (min (PROBE_LEN - probed.length) t.bytes.length ≤ t.allowance ∧
      ∃ counted', probeMore fuel counted probed = .ok (probed ++ t.bytes.take (PROBE_LEN - probed.length), counted') ∧
        At counted' (t.advance (min (PROBE_LEN - probed.length) t.bytes.length))) ∨
    t.allowance < min (PROBE_LEN - probed.length) t.bytes.length ∧ probeMore fuel counted probed = .error t.spent := by
  induction fuel generalizing counted t probed with
  | zero =>
    obtain hfull : PROBE_LEN - probed.length = 0 := by omega
    rw [hfull, Nat.zero_min, List.take_zero, List.append_nil]
    exact .inl ⟨Nat.zero_le _, counted, rfl, hat⟩
  | succ fuel ih =>
    obtain ⟨need, hneed⟩ : ∃ need, PROBE_LEN - probed.length = need := ⟨_, rfl⟩
    rw [hneed]
    by_cases hfull : PROBE_LEN ≤ probed.length
    · obtain rfl : need = 0 := by omega
      refine .inl ⟨by omega, counted, ?_, by rwa [Nat.zero_min, Tape.advance_zero]⟩
      rw [probeMore, if_pos hfull, List.take_zero, List.append_nil]
    rcases Nat.eq_zero_or_pos t.readable with hzero | hreadable
    · unfold Tape.readable at hzero
      by_cases hempty : t.bytes = []
      · obtain ⟨r', hpull, hat'⟩ := hp.ended hat (show 0 < need by omega) hempty hending
        refine .inl ⟨by rw [hempty]; simp, r', ?_, by rw [hempty, List.length_nil, Nat.min_zero, Tape.advance_zero]; exact hat'⟩
        rw [probeMore_end hfull (hneed ▸ hpull), hempty, List.take_nil, List.append_nil]
      · have hlength := List.length_pos_iff.mpr hempty
        obtain ⟨r', hpull⟩ := Plays.exists_of_error (hp.spent hat (show 0 < need by omega) (by omega) hempty)
        exact .inr ⟨by omega, probeMore_fault hfull (hneed ▸ hpull)⟩
    · obtain ⟨n, r', hn, hle, hfits, hpull, hat'⟩ := hp.piece hat (show 0 < need by omega) hreadable
      have hlength : (t.bytes.take n).length = n := Tape.length_take_readable hfits
      unfold Tape.readable at hfits
      have hne : t.bytes.take n ≠ [] := List.length_pos_iff.mp (by omega)
      rw [probeMore_piece hfull hne (hneed ▸ hpull)]
      have hlen : (probed ++ t.bytes.take n).length = probed.length + n := by rw [List.length_append, hlength]
      have hrest : PROBE_LEN - (probed ++ t.bytes.take n).length = need - n := by omega
      have htape : (t.advance n).bytes.length = t.bytes.length - n := Tape.length_advance
      have hmin : n + min (need - n) (t.bytes.length - n) = min need t.bytes.length := by omega
      have hallowance : (t.advance n).allowance = t.allowance - n := rfl
      have hnext := ih (t := t.advance n) hending hat' (show PROBE_LEN ≤ fuel + (probed ++ t.bytes.take n).length by omega)
        (by omega)
      rw [hrest, htape, hallowance, Tape.advance_advance, hmin, Tape.spent_advance (by omega)] at hnext
      refine hnext.imp (fun ⟨hfits', counted', hprobe, hat₂⟩ => ⟨by omega, counted', ?_, hat₂⟩)
        fun ⟨hshort, herror⟩ => ⟨by omega, herror⟩
      have htake : t.bytes.take n ++ (t.bytes.drop n).take (need - n) = t.bytes.take need := by
        rw [← List.take_add, Nat.add_sub_cancel' hle]
      rw [hprobe, List.append_assoc]
      exact congrArg (fun bytes => Except.ok (probed ++ bytes, counted')) htake

end Probe

/-! ### The mirror -/

section Mirror
variable (sha256 : Bytes → Bytes) (file : ArchiveFile) (limits : ContentLimits)

/-- What the count of the snapshot has ahead of it. -/
def fileTape : Tape :=
  (counting file limits).tape file.bytes none

theorem counting_fresh : (counting file limits).Fresh :=
  fresh_ofSource ..

theorem counting_plays : Plays ByteStream.answers 1 (StandsAt (counting file limits) StreamHolds) :=
  plays gives_stream (counting_fresh file limits) Nat.one_pos

theorem counting_stands : StandsAt (counting file limits) StreamHolds (counting file limits) (fileTape file limits) :=
  standsAt_start ⟨rfl, rfl⟩

theorem allowance_fileTape : (fileTape file limits).allowance = limits.get .imageArchive :=
  Nat.min_eq_right (limits.resourceLimit .imageArchive).max_le

/-- Whether the first bytes are those of a compressed stream. -/
def compressed (bytes : Bytes) : Bool :=
  GZIP_MAGIC.isPrefixOf (bytes.take PROBE_LEN) || ZSTD_MAGIC.isPrefixOf (bytes.take PROBE_LEN)

/-- The mirror over the bytes that were probed and the reader that probed them stands where the count stood before. -/
theorem mirror_stands {counted : StreamReader}
    (hat : StandsAt (counting file limits) StreamHolds counted ((fileTape file limits).advance (min PROBE_LEN file.bytes.length)))
    (hfits : min PROBE_LEN file.bytes.length ≤ limits.get .imageArchive) :
    let mirror := CountingReader.ofSource (⟨file.bytes.take PROBE_LEN, counted⟩ : Replay StreamReader)
      (limits.resourceLimit .imageArchive) [] (limits.resourceLimit .copyBuffer).max
    StandsAt mirror (fun replay bytes ending => ∃ rest, bytes = replay.pending ++ rest ∧ ∃ t,
      StandsAt (counting file limits) StreamHolds replay.rest t ∧ rest = t.cut.bytes ∧ ending = t.behind)
      mirror (fileTape file limits).cut := by
  intro mirror
  have hallowance := allowance_fileTape file limits
  have hle : min PROBE_LEN file.bytes.length ≤ (fileTape file limits).readable := by
    rw [Tape.readable, hallowance]
    exact le_min hfits (Nat.min_le_right _ _)
  have hcut : (fileTape file limits).cut = mirror.tape (fileTape file limits).cut.bytes (fileTape file limits).behind := rfl
  rw [hcut]
  refine standsAt_start ⟨_, ?_, _, hat, rfl, (Tape.behind_advance hle).symm⟩
  have hprobed : file.bytes.take PROBE_LEN = (fileTape file limits).cut.bytes.take (min PROBE_LEN file.bytes.length) := by
    rw [Tape.take_cut hle]
    exact List.take_eq_take_min
  rw [Tape.cut_advance hle]
  show _ = file.bytes.take PROBE_LEN ++ (fileTape file limits).cut.bytes.drop _
  rw [hprobed, List.take_append_drop]

/-- The walk through the mirror takes the inventory of the direct walk, unless the stream is a compressed one. -/
theorem rawInventory_eq : rawInventory sha256 file limits =
    if min PROBE_LEN file.bytes.length ≤ limits.get .imageArchive ∧ compressed file.bytes then
      .error (.archive (.unsupported .compressedOuterStream))
    else directInventory sha256 file limits := by
  have hp := counting_plays file limits
  have hat := counting_stands file limits
  have hallowance := allowance_fileTape file limits
  rcases probeMore_comes hp rfl hat (show PROBE_LEN ≤ PROBE_LEN + ([] : Bytes).length from Nat.le_add_right _ _) (Nat.zero_le _) with
    ⟨hfits, counted, hprobe, hat'⟩ | ⟨hshort, herror⟩
  · have hfits : min PROBE_LEN file.bytes.length ≤ limits.get .imageArchive := hallowance ▸ hfits
    have hprobe : probeMore PROBE_LEN (counting file limits) [] = .ok (file.bytes.take PROBE_LEN, counted) := hprobe
    unfold rawInventory probe
    rw [hprobe]
    by_cases hmagic : compressed file.bytes = true
    · rw [if_pos ⟨hfits, hmagic⟩]
      unfold compressed at hmagic
      dsimp only
      rw [if_pos hmagic]
      rfl
    · rw [if_neg fun h => hmagic h.2]
      unfold compressed at hmagic
      dsimp only
      rw [if_neg hmagic]
      have hfresh := fresh_ofSource (⟨file.bytes.take PROBE_LEN, counted⟩ : Replay StreamReader)
        (limits.resourceLimit .imageArchive) [] (limits.resourceLimit .copyBuffer).max
      have hmirror := (plays hp.stacked.replay hfresh Nat.one_pos).uncut
      exact (gather_eq hp hmirror hat (mirror_stands file limits hat' hfits)).symm
  · have hshort : limits.get .imageArchive < min PROBE_LEN file.bytes.length := hallowance ▸ hshort
    have hover : ¬(fileTape file limits).bytes.length ≤ (fileTape file limits).allowance := by
      show ¬file.bytes.length ≤ _
      omega
    have hcut : (fileTape file limits).readable < BLOCK := by
      have hprobe : PROBE_LEN < BLOCK := by decide
      rw [Tape.readable, hallowance]
      omega
    rw [if_neg fun h => absurd h.1 (by omega), directInventory, gather_cut hp hat hcut, Tape.shortfall, if_neg hover]
    unfold rawInventory probe
    rw [herror]
    rfl

end Mirror

end DeployCore.ImageArchive
