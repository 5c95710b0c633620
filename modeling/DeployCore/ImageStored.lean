import DeployCore.ImageLayers
import DeployCore.ImageMirror

/-! # What an accepted image archive holds

The raw inventory records where everything lies and what it hashes to, and every later phase goes by that record. It is
true to the file, so what an accepted archive is said to hold are bytes of the file. -/

namespace DeployCore.ImageArchive
open Fallible CountingReader LittleEndian

section Entries
variable {sha256 : Bytes → Bytes} {bytes : Bytes} {entries : List RecordedEntry} {reach reach' : Nat}

/-- The recorded entries lie one behind the other, ahead of `reach`. -/
structure InOrder (entries : List RecordedEntry) (reach : Nat) : Prop where
  header : ∀ entry ∈ entries, entry.dataOffset = entry.headerOffset + BLOCK
  within : ∀ entry ∈ entries, entry.dataOffset + entry.dataLen ≤ reach
  apart : entries.Pairwise fun a b => a.dataOffset + a.dataLen ≤ b.headerOffset

/-- A blob is an entry of its name, and hashes to what was recorded of it. -/
def BlobStands (sha256 : Bytes → Bytes) (bytes : Bytes) (entries : List RecordedEntry) (blob : String × Blob) : Prop :=
  ∃ entry ∈ entries, stripBlob entry.name = some blob.1 ∧ isDigestHex blob.1 = true ∧ entry.span = blob.2.span ∧
    blob.2.sha256 = toHex (sha256 (slice bytes blob.2.span.offset blob.2.span.len))

/-- A layout file is an entry of its name. -/
def LayoutStands (entries : List RecordedEntry) (file : LayoutFile) (span : Span) : Prop :=
  ∃ entry ∈ entries, entry.span = span ∧ classify entry.name .regular = .layout file

/-- An entry is recorded for its place in the layout or for its blob. -/
def Listed (blobs : List (String × Blob)) (entry : RecordedEntry) : Prop :=
  (∃ file, classify entry.name .regular = .layout file) ∨ ∃ blob ∈ blobs, stripBlob entry.name = some blob.1

theorem InOrder.mono (h : InOrder entries reach) (hle : reach ≤ reach') : InOrder entries reach' where
  header := h.header
  within entry hmem := (h.within entry hmem).trans hle
  apart := h.apart

theorem InOrder.append {entry : RecordedEntry} (h : InOrder entries entry.headerOffset)
    (hheader : entry.dataOffset = entry.headerOffset + BLOCK) (hle : entry.dataOffset + entry.dataLen ≤ reach) :
    InOrder (entries ++ [entry]) reach where
  header := by
    intro other hmem
    rcases List.mem_append.mp hmem with hmem | hmem
    · exact h.header other hmem
    · rw [List.mem_singleton.mp hmem, hheader]
  within := by
    intro other hmem
    rcases List.mem_append.mp hmem with hmem | hmem
    · have := h.within other hmem
      omega
    · rw [List.mem_singleton.mp hmem]
      exact hle
  apart := by
    refine List.pairwise_append.mpr ⟨h.apart, List.pairwise_singleton _ _, fun other hmem last hlast => ?_⟩
    rw [List.mem_singleton.mp hlast]
    exact h.within other hmem

theorem BlobStands.append {blob : String × Blob} (h : BlobStands sha256 bytes entries blob) (entry : RecordedEntry) :
    BlobStands sha256 bytes (entries ++ [entry]) blob :=
  let ⟨other, hmem, hstands⟩ := h
  ⟨other, List.mem_append_left _ hmem, hstands⟩

theorem LayoutStands.append {file : LayoutFile} {span : Span} (h : LayoutStands entries file span) (entry : RecordedEntry) :
    LayoutStands (entries ++ [entry]) file span :=
  let ⟨other, hmem, hstands⟩ := h
  ⟨other, List.mem_append_left _ hmem, hstands⟩

theorem Listed.cons {blobs : List (String × Blob)} {entry : RecordedEntry} (h : Listed blobs entry) (blob : String × Blob) :
    Listed (blob :: blobs) entry :=
  h.imp_right fun ⟨other, hmem, hname⟩ => ⟨other, List.mem_cons_of_mem _ hmem, hname⟩

end Entries

theorem classify_layout {name : String} {kind : EntryKind} {file : LayoutFile} (h : classify name kind = .layout file) :
    classify name .regular = .layout file := by
  have hregular : kind = .regular := by
    unfold classify at h
    split at h
    next hname => exact hname.1
    split at h
    next hname => exact hname.1
    split at h
    next hname => exact hname.1
    split at h
    · cases h
    split at h <;> cases h
  rw [← hregular, h]

theorem classify_blob {name : String} {kind : EntryKind} (h : classify name kind = .blob) :
    ∃ hex, stripBlob name = some hex ∧ isDigestHex hex = true := by
  unfold classify at h
  split at h
  · cases h
  split at h
  · cases h
  split at h
  · cases h
  split at h
  · cases h
  split at h
  next hblob => exact (Option.any_eq_true ..).mp hblob.2
  · cases h

/-! ### The walk -/

/-- What has been recorded is true to the bytes ahead of `reach`. -/
structure Gathered.Sound (sha256 : Bytes → Bytes) (bytes : Bytes) (g : Gathered) (reach : Nat) : Prop where
  order : InOrder g.entries reach
  layout : ∀ file span, g.layout file = some span → LayoutStands g.entries file span
  blobs : ∀ blob ∈ g.blobs, BlobStands sha256 bytes g.entries blob
  listed : ∀ entry ∈ g.entries, Listed g.blobs entry

/-- A tape that is what is to come of these bytes. -/
structure Tape.Of (bytes : Bytes) (t : Tape) : Prop where
  le : t.position ≤ bytes.length
  bytes : t.bytes = bytes.drop t.position

section Walk
variable {σ : Type} {sha256 : Bytes → Bytes} {answers : Answers σ} {patience : Nat} {At : CountingReader σ → Tape → Prop}
  {w w' : SourceWalker σ} {t : Tape} {bytes : Bytes} {g g' : Gathered} {n reach reach' : Nat}

theorem Tape.Of.advance (h : Tape.Of bytes t) (hn : n ≤ t.bytes.length) : Tape.Of bytes (t.advance n) := by
  have hlength : t.bytes.length = bytes.length - t.position := by rw [h.bytes, List.length_drop]
  have hle := h.le
  refine ⟨?_, ?_⟩
  · show t.position + n ≤ _
    omega
  · show t.bytes.drop n = bytes.drop (t.position + n)
    rw [h.bytes, List.drop_drop]

theorem Gathered.Sound.mono (h : g.Sound sha256 bytes reach) (hle : reach ≤ reach') : g.Sound sha256 bytes reach' :=
  { h with order := h.order.mono hle }

theorem Gathered.Sound.defer (h : g.Sound sha256 bytes reach) (feature : UnsupportedArchiveFeature) :
    (g.defer feature).Sound sha256 bytes reach :=
  ⟨h.order, h.layout, h.blobs, h.listed⟩

theorem Gathered.Sound.putLayout {file : LayoutFile} {entry : RecordedEntry} (h : g.Sound sha256 bytes entry.headerOffset)
    (hheader : entry.dataOffset = entry.headerOffset + BLOCK) (hclass : classify entry.name .regular = .layout file) :
    (g.putLayout file entry).Sound sha256 bytes (entry.dataOffset + entry.dataLen) := by
  refine ⟨h.order.append hheader le_rfl, fun other span hspan => ?_, fun blob hmem => (h.blobs blob hmem).append _,
    List.forall_mem_append.mpr ⟨h.listed, List.forall_mem_singleton.mpr (.inl ⟨file, hclass⟩)⟩⟩
  by_cases hfile : other = file
  · have hspan : some entry.span = some span := (if_pos hfile).symm.trans hspan
    exact ⟨entry, List.mem_append_right _ (List.mem_singleton_self _), Option.some.inj hspan, hfile ▸ hclass⟩
  · exact (h.layout other span ((if_neg hfile).symm.trans hspan)).append _

theorem Gathered.Sound.putBlob {entry : RecordedEntry} {hex digest : String} (h : g.Sound sha256 bytes entry.headerOffset)
    (hheader : entry.dataOffset = entry.headerOffset + BLOCK) (hstrip : stripBlob entry.name = some hex)
    (hdigits : isDigestHex hex = true) (hdigest : digest = toHex (sha256 (slice bytes entry.dataOffset entry.dataLen))) :
    (g.putBlob digest entry).Sound sha256 bytes (entry.dataOffset + entry.dataLen) := by
  have hname : (stripBlob entry.name).getD "" = hex := by rw [hstrip, Option.getD_some]
  have hblobs : (g.putBlob digest entry).blobs = (hex, ⟨entry.span, digest⟩) :: g.blobs := by rw [Gathered.putBlob, hname]
  refine ⟨h.order.append hheader le_rfl, fun other span hspan => (h.layout other span hspan).append _, ?_, ?_⟩
  · rw [hblobs]
    exact List.forall_mem_cons.mpr ⟨⟨entry, List.mem_append_right _ (List.mem_singleton_self _), hstrip, hdigits, rfl, hdigest⟩,
      fun blob hmem => (h.blobs blob hmem).append _⟩
  · rw [hblobs]
    exact List.forall_mem_append.mpr ⟨fun other hmem => (h.listed other hmem).cons _,
      List.forall_mem_singleton.mpr (.inr ⟨_, List.mem_cons_self, hstrip⟩)⟩

/-- What a step over an entry leaves: the record, and how much of the entry's data was read. -/
def Recorded (sha256 : Bytes → Bytes) (bytes : Bytes) (At : CountingReader σ → Tape → Prop) (t : Tape) (w : SourceWalker σ)
    (entry : TarEntry) (g' : Gathered) (w' : SourceWalker σ) : Prop :=
  g'.Sound sha256 bytes (entry.dataOffset + entry.dataLen) ∧
    ∃ n r, n ≤ w.unreadData ∧ n ≤ t.readable ∧ At r (t.advance n) ∧
      w' = { w with source := r, unreadData := w.unreadData - n }

theorem gatherEntry_sound (hp : Plays answers patience At) (hof : Tape.Of bytes t) (hat : At w.source t) {copyBuffer : Nat}
    (hcopy : copyBuffer ≠ 0) (hlatch : w.latch = none) {entry : TarEntry} (hg : g.Sound sha256 bytes entry.headerOffset)
    (hdata : entry.dataOffset = t.position) (hheader : entry.dataOffset = entry.headerOffset + BLOCK)
    (hunread : w.unreadData = entry.dataLen) (h : gatherEntry sha256 answers patience copyBuffer g entry w = .ok g' w') :
    Recorded sha256 bytes At t w entry g' w' := by
  have hstays : ∃ n r, n ≤ w.unreadData ∧ n ≤ t.readable ∧ At r (t.advance n) ∧
      w = { w with source := r, unreadData := w.unreadData - n } :=
    ⟨0, w.source, Nat.zero_le _, Nat.zero_le _, by rwa [Tape.advance_zero], rfl⟩
  have hkept : g.Sound sha256 bytes (entry.dataOffset + entry.dataLen) := hg.mono (by omega)
  unfold gatherEntry at h
  by_cases hdeferred : g.deferred.isSome = true
  · rw [if_pos hdeferred] at h
    cases h
    exact ⟨hkept, hstays⟩
  rw [if_neg hdeferred] at h
  rcases hname : String.fromUTF8? entry.canonicalName.toByteArray with _ | name <;> rw [hname] at h
  · cases h
    exact ⟨hkept.defer _, hstays⟩
  dsimp only at h
  cases hclass : classify name entry.kind with
  | layout file =>
    rw [hclass] at h
    cases h
    exact ⟨@Gathered.Sound.putLayout _ _ g file ⟨name, entry.headerOffset, entry.dataOffset, entry.dataLen⟩ hg hheader
      (classify_layout hclass), hstays⟩
  | blob =>
    rw [hclass] at h
    obtain ⟨data, w₁, hread, h⟩ := bind_ok h
    cases h
    obtain ⟨hex, hstrip, hdigits⟩ := classify_blob hclass
    have hdrained := SourceWalker.entryData_drains hp hcopy hlatch hat
    rcases htake : t.take w.unreadData with fault | ⟨read, t'⟩ <;> rw [htake] at hdrained
    · obtain ⟨w₂, hfault⟩ := hdrained
      cases hread.symm.trans hfault
    obtain ⟨r, hdone, hat'⟩ := hdrained
    obtain ⟨hle, hnext⟩ := Tape.take_ok htake
    cases hnext
    cases hread.symm.trans hdone
    have hslice : ([] : Bytes) ++ t.bytes.take w.unreadData = slice bytes entry.dataOffset entry.dataLen := by
      rw [List.nil_append, hunread, hof.bytes, hdata]
      rfl
    exact ⟨@Gathered.Sound.putBlob _ _ g ⟨name, entry.headerOffset, entry.dataOffset, entry.dataLen⟩ hex _ hg hheader hstrip
      hdigits (by rw [hslice]), w.unreadData, r, le_rfl, hle, hat', by rw [Nat.sub_self]⟩
  | directory =>
    rw [hclass] at h
    cases h
    exact ⟨hkept, hstays⟩
  | deferred feature =>
    rw [hclass] at h
    cases h
    exact ⟨hkept.defer feature, hstays⟩

/-- The walk from an entry on records what is true of the whole file. -/
theorem gatherFrom_sound (hp : Plays answers patience At) {copyBuffer fuel : Nat} (hcopy : copyBuffer ≠ 0)
    (hof : Tape.Of bytes t) (hat : At w.source t) (hbuffer : 0 < w.copyBuffer.max) {rules : ImageRules}
    (hrules : w.rules = .image rules) (hlatch : w.latch = none) (hfinished : w.finished = false)
    (hg : g.Sound sha256 bytes (t.position + w.unread))
    (h : gatherFrom sha256 answers patience copyBuffer fuel g w = .ok g' w') : g'.Sound sha256 bytes bytes.length := by
  induction fuel generalizing g w t rules with
  | zero => cases h
  | succ fuel ih =>
    obtain ⟨called, w₁, hcall, h⟩ := bind_ok h
    have hlength : t.bytes.length = bytes.length - t.position := by rw [hof.bytes, List.length_drop]
    have hle := hof.le
    cases called with
    | none =>
      cases h
      obtain ⟨hunread, -⟩ := SourceWalker.nextEntry_end hp hat hbuffer hlatch hfinished hcall
      unfold Tape.readable at hunread
      exact hg.mono (by omega)
    | some entry =>
      obtain ⟨hat₁, hentry⟩ := SourceWalker.nextEntry_image hp hat hbuffer hrules hlatch hfinished hcall
      obtain ⟨g₁, w₂, hgather, h⟩ := bind_ok h
      obtain ⟨rules₁, -, hrules₁, -⟩ := hentry.rules
      have hheader := hentry.header
      have hoffset := hentry.headerOffset
      have hdata := hentry.dataOffset
      have hunread := hentry.unreadData
      unfold Tape.readable at hheader
      have hof₁ : Tape.Of bytes (t.advance (w.unread + BLOCK)) := hof.advance (by omega)
      have hposition : (t.advance (w.unread + BLOCK)).position = t.position + (w.unread + BLOCK) := rfl
      obtain ⟨hsound, n, r, hn, hfits, hat₂, rfl⟩ := gatherEntry_sound hp hof₁ hat₁ hcopy hentry.latch (hoffset ▸ hg)
        (by omega) (by omega) hunread hgather
      unfold Tape.readable at hfits
      refine ih (w := { w₁ with source := r, unreadData := w₁.unreadData - n }) (hof₁.advance (n := n) (by omega)) hat₂
        (by rw [hentry.copyBuffer]; exact hbuffer) hrules₁ hentry.latch hentry.finished (hsound.mono ?_) h
      show _ ≤ t.position + (w.unread + BLOCK) + n + (w₁.unreadData - n + w₁.unreadPadding)
      omega

end Walk

/-- An inventory that is true to the file. -/
structure Inventory.Sound (sha256 : Bytes → Bytes) (bytes : Bytes) (inventory : Inventory) : Prop where
  order : InOrder inventory.entries bytes.length
  ociLayout : LayoutStands inventory.entries .ociLayout inventory.ociLayout
  index : LayoutStands inventory.entries .index inventory.index
  compatibility : LayoutStands inventory.entries .compatibilityManifest inventory.compatibility
  blobs : ∀ blob ∈ inventory.blobs, BlobStands sha256 bytes inventory.entries blob
  listed : ∀ entry ∈ inventory.entries, Listed inventory.blobs entry

section Inventory
variable {sha256 : Bytes → Bytes} {bytes : Bytes} {inventory : Inventory}

theorem Gathered.Sound.inventory_sound {g : Gathered} (h : g.Sound sha256 bytes bytes.length) (hinventory : g.inventory = .ok inventory) :
    inventory.Sound sha256 bytes := by
  unfold Gathered.inventory at hinventory
  split at hinventory
  · cases hinventory
  split at hinventory
  · cases hinventory
  · cases hinventory
  · cases hinventory
  next hociLayout hindex hcompatibility =>
    cases hinventory
    exact ⟨h.order, h.layout _ _ hociLayout, h.layout _ _ hindex, h.layout _ _ hcompatibility, h.blobs, h.listed⟩

theorem gathered_empty : Gathered.empty.Sound sha256 bytes 0 where
  order := ⟨nofun, nofun, .nil⟩
  layout := nofun
  blobs := nofun
  listed := nofun

theorem gather_sound {σ : Type} {answers : Answers σ} {patience : Nat} {At : CountingReader σ → Tape → Prop}
    (hp : Plays answers patience At) {source : CountingReader σ} {t : Tape} {limits : ContentLimits} (hat : At source t)
    (hposition : t.position = 0) (hbytes : t.bytes = bytes)
    (h : gather sha256 answers patience limits source = .ok inventory) : inventory.Sound sha256 bytes := by
  unfold gather at h
  dsimp only at h
  split at h
  next g w hgathered =>
    have hof : Tape.Of bytes t := ⟨by omega, by rw [hposition, hbytes, List.drop_zero]⟩
    refine (gatherFrom_sound hp limits.copyBuffer_pos.ne' hof (w := SourceWalker.ofSource source .imageArchive limits) hat
      limits.copyBuffer_pos rfl rfl rfl ?_ hgathered).inventory_sound h
    show Gathered.empty.Sound sha256 bytes (t.position + 0)
    rw [hposition]
    exact gathered_empty
  · cases h

/-- What phase 1 records is true to the file. -/
theorem rawInventory_sound {file : ArchiveFile} {limits : ContentLimits} (h : rawInventory sha256 file limits = .ok inventory) :
    inventory.Sound sha256 file.bytes := by
  rw [rawInventory_eq] at h
  split at h
  · cases h
  · exact gather_sound (counting_plays file limits) (counting_stands file limits) rfl rfl h

end Inventory

/-! ### Reading a recorded range -/

/-- What a bounded read of a byte string brings is all that is left of it. -/
theorem readBoundedFrom_stream {reserve : Nat → Nat → Bool} {copyBuffer fuel : Nat} {start r r' : StreamReader} {t : Tape}
    {read bytes : Bytes} (hstart : start.Fresh) (hat : StandsAt start StreamHolds r t)
    (h : readBoundedFrom reserve ByteStream.answers (max copyBuffer 1) fuel r read = (some (.ok bytes), r')) :
    bytes = read ++ t.bytes := by
  induction fuel generalizing r t read with
  | zero => cases h
  | succ fuel ih =>
    obtain ⟨k, hk⟩ : ∃ k, stepLen (max copyBuffer 1) r = k := ⟨_, rfl⟩
    have hpos : 0 < k := hk ▸ stepLen_pos r
    obtain ⟨call, hcall⟩ : ∃ call, r.read ByteStream.answers fuel k = call := ⟨_, rfl⟩
    have hpulled {chunk : Bytes} (houtcome : call.outcome = some (.ok chunk)) :
        ∃ n, chunk = t.bytes.take n ∧ StandsAt start StreamHolds call.reader (t.advance n) ∧ (chunk = [] → t.bytes = []) := by
      have hfuel : 0 < fuel := by
        by_contra hzero
        obtain rfl : fuel = 0 := by omega
        have hcheck : r.latch.check = .ok () := by rw [hat.latch hstart]; rfl
        have hnone : call.outcome = none := by
          rw [← hcall, CountingReader.read, hcheck]
          simp only [if_neg hpos.ne', CountingReader.readSource]
        cases hnone.symm.trans houtcome
      refine (plays gives_stream hstart hfuel).pulled hat hpos ?_
      rw [CountingReader.pull, hcall, houtcome]
      rfl
    unfold readBoundedFrom at h
    dsimp only at h
    rw [hk, hcall] at h
    split at h
    · cases h
    split at h
    · cases h
    · cases h
    next houtcome =>
      cases h
      obtain ⟨-, -, -, hempty⟩ := hpulled houtcome
      rw [readInto_eq, hempty rfl]
    next b chunk houtcome =>
      obtain ⟨n, htake, hat', -⟩ := hpulled houtcome
      rw [ih hat' h, readInto_eq, htake, List.append_assoc]
      exact congrArg (read ++ ·) (List.take_append_drop n t.bytes)

end DeployCore.ImageArchive
