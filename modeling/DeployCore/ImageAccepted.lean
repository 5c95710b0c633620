import DeployCore.ImageStored

/-! # What the validator accepts (`src/image/archive.rs`)

An archive that is accepted holds what it was declared to hold: the config that was signed, the manifest that was read,
and every layer this manifest names, each among the bytes of the file and under the digest it is named by. -/

namespace DeployCore.ImageArchive
open Json LittleEndian

/-! ### Digests -/

section Digests
variable {limits : ContentLimits} {document : ImageDocument} {value : Value}

theorem orShape_ok {α : Type} {option : Option α} {a : α} (h : orShape document option = .ok a) : option = some a := by
  cases option with
  | none => cases h
  | some b =>
    cases h
    rfl

theorem unrefused {ε α : Type} {c : Prop} [Decidable c] {e : ε} {x : Except ε α} {a : α}
    (h : (if c then .error e else x) = .ok a) : ¬c ∧ x = .ok a := by
  split at h
  · cases h
  next hc => exact ⟨hc, h⟩

theorem judged_ok {α : Type} {x : Except ArchiveVerdict α} {a : α} (h : judged x = .ok a) : x = .ok a :=
  Checks.mapError_ok.mp h

theorem isDigest_of_descriptor {role : Role} {d : Descriptor} (h : descriptor value role document limits = .ok d) :
    isDigest d.digest = true := by
  obtain ⟨object, -, h⟩ := Checks.bind_ok h
  obtain ⟨_, -, h⟩ := Checks.bind_ok h
  obtain ⟨-, h⟩ := unrefused h
  obtain ⟨-, h⟩ := unrefused h
  obtain ⟨mediaType, -, h⟩ := Checks.bind_ok h
  obtain ⟨_, -, h⟩ := Checks.bind_ok h
  obtain ⟨digest, hdigest, h⟩ := Checks.bind_ok h
  obtain ⟨size, -, h⟩ := Checks.bind_ok h
  have hdigits : isDigest digest = true := (Option.filter_eq_some_iff.mp (orShape_ok hdigest)).2
  obtain ⟨-, h⟩ := unrefused h
  obtain ⟨annotations, -, h⟩ := Checks.bind_ok h
  split at h
  · obtain ⟨platform, -, h⟩ := Checks.bind_ok h
    cases h
    exact hdigits
  · cases h
    exact hdigits

/-- Every descriptor of a list, each read in the role of its position. -/
theorem isDigest_of_each {each : Nat → List Value → Except ArchiveVerdict (List Descriptor)} {role : Nat → Role}
    {position : Nat} {values : List Value} {found : List Descriptor} (h : each position values = .ok found)
    (hnil : ∀ position, each position [] = .ok [])
    (hcons : ∀ position value values, each position (value :: values) = do
      let d ← descriptor value (role position) document limits
      let rest ← each (position + 1) values
      .ok (d :: rest)) :
    ∀ d ∈ found, isDigest d.digest = true := by
  induction values generalizing position found with
  | nil =>
    cases (hnil position).symm.trans h
    exact nofun
  | cons value values ih =>
    obtain ⟨d, hd, h⟩ := Checks.bind_ok ((hcons position value values).symm.trans h)
    obtain ⟨rest, hrest, h⟩ := Checks.bind_ok h
    cases h
    exact List.forall_mem_cons.mpr ⟨isDigest_of_descriptor hd, ih hrest⟩

theorem isDigest_of_imageManifest {image : ImageManifest} (h : imageManifest value limits = .ok image) :
    isDigest image.config.digest = true ∧ ∀ layer ∈ image.layers, isDigest layer.digest = true := by
  obtain ⟨object, -, h⟩ := Checks.bind_ok h
  obtain ⟨_, -, h⟩ := Checks.bind_ok h
  obtain ⟨-, h⟩ := unrefused h
  obtain ⟨-, h⟩ := unrefused h
  obtain ⟨mediaType, -, h⟩ := Checks.bind_ok h
  obtain ⟨-, h⟩ := unrefused h
  obtain ⟨config, hconfig, h⟩ := Checks.bind_ok h
  obtain ⟨values, -, h⟩ := Checks.bind_ok h
  obtain ⟨_, -, h⟩ := Checks.bind_ok h
  obtain ⟨layers, hlayers, h⟩ := Checks.bind_ok h
  have hdigits := And.intro (isDigest_of_descriptor hconfig) (isDigest_of_each hlayers (fun _ => rfl) fun _ _ _ => rfl)
  split at h
  · cases h
    exact hdigits
  · obtain ⟨annotations, -, h⟩ := Checks.bind_ok h
    split at h
    · cases h
      exact hdigits
    · cases h

theorem isDigest_of_index {descriptors : List Descriptor} (h : index value limits = .ok descriptors) :
    ∀ d ∈ descriptors, isDigest d.digest = true := by
  obtain ⟨found, hfound, h⟩ := Checks.bind_ok h
  have hfound := judged_ok hfound
  have hdigits : ∀ d ∈ found, isDigest d.digest = true := by
    obtain ⟨object, -, hfound⟩ := Checks.bind_ok hfound
    obtain ⟨_, -, hfound⟩ := Checks.bind_ok hfound
    obtain ⟨-, hfound⟩ := unrefused hfound
    obtain ⟨-, hfound⟩ := unrefused hfound
    obtain ⟨-, hfound⟩ := unrefused hfound
    obtain ⟨manifests, -, hfound⟩ := Checks.bind_ok hfound
    obtain ⟨_, -, hfound⟩ := Checks.bind_ok hfound
    exact isDigest_of_each hfound (fun _ => rfl) fun _ _ _ => rfl
  split at h
  · cases h
    exact nofun
  split at h
  · cases h
  · cases h
    exact hdigits

theorem digest_eq {d : Descriptor} (h : isDigest d.digest = true) : d.digest = SHA256_DIGEST_PREFIX ++ hexOf d := by
  obtain ⟨hex, hstrip, -⟩ := isDigest_iff.mp h
  rw [hexOf, hstrip]
  exact eq_of_stripDigest hstrip

theorem eq_of_stripBlob {name hex : String} (h : stripBlob name = some hex) : name = BLOB_PREFIX ++ hex := by
  obtain ⟨chars, hstrip, rfl⟩ := Option.map_eq_some_iff.mp h
  have hsplit := eq_append_of_stripPrefix hstrip
  rw [← String.toList_inj, hsplit, String.toList_append, String.toList_ofList]

end Digests

/-! ### Stored blobs -/

/-- A blob of the archive: an entry that is named after this digest, which is that of its bytes. -/
def HoldsBlob (sha256 : Bytes → Bytes) (file : ArchiveFile) (entries : List RecordedEntry) (digest : String)
    (content : Bytes) : Prop :=
  ∃ hex, digest = SHA256_DIGEST_PREFIX ++ hex ∧ hex = toHex (sha256 content) ∧
    ∃ entry ∈ entries, entry.name = BLOB_PREFIX ++ hex ∧ content = slice file.bytes entry.dataOffset entry.dataLen

/-- The entries hold an image: its manifest, every blob this names, and nothing else. -/
structure HoldsImage (lib : Externals) (file : ArchiveFile) (limits : ContentLimits) (entries : List RecordedEntry)
    (digest : String) (stored : Bytes) (image : ImageManifest) : Prop where
  manifest : HoldsBlob lib.sha256 file entries digest stored
  reads : ∃ value, parseDocument lib limits stored .imageManifest = .ok value ∧ imageManifest value limits = .ok image
  blobs : ∀ d ∈ image.config :: image.layers,
    ∃ content, HoldsBlob lib.sha256 file entries d.digest content ∧ content.length = d.size.toNat
  only : ∀ entry ∈ entries, (∃ layout, classify entry.name .regular = .layout layout) ∨
    ∃ hex, entry.name = BLOB_PREFIX ++ hex ∧
      SHA256_DIGEST_PREFIX ++ hex ∈ digest :: image.config.digest :: image.layers.map Descriptor.digest

/-- The config that was signed is held, and states the platform that was declared. -/
structure HoldsConfig (lib : Externals) (file : ArchiveFile) (limits : ContentLimits) (entries : List RecordedEntry)
    (declaration : ImageDeclaration) (profile : ConfigProfile) : Prop where
  reads : ∃ content value, HoldsBlob lib.sha256 file entries declaration.configDigest content ∧
    parseDocument lib limits content .config = .ok value ∧ configProfile value limits = .ok profile
  os : profile.os = osName declaration.platform.os
  architecture : profile.architecture = architectureName declaration.platform.architecture
  variant : profile.variant = declaration.platform.variant

/-- What an accepted archive holds. -/
structure Accepted (lib : Externals) (file : ArchiveFile) (declaration : ImageDeclaration) (limits : ContentLimits)
    (accepted : ValidatedImageArchive) : Prop where
  order : InOrder accepted.entries file.bytes.length
  config : accepted.configDigest = declaration.configDigest
  /-- The manifest names the config that was signed, and is the one this config determines. -/
  image : ∃ stored image profile layers,
    HoldsImage lib file limits accepted.entries accepted.manifestDigest stored image ∧
    HoldsConfig lib file limits accepted.entries declaration profile ∧ image.config.digest = declaration.configDigest ∧
    image.layers.length = accepted.layerCount ∧ layers.map Prod.fst = profile.diffIds ∧
    stored = renderManifest declaration.configDigest image.config.size layers

section Blobs
variable {τ : Type} {tools : Tools τ} {file : ArchiveFile} {limits : ContentLimits} {inventory : Inventory} {blob : Blob}

theorem mem_of_lookup {β : Type} {pairs : List (String × β)} {key : String} {b : β} (h : pairs.lookup key = some b) :
    (key, b) ∈ pairs := by
  induction pairs with
  | nil => cases h
  | cons pair rest ih =>
    rw [List.lookup_cons] at h
    split at h
    next hkey =>
      obtain rfl := eq_of_beq hkey
      cases h
      exact List.mem_cons_self
    · exact List.mem_cons_of_mem _ (ih h)

/-- A recorded blob that hashes to the digest a descriptor names. -/
structure Found (inventory : Inventory) (d : Descriptor) (blob : Blob) : Prop where
  lookup : inventory.blobs.lookup (hexOf d) = some blob
  sha256 : blob.sha256 = hexOf d

theorem Found.holds {sha256 : Bytes → Bytes} {d : Descriptor} (h : Found inventory d blob)
    (hsound : inventory.Sound sha256 file.bytes) (hdigest : isDigest d.digest = true) :
    HoldsBlob sha256 file inventory.entries d.digest (slice file.bytes blob.span.offset blob.span.len) ∧
      (slice file.bytes blob.span.offset blob.span.len).length = blob.span.len := by
  obtain ⟨entry, hmem, hstrip, -, hspan, hsha⟩ := hsound.blobs _ (mem_of_lookup h.lookup)
  have hwithin : blob.span.offset + blob.span.len ≤ file.bytes.length := by
    rw [← hspan]
    exact hsound.order.within entry hmem
  refine ⟨⟨hexOf d, digest_eq hdigest, h.sha256.symm.trans hsha, entry, hmem, eq_of_stripBlob hstrip, ?_⟩, length_slice _ hwithin⟩
  rw [← hspan]
  rfl

theorem checkBlob_ok {d : Descriptor} {role : BlobRole} (h : checkBlob blob d role = .ok ()) :
    blob.span.len = d.size.toNat ∧ blob.sha256 = hexOf d := by
  obtain ⟨hlen, h⟩ := unrefused h
  obtain ⟨hsha, -⟩ := unrefused h
  exact ⟨not_not.mp hlen, not_not.mp hsha⟩

theorem readBytes_ok {total total' : Budget} {span : Span} {document : ImageDocument} {bytes : Bytes}
    (h : readBytes tools file limits total span document = .ok (bytes, total')) :
    bytes = slice file.bytes span.offset span.len := by
  unfold readBytes readBounded at h
  rcases hread : readBoundedFrom tools.grants ByteStream.answers (max (limits.resourceLimit .copyBuffer).max 1) (span.len + 2)
    (.ofSource (range file span) (limits.resourceLimit document.limit) [total] (max (limits.resourceLimit .copyBuffer).max 1))
    [] with ⟨outcome, reader⟩
  rw [hread] at h
  dsimp only at h
  split at h
  · cases h
  · cases h
  · cases h
    exact readBoundedFrom_stream (CountingReader.fresh_ofSource ..) (CountingReader.standsAt_start ⟨rfl, rfl⟩) hread

theorem readDocument_ok {total total' : Budget} {span : Span} {document : ImageDocument} {value : Value}
    (h : readDocument tools file limits total span document = .ok (value, total')) :
    parseDocument tools.lib limits (slice file.bytes span.offset span.len) document = .ok value := by
  obtain ⟨⟨bytes, total₁⟩, hread, h⟩ := Checks.bind_ok h
  obtain ⟨value', hvalue, h⟩ := Checks.bind_ok h
  cases h
  rw [← readBytes_ok hread]
  exact judged_ok hvalue

/-! ### The phases -/

theorem documents_ok {docs : Documents} {total : Budget} (h : documents tools file limits inventory = .ok (docs, total)) :
    isDigest docs.named.digest = true ∧
      (∃ blob, Found inventory docs.named blob ∧ docs.manifestBytes = slice file.bytes blob.span.offset blob.span.len) ∧
      ∃ value, parseDocument tools.lib limits docs.manifestBytes .imageManifest = .ok value ∧
        imageManifest value limits = .ok docs.manifest := by
  obtain ⟨⟨value, total₁⟩, -, h⟩ := Checks.bind_ok h
  obtain ⟨_, -, h⟩ := Checks.bind_ok h
  obtain ⟨⟨value, total₂⟩, -, h⟩ := Checks.bind_ok h
  obtain ⟨descriptors, hindex, h⟩ := Checks.bind_ok h
  obtain ⟨⟨value, total₃⟩, -, h⟩ := Checks.bind_ok h
  obtain ⟨record, -, h⟩ := Checks.bind_ok h
  dsimp only at h
  split at h
  · cases h
  next named hnamed =>
    split at h
    · cases h
    next blob hlookup =>
      obtain ⟨_, hblob, h⟩ := Checks.bind_ok h
      obtain ⟨⟨manifestBytes, total₄⟩, hread, h⟩ := Checks.bind_ok h
      obtain ⟨value, hvalue, h⟩ := Checks.bind_ok h
      obtain ⟨image, himage, h⟩ := Checks.bind_ok h
      cases h
      exact ⟨isDigest_of_index hindex _ (List.mem_of_mem_head? hnamed), ⟨blob, ⟨hlookup, (checkBlob_ok hblob).2⟩, readBytes_ok hread⟩,
        value, judged_ok hvalue, judged_ok himage⟩

theorem firstUses_names {layers rest : List Descriptor} {position : Nat} {uses uses' : List (String × Nat)}
    (h : firstUses layers position rest uses = some uses') :
    ∀ use ∈ uses', use ∈ uses ∨ ∃ layer ∈ rest, use.1 = hexOf layer := by
  induction rest generalizing position uses with
  | nil =>
    cases h
    exact fun use hmem => .inl hmem
  | cons layer rest ih =>
    have hbehind {use : String × Nat} : (∃ layer ∈ rest, use.1 = hexOf layer) → ∃ other ∈ layer :: rest, use.1 = hexOf other :=
      fun ⟨other, hmem, hname⟩ => ⟨other, List.mem_cons_of_mem _ hmem, hname⟩
    unfold firstUses at h
    split at h
    · split at h
      · exact fun use hmem => (ih h use hmem).imp_right hbehind
      · cases h
    · intro use hmem
      rcases ih h use hmem with hused | hrest
      · rcases List.mem_append.mp hused with hused | hnew
        · exact .inl hused
        · rw [List.mem_singleton.mp hnew]
          exact .inr ⟨layer, List.mem_cons_self, rfl⟩
      · exact .inr (hbehind hrest)

theorem compatibilityLinks_ok {blobs : List (String × Blob)} {manifest : Descriptor} {record : Compatibility}
    {image : ImageManifest} (h : compatibilityLinks blobs manifest record image = .ok blob) :
    record.layers = image.layers.map blobPath ∧ blobs.lookup (hexOf image.config) = some blob ∧
      ∀ blob ∈ blobs, ∃ d ∈ manifest :: image.config :: image.layers, blob.1 = hexOf d := by
  obtain ⟨-, h⟩ := unrefused h
  obtain ⟨hlayers, h⟩ := unrefused h
  split at h
  · cases h
  next uses huses =>
  split at h
  · cases h
  next config hlookup =>
  split at h
  · cases h
  obtain ⟨hnamed, h⟩ := unrefused h
  cases h
  refine ⟨not_not.mp hlayers, hlookup, fun blob hmem => ?_⟩
  have hmem : blob.1 ∈ uses.map Prod.fst ++ [hexOf manifest, hexOf image.config] := by
    by_contra hout
    exact hnamed (List.any_eq_true.mpr ⟨blob, hmem, by simpa using hout⟩)
  rcases List.mem_append.mp hmem with hused | hmem
  · obtain ⟨use, huse, hname⟩ := List.mem_map.mp hused
    rcases firstUses_names huses use huse with hnone | ⟨layer, hlayer, hhex⟩
    · cases hnone
    · exact ⟨layer, List.mem_cons_of_mem _ (List.mem_cons_of_mem _ hlayer), hname ▸ hhex⟩
  · rcases List.mem_pair.mp hmem with hname | hname
    · exact ⟨manifest, List.mem_cons_self, hname⟩
    · exact ⟨image.config, List.mem_cons_of_mem _ List.mem_cons_self, hname⟩

theorem config_ok {total total' : Budget} {d : Descriptor} {declaration : ImageDeclaration} {profile : ConfigProfile}
    (h : config tools file limits total blob d declaration = .ok (profile, total')) :
    SHA256_DIGEST_PREFIX ++ blob.sha256 = declaration.configDigest ∧ (blob.span.len = d.size.toNat ∧ blob.sha256 = hexOf d) ∧
      ∃ value, parseDocument tools.lib limits (slice file.bytes blob.span.offset blob.span.len) .config = .ok value ∧
        configProfile value limits = .ok profile := by
  obtain ⟨hdeclared, h⟩ := unrefused h
  obtain ⟨_, hblob, h⟩ := Checks.bind_ok h
  obtain ⟨⟨value, total₁⟩, hread, h⟩ := Checks.bind_ok h
  obtain ⟨profile', hprofile, h⟩ := Checks.bind_ok h
  cases h
  exact ⟨not_not.mp hdeclared, checkBlob_ok hblob, value, readDocument_ok hread, hprofile⟩

theorem comparePlatform_ok {location : PlatformLocation} {os architecture : String} {variant : Option String}
    {declared : ImagePlatform} (h : comparePlatform location os architecture variant declared = .ok ()) :
    os = osName declared.os ∧ architecture = architectureName declared.architecture ∧ variant = declared.variant := by
  obtain ⟨hos, h⟩ := unrefused h
  obtain ⟨harchitecture, h⟩ := unrefused h
  obtain ⟨hvariant, -⟩ := unrefused h
  exact ⟨not_not.mp hos, not_not.mp harchitecture, not_not.mp hvariant⟩

theorem storedLayers_ok {blobs : List (String × Blob)} {diffIds : List String} {layers : List (String × UInt64)}
    (h : storedLayers blobs diffIds = some layers) : layers.map Prod.fst = diffIds := by
  induction diffIds generalizing layers with
  | nil =>
    cases h
    rfl
  | cons diffId diffIds ih =>
    obtain ⟨hex, -, h⟩ := Option.bind_eq_some_iff.mp h
    obtain ⟨blob, -, h⟩ := Option.bind_eq_some_iff.mp h
    obtain ⟨layers', hlayers, h⟩ := Option.bind_eq_some_iff.mp h
    cases h
    rw [List.map_cons, ih hlayers]

/-- The stored manifest is the one its config and the diff IDs determine. -/
theorem canonicalManifest_ok {reserve : Nat → Bool} {blobs : List (String × Blob)} {diffIds : List String} {stored : Bytes}
    (h : canonicalManifest reserve blobs blob diffIds stored = .ok ()) : ∃ layers, layers.map Prod.fst = diffIds ∧
      stored = renderManifest (SHA256_DIGEST_PREFIX ++ blob.sha256) (UInt64.ofNat blob.span.len) layers := by
  unfold canonicalManifest at h
  split at h
  · cases h
  next layers hlayers =>
    split at h
    · cases h
    next canonical hcanonical =>
      split at h
      next hstored =>
        obtain ⟨-, -, hrendered⟩ := canonicalImageManifest_ok hcanonical
        exact ⟨layers, storedLayers_ok hlayers, hstored.trans hrendered⟩
      · cases h

/-- Every layer that was decoded is a recorded blob. -/
theorem layersFrom_ok {position : Nat} {layers : List (Descriptor × String)} {budgets : LayerBudgets} {operation left : Budget}
    (h : layersFrom tools file limits inventory.blobs position layers budgets operation = .ok left) :
    ∀ layer ∈ layers, ∃ blob, Found inventory layer.1 blob ∧ blob.span.len = layer.1.size.toNat := by
  induction layers generalizing position budgets operation with
  | nil => exact nofun
  | cons layer rest ih =>
    obtain ⟨d, diffId⟩ := layer
    unfold layersFrom at h
    split at h
    · cases h
    next blob hlookup =>
      split at h
      · cases h
      next hlen =>
        split at h
        · cases h
        next hsha =>
          obtain ⟨⟨digest, budgets', operation'⟩, -, h⟩ := Checks.bind_ok h
          dsimp only at h
          split at h
          · cases h
          · exact List.forall_mem_cons.mpr ⟨⟨blob, ⟨hlookup, not_not.mp hsha⟩, not_not.mp hlen⟩, ih h⟩

theorem layers_ok {descriptors : List Descriptor} {paths diffIds : List String} {operation left : Budget}
    (hpaths : paths = descriptors.map blobPath)
    (h : layers tools file limits inventory.blobs descriptors paths diffIds operation = .ok left) :
    ∀ layer ∈ descriptors, ∃ blob, Found inventory layer blob ∧ blob.span.len = layer.size.toNat := by
  unfold layers at h
  split at h
  · cases h
  next hcount =>
    have hlength : descriptors.length = diffIds.length := by
      rw [← not_not.mp hcount, hpaths, List.length_map]
    intro layer hmem
    rw [← List.map_fst_zip hlength.le] at hmem
    obtain ⟨pair, hpair, rfl⟩ := List.mem_map.mp hmem
    exact layersFrom_ok h pair hpair

theorem isDigest_of_documents {docs : Documents} {total : Budget}
    (h : documents tools file limits inventory = .ok (docs, total)) :
    ∀ d ∈ docs.named :: docs.manifest.config :: docs.manifest.layers, isDigest d.digest = true := by
  obtain ⟨hnamed, -, _, -, himage⟩ := documents_ok h
  obtain ⟨hconfig, hlayers⟩ := isDigest_of_imageManifest himage
  exact List.forall_mem_cons.mpr ⟨hnamed, List.forall_mem_cons.mpr ⟨hconfig, hlayers⟩⟩

/-- Documents that agree with the stored blobs are those of an image that is held. -/
theorem holdsImage {docs : Documents} {total : Budget} {configBlob : Blob} (hsound : inventory.Sound tools.lib.sha256 file.bytes)
    (hdocs : documents tools file limits inventory = .ok (docs, total))
    (hlinks : compatibilityLinks inventory.blobs docs.named docs.record docs.manifest = .ok configBlob)
    (hconfig : Found inventory docs.manifest.config configBlob ∧ configBlob.span.len = docs.manifest.config.size.toNat)
    (hlayers : ∀ layer ∈ docs.manifest.layers, ∃ blob, Found inventory layer blob ∧ blob.span.len = layer.size.toNat) :
    HoldsImage tools.lib file limits inventory.entries docs.named.digest docs.manifestBytes docs.manifest := by
  obtain ⟨hnamed, ⟨blob, hfound, hbytes⟩, hreads⟩ := documents_ok hdocs
  obtain ⟨-, -, honly⟩ := compatibilityLinks_ok hlinks
  have hdigests := isDigest_of_documents hdocs
  refine ⟨?_, hreads, fun d hmem => ?_, fun entry hmem => (hsound.listed entry hmem).imp_right ?_⟩
  · rw [hbytes]
    exact (hfound.holds hsound hnamed).1
  · obtain ⟨blob, hfound, hsize⟩ : ∃ blob, Found inventory d blob ∧ blob.span.len = d.size.toNat := by
      rcases List.mem_cons.mp hmem with rfl | hmem
      · exact ⟨configBlob, hconfig⟩
      · exact hlayers d hmem
    obtain ⟨hholds, hlength⟩ := hfound.holds hsound (hdigests d (List.mem_cons_of_mem _ hmem))
    exact ⟨_, hholds, hlength.trans hsize⟩
  · rintro ⟨blob, hblob, hstrip⟩
    obtain ⟨d, hd, hhex⟩ := honly blob hblob
    refine ⟨blob.1, eq_of_stripBlob hstrip, ?_⟩
    rw [hhex, ← digest_eq (hdigests d hd)]
    exact List.mem_map_of_mem (f := Descriptor.digest) hd

/-- What is accepted holds what was declared, and what its own manifest names. -/
theorem validate_accepted {declaration : ImageDeclaration} {operation left : Budget} {accepted : ValidatedImageArchive}
    (h : validate tools file declaration limits operation = .ok (accepted, left)) :
    Accepted tools.lib file declaration limits accepted := by
  obtain ⟨inventory, hinventory, h⟩ := Checks.bind_ok h
  have hsound := rawInventory_sound hinventory
  obtain ⟨⟨docs, total⟩, hdocs, h⟩ := Checks.bind_ok h
  obtain ⟨configBlob, hlinks, h⟩ := Checks.bind_ok h
  obtain ⟨_, -, h⟩ := Checks.bind_ok h
  obtain ⟨_, -, h⟩ := Checks.bind_ok h
  obtain ⟨⟨profile, total'⟩, hconfig, h⟩ := Checks.bind_ok h
  obtain ⟨_, hplatforms, h⟩ := Checks.bind_ok h
  obtain ⟨_, hcanonical, h⟩ := Checks.bind_ok h
  obtain ⟨operation', hlayers, h⟩ := Checks.bind_ok h
  obtain ⟨_, -, h⟩ := Checks.bind_ok h
  cases h
  obtain ⟨hpaths, hlookup, -⟩ := compatibilityLinks_ok hlinks
  obtain ⟨hdeclared, ⟨hlen, hsha⟩, value, hvalue, hprofile⟩ := config_ok hconfig
  obtain ⟨_, hplatform, -⟩ := Checks.bind_ok hplatforms
  obtain ⟨hos, harchitecture, hvariant⟩ := comparePlatform_ok hplatform
  obtain ⟨layers, hdiffIds, hcanonical⟩ := canonicalManifest_ok hcanonical
  have hfound : Found inventory docs.manifest.config configBlob := ⟨hlookup, hsha⟩
  have hdigits := isDigest_of_documents hdocs _ (List.mem_cons_of_mem _ List.mem_cons_self)
  have hconfigDigest : docs.manifest.config.digest = declaration.configDigest := by
    rw [digest_eq hdigits, ← hsha, hdeclared]
  have hholds := (hfound.holds hsound hdigits).1
  rw [hconfigDigest] at hholds
  refine ⟨hsound.order, hdeclared, docs.manifestBytes, docs.manifest, profile, layers,
    holdsImage hsound hdocs hlinks ⟨hfound, hlen⟩ (layers_ok hpaths hlayers),
    ⟨⟨_, value, hholds, hvalue, hprofile⟩, hos, harchitecture, hvariant⟩, hconfigDigest, rfl, hdiffIds, ?_⟩
  rw [hcanonical, hdeclared, hlen, UInt64.ofNat_toNat]

theorem rawInventory_plain {sha256 : Bytes → Bytes} (h : compressed file.bytes = false) :
    rawInventory sha256 file limits = directInventory sha256 file limits := by
  rw [rawInventory_eq, if_neg]
  rw [h]
  exact fun h => Bool.false_ne_true h.2

end Blobs

end DeployCore.ImageArchive
