import DeployCore.ImageDocuments
import DeployCore.ImageStatements
import DeployCore.JsonParse

/-! # The canonical image manifest

The one manifest an archive may carry for a config, rendered by hand in a buffer of a length computed beforehand, and
what the strict reader and the document's rules make of it. -/

namespace DeployCore
open Json

/-! ## Rendering -/

def MANIFEST_HEAD : String := "\x7b\"schemaVersion\":2,\"mediaType\":"
def CONFIG_KEY : String := ",\"config\":"
def LAYERS_KEY : String := ",\"layers\":["
def MANIFEST_TAIL : String := "]\x7d"

def DESCRIPTOR_MEDIA_TYPE : String := "\x7b\"mediaType\":\""
def DESCRIPTOR_DIGEST : String := "\",\"digest\":\""
def DESCRIPTOR_SIZE : String := "\",\"size\":"
def DESCRIPTOR_TAIL : String := "\x7d"

def MAX_U64_DIGITS : Nat := 20

inductive CanonicalManifestError
  | invalidConfigDigest
  | emptyConfig
  | invalidDiffId (position : Nat)
  | tooLarge
  deriving DecidableEq

/-- The longest a descriptor of the media type can render. -/
def descriptorMaxLen (mediaType : String) : Nat :=
  byteLen DESCRIPTOR_MEDIA_TYPE + byteLen mediaType + byteLen DESCRIPTOR_DIGEST + byteLen SHA256_DIGEST_PREFIX +
    IMAGE_DIGEST_HEX_LEN + byteLen DESCRIPTOR_SIZE + MAX_U64_DIGITS + byteLen DESCRIPTOR_TAIL

def pushDescriptor (mediaType digest : String) (size : UInt64) : Bytes :=
  asBytes DESCRIPTOR_MEDIA_TYPE ++ asBytes mediaType ++ asBytes DESCRIPTOR_DIGEST ++ asBytes digest ++
    asBytes DESCRIPTOR_SIZE ++ Decimal.write size.toNat ++ asBytes DESCRIPTOR_TAIL

/-- The layers from a position on, with one comma ahead of each but the first. -/
def pushLayers : Nat → List (String × UInt64) → Bytes
  | _, [] => []
  | position, (diffId, size) :: layers =>
    (if position > 0 then [44] else []) ++ pushDescriptor OCI_LAYER_MEDIA_TYPE diffId size ++
      pushLayers (position + 1) layers

/-- `usize::checked_add`, and below `usize::checked_mul`. -/
def usizeAdd (a b : Nat) : Option Nat :=
  if a + b ≤ U64_MAX then some (a + b) else none

def usizeMul (a b : Nat) : Option Nat :=
  if a * b ≤ U64_MAX then some (a * b) else none

/-- The length reserved for a manifest with that many layers. -/
def manifestCapacity (layers : Nat) : Option Nat := do
  let fixed := [byteLen MANIFEST_HEAD + byteLen OCI_MANIFEST_MEDIA_TYPE + 2, byteLen CONFIG_KEY,
    descriptorMaxLen OCI_CONFIG_MEDIA_TYPE, byteLen LAYERS_KEY, byteLen MANIFEST_TAIL].foldlM usizeAdd 0
  let perLayer ← usizeAdd (descriptorMaxLen OCI_LAYER_MEDIA_TYPE) 1
  let layers ← usizeMul perLayer layers
  let fixed ← fixed
  usizeAdd layers fixed

/-- What is pushed into the buffer. -/
def renderManifest (configDigest : String) (configSize : UInt64) (layers : List (String × UInt64)) : Bytes :=
  asBytes MANIFEST_HEAD ++ [34] ++ asBytes OCI_MANIFEST_MEDIA_TYPE ++ [34] ++ asBytes CONFIG_KEY ++
    pushDescriptor OCI_CONFIG_MEDIA_TYPE configDigest configSize ++ asBytes LAYERS_KEY ++ pushLayers 0 layers ++
    asBytes MANIFEST_TAIL

/-- `reserve` is whether the allocator grants that many bytes. -/
def canonicalImageManifest (reserve : Nat → Bool) (configDigest : String) (configSize : UInt64)
    (layers : List (String × UInt64)) : Except CanonicalManifestError Bytes :=
  if !isDigest configDigest then .error .invalidConfigDigest
  else if configSize = 0 then .error .emptyConfig
  else
    match layers.findIdx? fun layer => !isDigest layer.1 with
    | some position => .error (.invalidDiffId position)
    | none =>
      match manifestCapacity layers.length with
      | none => .error .tooLarge
      | some capacity =>
        if reserve capacity then .ok (renderManifest configDigest configSize layers) else .error .tooLarge

/-! ## Reading a document -/

def ImageDocument.limit : ImageDocument → LimitResource
  | ociLayout => .ociLayout
  | index => .indexJson
  | compatibilityManifest => .compatibilityJson
  | imageManifest => .imageManifestJson
  | config => .configJson

/-- `DocumentReader::parse`. -/
def parseDocument (lib : Externals) (limits : ContentLimits) (bytes : Bytes) (document : ImageDocument) :
    Except ArchiveVerdict Value :=
  (parseJson lib bytes (limits.resourceLimit document.limit) (limits.resourceLimit .jsonDepth)).mapError
    (convert · (.document document))

/-! ## The document that is rendered -/

def descriptorValue (mediaType digest : String) (size : UInt64) : Value :=
  .obj [("mediaType", .str mediaType), ("digest", .str digest), ("size", .num (.posInt size))]

def manifestValue (configDigest : String) (configSize : UInt64) (layers : List (String × UInt64)) : Value :=
  .obj [("schemaVersion", .num (.posInt 2)), ("mediaType", .str OCI_MANIFEST_MEDIA_TYPE),
    ("config", descriptorValue OCI_CONFIG_MEDIA_TYPE configDigest configSize),
    ("layers", .arr (layers.map fun layer => descriptorValue OCI_LAYER_MEDIA_TYPE layer.1 layer.2))]

section Digests
variable {digest : String}

theorem unescaped_of_lowerHex {c : Char} (h : isLowerHexDigit c = true) : JsonText.unescaped c = true := by
  simp only [isLowerHexDigit, isAsciiDigit, Bool.or_eq_true, Bool.and_eq_true, decide_eq_true_eq] at h
  have hlow : 0x30 ≤ c.toNat := by
    rcases h with h | h
    · exact h.1
    · exact Nat.le_trans (by decide : 0x30 ≤ 'a'.toNat) h.1
  have hquote : c ≠ '"' := by rintro rfl; exact absurd hlow (by decide)
  have hbackslash : c ≠ '\\' := by rintro rfl; exact absurd h (by decide)
  simp [JsonText.unescaped, hquote, hbackslash, Nat.le_trans (by decide : 0x20 ≤ 0x30) hlow]

/-- A digest is written as it stands, and all are of one length. -/
theorem isDigest_chars (h : isDigest digest = true) : (∀ c ∈ digest.toList, JsonText.unescaped c = true) ∧
    (asBytes digest).length = byteLen SHA256_DIGEST_PREFIX + IMAGE_DIGEST_HEX_LEN := by
  unfold isDigest at h
  split at h
  case h_2 => cases h
  case h_1 hex hstrip =>
    rw [Bool.and_eq_true, beq_iff_eq, isLowerHex, String.toList_ofList, List.all_eq_true] at h
    have hsplit := eq_append_of_stripPrefix hstrip
    constructor
    · rw [hsplit]
      refine List.forall_mem_append.mpr ⟨forall_mem_of_all (by decide +kernel), fun c hc => unescaped_of_lowerHex (h.2 c hc)⟩
    · rw [asBytes_eq_encode, hsplit, Utf8.encode_append, List.length_append, ← h.1, byteLen, byteLen, asBytes_eq_encode,
        asBytes_eq_encode, String.toList_ofList]

end Digests

/-- The texts pushed are the punctuation and keys of the compact document. -/
theorem pushed_texts :
    asBytes MANIFEST_HEAD ++ [34] ++ asBytes OCI_MANIFEST_MEDIA_TYPE ++ [34] ++ asBytes CONFIG_KEY =
      123 :: (writeString "schemaVersion" ++ 58 :: (Decimal.write 2 ++ 44 :: (writeString "mediaType" ++
        58 :: (writeString OCI_MANIFEST_MEDIA_TYPE ++ 44 :: (writeString "config" ++ [58]))))) ∧
    (∀ mediaType ∈ [OCI_CONFIG_MEDIA_TYPE, OCI_LAYER_MEDIA_TYPE],
      asBytes DESCRIPTOR_MEDIA_TYPE ++ asBytes mediaType ++ asBytes DESCRIPTOR_DIGEST =
        123 :: (writeString "mediaType" ++ 58 :: (writeString mediaType ++ 44 :: (writeString "digest" ++ [58, 34])))) ∧
    asBytes DESCRIPTOR_SIZE = 34 :: 44 :: (writeString "size" ++ [58]) ∧ asBytes DESCRIPTOR_TAIL = [125] ∧
    asBytes LAYERS_KEY = 44 :: (writeString "layers" ++ [58, 91]) ∧ asBytes MANIFEST_TAIL = [93, 125] := by
  decide +kernel

section Render
variable {mediaType digest configDigest : String} {size configSize : UInt64} {layers : List (String × UInt64)}

theorem pushDescriptor_eq (hmediaType : mediaType ∈ [OCI_CONFIG_MEDIA_TYPE, OCI_LAYER_MEDIA_TYPE])
    (hdigest : isDigest digest = true) : pushDescriptor mediaType digest size = compact (descriptorValue mediaType digest size) := by
  obtain ⟨-, hhead, hsize, htail, -, -⟩ := pushed_texts
  have hstring : writeString digest = 34 :: asBytes digest ++ [34] := by
    rw [writeString_unescaped (isDigest_chars hdigest).1, asBytes_eq_encode]
  rw [pushDescriptor, hhead mediaType hmediaType, hsize, htail, compact, descriptorValue]
  simp [Value.write, writeMembers, Number.write, hstring]

theorem pushLayers_succ {n : Nat} (hlayers : ∀ layer ∈ layers, isDigest layer.1 = true) :
    pushLayers (n + 1) layers ++ [93] = writeItems (fun _ => [])
      (layers.map fun layer => descriptorValue OCI_LAYER_MEDIA_TYPE layer.1 layer.2) := by
  induction layers generalizing n with
  | nil => rw [List.map_nil, writeItems, pushLayers, List.nil_append]
  | cons layer layers ih =>
    obtain ⟨hlayer, hlayers⟩ := List.forall_mem_cons.mp hlayers
    rw [pushLayers, if_pos (Nat.succ_pos n), List.append_assoc, ih hlayers, pushDescriptor_eq (.tail _ (.head _)) hlayer,
      List.map_cons, writeItems, compact]
    simp

theorem pushLayers_zero (hlayers : ∀ layer ∈ layers, isDigest layer.1 = true) : 91 :: pushLayers 0 layers ++ [93] =
    compact (.arr (layers.map fun layer => descriptorValue OCI_LAYER_MEDIA_TYPE layer.1 layer.2)) := by
  rcases layers with _ | ⟨layer, layers⟩
  · rw [List.map_nil, compact, Value.write]
    rfl
  · obtain ⟨hlayer, hlayers⟩ := List.forall_mem_cons.mp hlayers
    rw [pushLayers, if_neg (Nat.lt_irrefl 0), List.nil_append, List.cons_append, List.append_assoc, pushLayers_succ hlayers,
      pushDescriptor_eq (.tail _ (.head _)) hlayer, List.map_cons, compact, compact, Value.write]

theorem renderManifest_eq (hconfig : isDigest configDigest = true) (hlayers : ∀ layer ∈ layers, isDigest layer.1 = true) :
    renderManifest configDigest configSize layers = compact (manifestValue configDigest configSize layers) := by
  obtain ⟨hhead, -, -, -, hlayersKey, htail⟩ := pushed_texts
  have hitems := pushLayers_zero hlayers
  have harray : Value.write (fun _ => []) (.arr (layers.map fun layer => descriptorValue OCI_LAYER_MEDIA_TYPE layer.1 layer.2)) =
      91 :: (pushLayers 0 layers ++ [93]) := hitems.symm
  have hdescriptor : Value.write (fun _ => []) (descriptorValue OCI_CONFIG_MEDIA_TYPE configDigest configSize) =
      pushDescriptor OCI_CONFIG_MEDIA_TYPE configDigest configSize := (pushDescriptor_eq (.head _) hconfig).symm
  have hversion : Number.write (fun _ => []) (.posInt 2) = Decimal.write 2 := rfl
  rw [renderManifest, hhead, hlayersKey, htail, compact, manifestValue]
  simp [Value.write, writeMembers, harray, hdescriptor, hversion]

theorem descriptorValue_integral : (descriptorValue mediaType digest size).integral = true := rfl

theorem descriptorValue_fits : (descriptorValue mediaType digest size).fits 1 = true := rfl

theorem manifestValue_integral : (manifestValue configDigest configSize layers).integral = true := by
  have hitems : itemsIntegral (layers.map fun layer => descriptorValue OCI_LAYER_MEDIA_TYPE layer.1 layer.2) = true := by
    induction layers with
    | nil => rfl
    | cons layer layers ih => rw [List.map_cons, itemsIntegral, descriptorValue_integral, ih, Bool.and_self]
  rw [manifestValue]
  simp [Value.integral, membersIntegral, Number.isInt, descriptorValue_integral, hitems]

theorem manifestValue_fits : (manifestValue configDigest configSize layers).fits 3 = true := by
  have hitems : itemsFit (layers.map fun layer => descriptorValue OCI_LAYER_MEDIA_TYPE layer.1 layer.2) 1 = true := by
    induction layers with
    | nil => rfl
    | cons layer layers ih => rw [List.map_cons, itemsFit, descriptorValue_fits, ih, Bool.and_self]
  have hconfig : (descriptorValue OCI_CONFIG_MEDIA_TYPE configDigest configSize).fits 2 = true := rfl
  rw [manifestValue]
  simp [Value.fits, membersFit, hitems, hconfig]

/-! ### The length -/

theorem length_writeSize : (Decimal.write size.toNat).length ≤ MAX_U64_DIGITS :=
  (Decimal.length_write_le_iff (by decide)).mpr (Nat.lt_trans size.toNat_lt (by decide))

theorem length_pushDescriptor (hdigest : isDigest digest = true) :
    (pushDescriptor mediaType digest size).length ≤ descriptorMaxLen mediaType := by
  have hlength := (isDigest_chars hdigest).2
  have hsize : (Decimal.write size.toNat).length ≤ MAX_U64_DIGITS := length_writeSize
  simp only [pushDescriptor, List.length_append, descriptorMaxLen, byteLen] at *
  omega

theorem length_pushLayers {n : Nat} (hlayers : ∀ layer ∈ layers, isDigest layer.1 = true) :
    (pushLayers n layers).length ≤ (descriptorMaxLen OCI_LAYER_MEDIA_TYPE + 1) * layers.length := by
  induction layers generalizing n with
  | nil => exact Nat.zero_le _
  | cons layer layers ih =>
    obtain ⟨hlayer, hlayers⟩ := List.forall_mem_cons.mp hlayers
    have hdescriptor : (pushDescriptor OCI_LAYER_MEDIA_TYPE layer.1 layer.2).length ≤ descriptorMaxLen OCI_LAYER_MEDIA_TYPE :=
      length_pushDescriptor hlayer
    have hrest := ih hlayers (n := n + 1)
    have hcomma : (if n > 0 then [44] else ([] : Bytes)).length ≤ 1 := by split <;> decide
    rw [pushLayers, List.length_append, List.length_append, List.length_cons, Nat.mul_succ]
    omega

/-- What is reserved is what the fixed parts and the layers may take. -/
theorem manifestCapacity_eq {n capacity : Nat} (h : manifestCapacity n = some capacity) :
    capacity = (descriptorMaxLen OCI_LAYER_MEDIA_TYPE + 1) * n + (byteLen MANIFEST_HEAD + byteLen OCI_MANIFEST_MEDIA_TYPE + 2 +
      byteLen CONFIG_KEY + descriptorMaxLen OCI_CONFIG_MEDIA_TYPE + byteLen LAYERS_KEY + byteLen MANIFEST_TAIL) := by
  have hadd {a b c : Nat} (h : usizeAdd a b = some c) : c = a + b := by
    unfold usizeAdd at h
    split at h
    · exact (Option.some.inj h).symm
    · cases h
  have hmul {a b c : Nat} (h : usizeMul a b = some c) : c = a * b := by
    unfold usizeMul at h
    split at h
    · exact (Option.some.inj h).symm
    · cases h
  simp only [manifestCapacity, List.foldlM_cons, List.foldlM_nil, Option.bind_eq_bind, Option.bind_eq_some_iff,
    Option.pure_def, Option.some.injEq] at h
  obtain ⟨perLayer, hperLayer, product, hproduct, fixed, ⟨a, ha, b, hb, c, hc, d, hd, e, he, rfl⟩, hcapacity⟩ := h
  rw [hadd hcapacity, hmul hproduct, hadd hperLayer, hadd he, hadd hd, hadd hc, hadd hb, hadd ha, Nat.zero_add]

theorem length_renderManifest {capacity : Nat} (hconfig : isDigest configDigest = true)
    (hlayers : ∀ layer ∈ layers, isDigest layer.1 = true) (hcapacity : manifestCapacity layers.length = some capacity) :
    (renderManifest configDigest configSize layers).length ≤ capacity := by
  have hdescriptor : (pushDescriptor OCI_CONFIG_MEDIA_TYPE configDigest configSize).length ≤
      descriptorMaxLen OCI_CONFIG_MEDIA_TYPE := length_pushDescriptor hconfig
  have hpushed := length_pushLayers hlayers (n := 0)
  rw [manifestCapacity_eq hcapacity]
  simp only [renderManifest, List.length_append, List.length_singleton, byteLen] at *
  omega

/-- Every list of layers an image may have has a capacity. -/
theorem exists_manifestCapacity {n : Nat} (h : n ≤ 256) : ∃ capacity, manifestCapacity n = some capacity := by
  have hperLayer : usizeAdd (descriptorMaxLen OCI_LAYER_MEDIA_TYPE) 1 = some 166 := by decide +kernel
  have hfixed : [byteLen MANIFEST_HEAD + byteLen OCI_MANIFEST_MEDIA_TYPE + 2, byteLen CONFIG_KEY,
      descriptorMaxLen OCI_CONFIG_MEDIA_TYPE, byteLen LAYERS_KEY, byteLen MANIFEST_TAIL].foldlM usizeAdd 0 = some 265 := by
    decide +kernel
  have hproduct : usizeMul 166 n = some (166 * n) := if_pos (by rw [U64_MAX]; omega)
  refine ⟨166 * n + 265, ?_⟩
  rw [manifestCapacity, hfixed, hperLayer]
  simp only [Option.bind_eq_bind, Option.bind_some, hproduct]
  exact if_pos (by rw [U64_MAX]; omega)

end Render

/-! ### Reading it back -/

section Maps
variable {members : Json.Members} {allowed : List String}

theorem onlyKeys_fromMembers : onlyKeys (fromMembers members) allowed = onlyKeys members allowed := by
  rw [Bool.eq_iff_iff, onlyKeys, onlyKeys, List.all_eq_true, List.all_eq_true]
  have hkeys (members : Json.Members) : (∀ member ∈ members, allowed.contains member.1 = true) ↔
      ∀ key ∈ members.map Prod.fst, allowed.contains key = true := by
    simp only [List.mem_map, forall_exists_index, and_imp, forall_apply_eq_imp_iff₂]
  rw [hkeys, hkeys]
  simp only [mem_keys_fromMembers]

end Maps

section Reading
variable {mediaType digest configDigest : String} {size configSize : UInt64} {layers : List (String × UInt64)}
  {limits : ContentLimits} {role : Role} {d : ImageDocument}

/-- A descriptor as a generic decode keeps it. -/
def descriptorRead (mediaType digest : String) (size : UInt64) : Value :=
  .obj (fromMembers [("mediaType", .str mediaType), ("digest", .str digest), ("size", .num (.posInt size))])

def manifestRead (configDigest : String) (configSize : UInt64) (layers : List (String × UInt64)) : Value :=
  .obj (fromMembers [("schemaVersion", .num (.posInt 2)), ("mediaType", .str OCI_MANIFEST_MEDIA_TYPE),
    ("config", descriptorRead OCI_CONFIG_MEDIA_TYPE configDigest configSize),
    ("layers", .arr (layers.map fun layer => descriptorRead OCI_LAYER_MEDIA_TYPE layer.1 layer.2))])

theorem toValue_descriptorValue {depth : Nat} (h : 1 < depth) :
    (descriptorValue mediaType digest size).toText.toValue depth = some (descriptorRead mediaType digest size) := by
  rw [descriptorValue]
  simp [Value.toText, membersText, Text.toValue, toMembers, Nat.not_le.mpr h, descriptorRead]

theorem toValue_manifestValue :
    (manifestValue configDigest configSize layers).toText.toValue recursionLimit =
      some (manifestRead configDigest configSize layers) := by
  have hconfig : (descriptorValue OCI_CONFIG_MEDIA_TYPE configDigest configSize).toText.toValue 127 =
      some (descriptorRead OCI_CONFIG_MEDIA_TYPE configDigest configSize) := toValue_descriptorValue (by decide)
  have hitems : toValues (itemsText (layers.map fun layer => descriptorValue OCI_LAYER_MEDIA_TYPE layer.1 layer.2)) 126 =
      some (layers.map fun layer => descriptorRead OCI_LAYER_MEDIA_TYPE layer.1 layer.2) := by
    induction layers with
    | nil => rfl
    | cons layer layers ih =>
      have hlayer : (descriptorValue OCI_LAYER_MEDIA_TYPE layer.1 layer.2).toText.toValue 126 =
          some (descriptorRead OCI_LAYER_MEDIA_TYPE layer.1 layer.2) := toValue_descriptorValue (by decide)
      rw [List.map_cons, itemsText, toValues, hlayer, ih]
      rfl
  rw [manifestValue]
  simp [Value.toText, membersText, Text.toValue, toMembers, recursionLimit, hconfig, hitems, manifestRead]

theorem descriptor_descriptorRead (hrole : ∀ index, role ≠ .indexManifest index)
    (hmediaType : role.checkMediaType mediaType = .ok ()) (hdigest : isDigest digest = true)
    (hsize : size.toNat ≤ (limits.resourceLimit role.sizeLimit).max) :
    descriptor (descriptorRead mediaType digest size) role d limits = .ok ⟨mediaType, digest, size, none, none⟩ := by
  have hlookup (key : String) := @lookup_fromMembers_of_nodup
    [("mediaType", .str mediaType), ("digest", .str digest), ("size", .num (.posInt size))] key (by simp)
  have honly (allowed : List String) := @onlyKeys_fromMembers
    [("mediaType", .str mediaType), ("digest", .str digest), ("size", .num (.posInt size))] allowed
  have hroles : role = .config ∨ ∃ position, role = .layer position := by
    rcases role with index | _ | position
    · exact absurd rfl (hrole index)
    · exact .inl rfl
    · exact .inr ⟨position, rfl⟩
  rw [descriptorRead]
  generalize fromMembers _ = object at hlookup honly
  have hextensions : refuseExtensions object d DESCRIPTOR_EXTENSIONS = .ok () := by
    rw [refuseExtensions, DESCRIPTOR_EXTENSIONS]
    simp +decide [containsKey, hlookup]
  have hkeys : onlyKeys object role.keys = true := by
    rw [honly]
    rcases hroles with rfl | ⟨position, rfl⟩ <;> rfl
  have hmedia : (object.lookup "mediaType").bind Value.asStr = some mediaType := by
    rw [hlookup]
    rfl
  have hread : ((object.lookup "digest").bind Value.asStr).filter isDigest = some digest := by
    rw [hlookup]
    exact Option.filter_eq_some_iff.mpr ⟨rfl, hdigest⟩
  have hcount : (object.lookup "size").bind Value.asU64 = some size := by
    rw [hlookup]
    rfl
  have hplain : containsKey object "annotations" = false := by
    rw [containsKey, hlookup]
    rfl
  have hplatform : object.lookup "platform" = none := by
    rw [hlookup]
    rfl
  rcases hroles with rfl | ⟨position, rfl⟩
  all_goals
    simp only [descriptor, asObject, orShape, bind, Except.bind, hextensions, hplain, hkeys, hmedia, hmediaType, hread,
      hcount, hplatform, descriptorAnnotations, Role.platformLocation, Bool.and_false, Bool.not_true, Bool.false_eq_true,
      if_false, if_neg (Nat.not_lt.mpr hsize), gt_iff_lt]

theorem layerDescriptors_read {n : Nat} (hlayers : ∀ layer ∈ layers, isDigest layer.1 = true)
    (hsizes : ∀ layer ∈ layers, layer.2.toNat ≤ (limits.resourceLimit .storedLayerBlob).max) :
    layerDescriptors d limits n (layers.map fun layer => descriptorRead OCI_LAYER_MEDIA_TYPE layer.1 layer.2) =
      .ok (layers.map fun layer => ⟨OCI_LAYER_MEDIA_TYPE, layer.1, layer.2, none, none⟩) := by
  induction layers generalizing n with
  | nil => rfl
  | cons layer layers ih =>
    obtain ⟨hlayer, hlayers⟩ := List.forall_mem_cons.mp hlayers
    obtain ⟨hsize, hsizes⟩ := List.forall_mem_cons.mp hsizes
    have hread : descriptor (descriptorRead OCI_LAYER_MEDIA_TYPE layer.1 layer.2) (.layer n) d limits =
        .ok ⟨OCI_LAYER_MEDIA_TYPE, layer.1, layer.2, none, none⟩ :=
      descriptor_descriptorRead (fun index h => nomatch h) (by simp [Role.checkMediaType]) hlayer hsize
    rw [List.map_cons, layerDescriptors, hread, Checks.ok_bind, ih hlayers hsizes, Checks.ok_bind, List.map_cons]

/-- What the limits admit: the sizes, the number of layers, and the document that names them. -/
structure WithinLimits (limits : ContentLimits) (configDigest : String) (configSize : UInt64)
    (layers : List (String × UInt64)) : Prop where
  config : configSize.toNat ≤ (limits.resourceLimit .configJson).max
  blobs : ∀ layer ∈ layers, layer.2.toNat ≤ (limits.resourceLimit .storedLayerBlob).max
  count : layers.length ≤ (limits.resourceLimit .layersPerImage).max
  document : (renderManifest configDigest configSize layers).length ≤ (limits.resourceLimit .imageManifestJson).max
  depth : 3 ≤ (limits.resourceLimit .jsonDepth).max

theorem imageManifest_manifestRead (hconfig : isDigest configDigest = true)
    (hlayers : ∀ layer ∈ layers, isDigest layer.1 = true) (hlimits : WithinLimits limits configDigest configSize layers) :
    imageManifest (manifestRead configDigest configSize layers) limits =
      .ok ⟨⟨OCI_CONFIG_MEDIA_TYPE, configDigest, configSize, none, none⟩,
        layers.map fun layer => ⟨OCI_LAYER_MEDIA_TYPE, layer.1, layer.2, none, none⟩⟩ := by
  have hlookup (key : String) := @lookup_fromMembers_of_nodup [("schemaVersion", .num (.posInt 2)),
    ("mediaType", .str OCI_MANIFEST_MEDIA_TYPE), ("config", descriptorRead OCI_CONFIG_MEDIA_TYPE configDigest configSize),
    ("layers", .arr (layers.map fun layer => descriptorRead OCI_LAYER_MEDIA_TYPE layer.1 layer.2))] key (by simp)
  have honly := @onlyKeys_fromMembers [("schemaVersion", .num (.posInt 2)),
    ("mediaType", .str OCI_MANIFEST_MEDIA_TYPE), ("config", descriptorRead OCI_CONFIG_MEDIA_TYPE configDigest configSize),
    ("layers", .arr (layers.map fun layer => descriptorRead OCI_LAYER_MEDIA_TYPE layer.1 layer.2))]
    ["schemaVersion", "mediaType", "config", "layers", "annotations"]
  rw [manifestRead]
  generalize fromMembers _ = object at hlookup honly
  have hkeys : onlyKeys object ["schemaVersion", "mediaType", "config", "layers", "annotations"] = true := honly
  have hextensions : refuseExtensions object .imageManifest DOCUMENT_EXTENSIONS = .ok () := by
    rw [refuseExtensions, DOCUMENT_EXTENSIONS]
    simp +decide [containsKey, hlookup]
  have hversion : isSchemaVersion (object.lookup "schemaVersion") = true := by
    rw [hlookup]
    rfl
  have hmedia : (object.lookup "mediaType").bind Value.asStr = some OCI_MANIFEST_MEDIA_TYPE := by
    rw [hlookup]
    rfl
  have hread : descriptor ((object.lookup "config").getD .null) .config .imageManifest limits =
      .ok ⟨OCI_CONFIG_MEDIA_TYPE, configDigest, configSize, none, none⟩ := by
    rw [hlookup]
    exact descriptor_descriptorRead (fun index h => nomatch h) (by simp [Role.checkMediaType]) hconfig hlimits.config
  have harray : (object.lookup "layers").bind Value.asArray =
      some (layers.map fun layer => descriptorRead OCI_LAYER_MEDIA_TYPE layer.1 layer.2) := by
    rw [hlookup]
    rfl
  have hcount : checkCount (layers.map fun layer => descriptorRead OCI_LAYER_MEDIA_TYPE layer.1 layer.2).length limits
      .layersPerImage = .ok () := by
    rw [List.length_map]
    exact if_neg (Nat.not_lt.mpr hlimits.count)
  have hrest : layerDescriptors .imageManifest limits 0
      (layers.map fun layer => descriptorRead OCI_LAYER_MEDIA_TYPE layer.1 layer.2) =
        .ok (layers.map fun layer => ⟨OCI_LAYER_MEDIA_TYPE, layer.1, layer.2, none, none⟩) :=
    layerDescriptors_read hlayers hlimits.blobs
  have hannotations : object.lookup "annotations" = none := by
    rw [hlookup]
    rfl
  simp only [imageManifest, asObject, orShape, bind, Except.bind, hextensions, hkeys, hversion, hmedia, hread, harray,
    hcount, hrest, hannotations, Bool.not_true, Bool.false_eq_true, if_false, ne_eq, not_true_eq_false]

theorem text_renderManifest (hconfig : isDigest configDigest = true) (hlayers : ∀ layer ∈ layers, isDigest layer.1 = true) :
    JsonText.Text true 3 (renderManifest configDigest configSize layers) := by
  rw [renderManifest_eq hconfig hlayers]
  have hvalue : JsonText.Value true 3 (compact (manifestValue configDigest configSize layers)) :=
    Value.text_write manifestValue_integral manifestValue_fits
  have htext := @JsonText.Text.mk true 3 [] _ [] JsonText.ws_nil hvalue JsonText.ws_nil
  rwa [List.append_nil, List.nil_append] at htext

theorem parseDocument_renderManifest {lib : Externals} (hreads : ReadsCompact lib (manifestValue configDigest configSize layers))
    (hconfig : isDigest configDigest = true) (hlayers : ∀ layer ∈ layers, isDigest layer.1 = true)
    (hlimits : WithinLimits limits configDigest configSize layers) :
    parseDocument lib limits (renderManifest configDigest configSize layers) .imageManifest =
      .ok (manifestRead configDigest configSize layers) := by
  have htext : JsonText.Text true _ (renderManifest configDigest configSize layers) :=
    (text_renderManifest hconfig hlayers).mono hlimits.depth
  have hread : (lib.readJson (renderManifest configDigest configSize layers)).bind (·.toValue recursionLimit) =
      some (manifestRead configDigest configSize layers) := by
    rw [renderManifest_eq hconfig hlayers, hreads, Option.bind_some, toValue_manifestValue]
  rw [parseDocument, ImageDocument.limit, parseJson_ok hlimits.document htext hread]
  rfl

/-- Equal manifests are rendered of equal configs and layers. -/
theorem renderManifest_inj {configDigest' : String} {configSize' : UInt64} {layers' : List (String × UInt64)}
    (hconfig : isDigest configDigest = true) (hlayers : ∀ layer ∈ layers, isDigest layer.1 = true)
    (hconfig' : isDigest configDigest' = true) (hlayers' : ∀ layer ∈ layers', isDigest layer.1 = true)
    (h : renderManifest configDigest configSize layers = renderManifest configDigest' configSize' layers') :
    configDigest = configDigest' ∧ configSize = configSize' ∧ layers = layers' := by
  rw [renderManifest_eq hconfig hlayers, renderManifest_eq hconfig' hlayers'] at h
  have hvalue := Value.eq_of_write manifestValue_integral manifestValue_integral h
  simp only [manifestValue, descriptorValue, Value.obj.injEq, List.cons.injEq, Prod.mk.injEq, Value.str.injEq,
    Value.num.injEq, Number.posInt.injEq, Value.arr.injEq, true_and, and_true] at hvalue
  obtain ⟨⟨hdigest, hsize⟩, hitems⟩ := hvalue
  refine ⟨hdigest, hsize, List.map_injective_iff.mpr ?_ hitems⟩
  intro layer layer' hlayer
  simpa [Prod.ext_iff] using hlayer

/-- What was rendered was rendered of digests. -/
theorem canonicalImageManifest_ok {reserve : Nat → Bool} {bytes : Bytes}
    (h : canonicalImageManifest reserve configDigest configSize layers = .ok bytes) : isDigest configDigest = true ∧
      (∀ layer ∈ layers, isDigest layer.1 = true) ∧ bytes = renderManifest configDigest configSize layers := by
  unfold canonicalImageManifest at h
  split at h
  · cases h
  next hconfig =>
    split at h
    · cases h
    split at h
    · cases h
    next hposition =>
      split at h
      · cases h
      split at h
      · refine ⟨by simpa using hconfig, ?_, (Except.ok.inj h).symm⟩
        intro layer hlayer
        simpa using List.findIdx?_eq_none_iff.mp hposition layer hlayer
      · cases h

/-- Under the default limits the document of any layers an image may have is admitted. -/
theorem withinLimits_initial (hconfig : isDigest configDigest = true) (hsize : configSize.toNat ≤ 4 * MIB)
    (hlayers : ∀ layer ∈ layers, isDigest layer.1 = true ∧ layer.2.toNat ≤ 16 * GIB) (hcount : layers.length ≤ 256) :
    WithinLimits .initial configDigest configSize layers where
  config := hsize
  blobs layer hlayer := (hlayers layer hlayer).2
  count := hcount
  document := by
    obtain ⟨capacity, hcapacity⟩ := exists_manifestCapacity hcount
    have hlength : (renderManifest configDigest configSize layers).length ≤ capacity :=
      length_renderManifest hconfig (fun layer hlayer => (hlayers layer hlayer).1) hcapacity
    have hmost : capacity ≤ 166 * layers.length + 265 := by
      have hfixed : descriptorMaxLen OCI_LAYER_MEDIA_TYPE + 1 = 166 ∧ byteLen MANIFEST_HEAD +
          byteLen OCI_MANIFEST_MEDIA_TYPE + 2 + byteLen CONFIG_KEY + descriptorMaxLen OCI_CONFIG_MEDIA_TYPE +
          byteLen LAYERS_KEY + byteLen MANIFEST_TAIL = 265 := by decide +kernel
      rw [manifestCapacity_eq hcapacity, hfixed.1, hfixed.2]
    refine Nat.le_trans hlength (Nat.le_trans hmost ?_)
    show _ ≤ 1024 * 1024
    omega
  depth := by decide

theorem canonicalImageManifest_reads {lib : Externals} (hreads : ReadsCompact lib (manifestValue configDigest configSize layers))
    (hconfig : isDigest configDigest = true) (hsize : 0 < configSize) (hlayers : ∀ layer ∈ layers, isDigest layer.1 = true)
    (hlimits : WithinLimits limits configDigest configSize layers) :
    ∃ capacity bytes, manifestCapacity layers.length = some capacity ∧
      (∀ reserve, canonicalImageManifest reserve configDigest configSize layers =
        if reserve capacity then .ok bytes else .error .tooLarge) ∧
      JsonText.Text true 3 bytes ∧ bytes.length ≤ capacity ∧
      (∃ document, parseDocument lib limits bytes .imageManifest = .ok document ∧
        imageManifest document limits = .ok ⟨⟨OCI_CONFIG_MEDIA_TYPE, configDigest, configSize, none, none⟩,
          layers.map fun layer => ⟨OCI_LAYER_MEDIA_TYPE, layer.1, layer.2, none, none⟩⟩) ∧
      ∀ reserve configDigest' configSize' layers',
        canonicalImageManifest reserve configDigest' configSize' layers' = .ok bytes →
          configDigest' = configDigest ∧ configSize' = configSize ∧ layers' = layers := by
  have hcount : layers.length ≤ 256 := Nat.le_trans hlimits.count (limits.get_le .layersPerImage)
  obtain ⟨capacity, hcapacity⟩ := exists_manifestCapacity hcount
  have hne : configSize ≠ 0 := by
    rintro rfl
    exact absurd hsize (by decide)
  have hposition : (layers.findIdx? fun layer => !isDigest layer.1) = none :=
    List.findIdx?_eq_none_iff.mpr fun layer hlayer => by rw [hlayers layer hlayer, Bool.not_true]
  refine ⟨capacity, renderManifest configDigest configSize layers, hcapacity, fun reserve => ?_,
    text_renderManifest hconfig hlayers, length_renderManifest hconfig hlayers hcapacity,
    ⟨_, parseDocument_renderManifest hreads hconfig hlayers hlimits, imageManifest_manifestRead hconfig hlayers hlimits⟩,
    fun reserve configDigest' configSize' layers' h => ?_⟩
  · rw [canonicalImageManifest, hconfig, Bool.not_true, if_neg Bool.false_ne_true, if_neg hne, hposition, hcapacity]
  · obtain ⟨hconfig', hlayers', hbytes⟩ := canonicalImageManifest_ok h
    obtain ⟨rfl, rfl, rfl⟩ := renderManifest_inj hconfig hlayers hconfig' hlayers' hbytes
    exact ⟨rfl, rfl, rfl⟩

end Reading

/-- A digest of one digit. -/
def digestOf (fill : Char) : String := SHA256_DIGEST_PREFIX ++ .ofList (List.replicate IMAGE_DIGEST_HEX_LEN fill)

/-- A reader that knows one manifest. -/
def manifestExternals : Externals where
  readJson _ := some (manifestValue (digestOf 'c') 7 [(digestOf '1', 2048), (digestOf '2', 512)]).toText
  base64Decode _ := none
  sha256 _ := []
  verifies _ _ _ _ := false

theorem canonicalImageManifest_reads_two :
    ∃ capacity bytes, manifestCapacity 2 = some capacity ∧
      (∀ reserve, canonicalImageManifest reserve (digestOf 'c') 7 [(digestOf '1', 2048), (digestOf '2', 512)] =
        if reserve capacity then .ok bytes else .error .tooLarge) ∧
      ∃ document, parseDocument manifestExternals .initial bytes .imageManifest = .ok document := by
  have hdigests : ∀ fill ∈ ['c', '1', '2'], isDigest (digestOf fill) = true := forall_mem_of_all (by decide +kernel)
  have hlayers : ∀ layer ∈ [(digestOf '1', (2048 : UInt64)), (digestOf '2', 512)],
      isDigest layer.1 = true ∧ layer.2.toNat ≤ 16 * GIB := by
    intro layer hlayer
    simp only [List.mem_cons, List.not_mem_nil, or_false] at hlayer
    rcases hlayer with rfl | rfl
    · exact ⟨hdigests '1' (by decide), by decide⟩
    · exact ⟨hdigests '2' (by decide), by decide⟩
  obtain ⟨capacity, bytes, hcapacity, hrender, -, -, ⟨document, hdocument, -⟩, -⟩ :=
    @canonicalImageManifest_reads _ 7 _ .initial manifestExternals rfl
      (hdigests 'c' (by decide)) (by decide) (fun layer hlayer => (hlayers layer hlayer).1)
      (withinLimits_initial (hdigests 'c' (by decide)) (by decide) hlayers (by decide))
  exact ⟨capacity, bytes, hcapacity, hrender, document, hdocument⟩

end DeployCore
