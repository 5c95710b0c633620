import DeployCore.ContentFault

/-! # Content limits

The finite policy over every limited resource: each value starts at its default and can only be lowered. -/

namespace DeployCore

def KIB : Nat := 1024
def MIB : Nat := 1024 * KIB
def GIB : Nat := 1024 * MIB

def MIN_ZSTD_WINDOW : Nat := 1024

namespace LimitResource

def defaultLimit : LimitResource → Nat
  | rawManifest => 16 * MIB
  | compressedArchive => 64 * GIB
  | package => 64 * GIB + 16 * MIB + 4924
  | outerMembers => 1024
  | outerUncompressedTotal => 128 * GIB
  | imageArchive => 32 * GIB
  | storedLayerBlob => 16 * GIB
  | decodedLayer => 16 * GIB
  | decodedLayersPerImage => 128 * GIB
  | decodedLayersPerOperation => 256 * GIB
  | gzipHeader => 64 * KIB
  | imageEntries => 4096
  | imagePathBytes => 255
  | layersPerImage => 256
  | tagsPerImage => 256
  | indexJson => MIB
  | imageManifestJson => MIB
  | compatibilityJson => MIB
  | configJson => 4 * MIB
  | ociLayout => KIB
  | imageJsonTotal => 16 * MIB
  | jsonDepth => 64
  | layerEntries => 1000000
  | layerPathBytes => 4096
  | layerLinkTargetBytes => 4096
  | layerExtension => 64 * KIB
  | layerExtensionTotal => 64 * MIB
  | retainedDisk => 512 * GIB
  | copyBuffer => MIB
  | zstdWindow => 64 * MIB
  | preparationRecord => 64 * KIB

/-- Whether a zero would leave the resource unable to do any work at all. -/
def refusesZero (resource : LimitResource) : Bool :=
  resource = copyBuffer || resource = jsonDepth || resource = zstdWindow

theorem defaultLimit_le (resource : LimitResource) : resource.defaultLimit ≤ U64_MAX := by
  cases resource <;> decide

theorem defaultLimit_pos (resource : LimitResource) : 0 < resource.defaultLimit := by
  cases resource <;> decide

end LimitResource

inductive ContentLimitsError
  | aboveDefault (resource : LimitResource) (requested default : Nat)
  | zero (resource : LimitResource)
  | belowMinimum (resource : LimitResource) (requested minimum : Nat)
  deriving DecidableEq

/-- The configured value of every resource. -/
structure ContentLimits where
  get : LimitResource → Nat
  get_le : ∀ resource, get resource ≤ resource.defaultLimit
  get_pos : ∀ resource, resource.refusesZero → 0 < get resource

namespace ContentLimits

/-- `ContentLimits::default`. -/
def initial : ContentLimits where
  get := LimitResource.defaultLimit
  get_le _ := le_rfl
  get_pos resource _ := resource.defaultLimit_pos

/-- The value `with_limit` stores: a window is rounded down to a power of two. -/
def stored (resource : LimitResource) (value : Nat) : Nat :=
  if resource = .zstdWindow then 2 ^ value.log2 else value

theorem stored_le {resource : LimitResource} {value : Nat} (h : value ≠ 0) : stored resource value ≤ value := by
  unfold stored
  split
  · exact Nat.log2_self_le h
  · exact le_rfl

theorem stored_pos {resource : LimitResource} {value : Nat} (h : 0 < value) : 0 < stored resource value := by
  unfold stored
  split
  · exact Nat.two_pow_pos _
  · exact h

/-- Sets one resource, up to its default. -/
def withLimit (limits : ContentLimits) (resource : LimitResource) (value : Nat) :
    Except ContentLimitsError ContentLimits :=
  if habove : resource.defaultLimit < value then .error (.aboveDefault resource value resource.defaultLimit)
  else if hzero : value = 0 ∧ resource.refusesZero then .error (.zero resource)
  else if hminimum : resource = .zstdWindow ∧ value < MIN_ZSTD_WINDOW then
    .error (.belowMinimum resource value MIN_ZSTD_WINDOW)
  else
    .ok {
      get := fun other => if other = resource then stored resource value else limits.get other
      get_le := fun other => by
        split
        · next heq =>
          subst heq
          rcases Nat.eq_zero_or_pos value with rfl | hpos
          · unfold stored
            split
            · next hwindow => exact absurd ⟨hwindow, by decide⟩ hminimum
            · exact Nat.zero_le _
          · exact (stored_le hpos.ne').trans (Nat.not_lt.mp habove)
        · exact limits.get_le other
      get_pos := fun other hrefuses => by
        split
        · next heq =>
          subst heq
          exact stored_pos (Nat.pos_of_ne_zero fun h => hzero ⟨h, hrefuses⟩)
        · exact limits.get_pos other hrefuses }

def resourceLimit (limits : ContentLimits) (resource : LimitResource) : ResourceLimit where
  resource
  max := limits.get resource
  max_le := (limits.get_le resource).trans resource.defaultLimit_le

/-- A copy has a buffer. -/
theorem copyBuffer_pos (limits : ContentLimits) : 0 < (limits.resourceLimit .copyBuffer).max :=
  limits.get_pos .copyBuffer rfl

end ContentLimits

end DeployCore
