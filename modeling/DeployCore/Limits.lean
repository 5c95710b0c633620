import Mathlib

/-! # Limited resources

The resources a content policy bounds, and the largest value a limit on one can have. -/

namespace DeployCore

def U64_MAX : Nat := 18446744073709551615

inductive LimitResource
  | rawManifest
  | compressedArchive
  | package
  | outerMembers
  | outerUncompressedTotal
  | imageArchive
  | storedLayerBlob
  | decodedLayer
  | decodedLayersPerImage
  | decodedLayersPerOperation
  | gzipHeader
  | imageEntries
  | imagePathBytes
  | layersPerImage
  | tagsPerImage
  | indexJson
  | imageManifestJson
  | compatibilityJson
  | configJson
  | ociLayout
  | imageJsonTotal
  | jsonDepth
  | layerEntries
  | layerPathBytes
  | layerLinkTargetBytes
  | layerExtension
  | layerExtensionTotal
  | retainedDisk
  | copyBuffer
  | zstdWindow
  | preparationRecord
  deriving DecidableEq

end DeployCore
