import DeployCore.Io

/-! # Container errors

The verdicts of the container layer, with the data each carries. The variants the archive layer and the
producer raise belong to those layers. -/

namespace DeployCore

/-- The signature algorithms a container's envelope is made in. -/
inductive SignatureAlgorithm
  | ed25519
  | mlDsa87
  deriving DecidableEq

/-- `PayloadError`, as far as the container layer raises it. -/
inductive PayloadError
  | io (error : IoError)
  | invalidSignatureLength (algorithm : SignatureAlgorithm) (found : Nat)
  | invalidKeyId (algorithm : SignatureAlgorithm) (reason : String)
  | unsupportedContainerFormat (found : UInt8) (supported : List UInt8)
  | truncatedTrailer
  | malformedFooter (reason : String)
  | noTrailer
  deriving DecidableEq

end DeployCore
