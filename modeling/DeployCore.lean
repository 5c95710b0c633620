import DeployCore.Announcement
import DeployCore.AppendTrailer
import DeployCore.ArtifactDiff
import DeployCore.ArtifactSwap
import DeployCore.BoundedWriters
import DeployCore.CanonicalManifest
import DeployCore.ConfigTemplate
import DeployCore.Counting
import DeployCore.DescentCommand
import DeployCore.ElevationVerdict
import DeployCore.ExactLength
import DeployCore.Framing
import DeployCore.GenerationListing
import DeployCore.GenerationServe
import DeployCore.GzipMember
import DeployCore.HandedInput
import DeployCore.ImageAccepted
import DeployCore.ImageNames
import DeployCore.ImageStatements
import DeployCore.ImageTags
import DeployCore.JsonScan
import DeployCore.KeyAcceptance
import DeployCore.LandingCut
import DeployCore.LayerExtensions
import DeployCore.Lib.Base64
import DeployCore.Lib.SystemdLine
import DeployCore.Lib.UnixTree
import DeployCore.MakeDir
import DeployCore.PaxScan
import DeployCore.PemBlocks
import DeployCore.PreparationBinding
import DeployCore.PreparationRecord
import DeployCore.PublishRuns
import DeployCore.PutNatively
import DeployCore.ReadBounded
import DeployCore.ReleaseReaders
import DeployCore.ReleaseResume
import DeployCore.ReleaseRollback
import DeployCore.ReleaseValidator
import DeployCore.RemoteVerdict
import DeployCore.RenderUnit
import DeployCore.Rewrap
import DeployCore.RewrapVerdict
import DeployCore.RoxydActivation
import DeployCore.RsaProduct
import DeployCore.RunIn
import DeployCore.SealedPackage
import DeployCore.SelfUpdateContract
import DeployCore.SemVer
import DeployCore.SettleDescent
import DeployCore.Snapshot
import DeployCore.SpecDigest
import DeployCore.SshLine
import DeployCore.StderrBreach
import DeployCore.TarNumeric
import DeployCore.TrustLineage
import DeployCore.TrustOrder
import DeployCore.TrustSetReader
import DeployCore.UnitDirectives
import DeployCore.UnitLines
import DeployCore.UnitPrivileges
import DeployCore.UnitReader
import DeployCore.VerifyBounded
import DeployCore.WindowVerdict
