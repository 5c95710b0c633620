import DeployCore.Extract
import DeployCore.Generation
import DeployCore.Lib.CrashCompose
import DeployCore.TrustSetDocument

/-! # The release-trust tree

A generation of release-signing trust is three files: the delivered container, the verified document and the record
of its epoch. Each door to the tree first looks and verifies, and then, unless it refuses, hands the three to the
generation engine; `replayChain` is a sequence of accepts. The looks are programs of their own, over operations that
leave the tree alone. -/

namespace DeployCore
open Directory Crash

def GENERATION_PACKAGE_FILE : Bytes := asBytes "generation.pkg"
def EPOCH_RECORD_FILE : Bytes := asBytes "epoch"
def TRUST_SET_MEMBER : String := "trust-set.json"
def REQUIRE_TRUST_PIN_MARKER : Bytes := asBytes "require-trust-pin"
def JOIN_GENERATION_FILE : Bytes := asBytes "join-generation.pkg"
def MATERIAL_SET_TARGET : Bytes := asBytes "<material set>"

/-- An `io::Error`: the system's, or one made here. -/
inductive TreeFault
  | os (kind : ErrorKind)
  | invalidInput (message : String)
  | alreadyExists (message : String)
  deriving DecidableEq

/-- `ReleaseTrustError`. -/
inductive ReleaseTrustError
  | io (path : Bytes) (source : TreeFault)
  | document (error : TrustSetDocumentError)
  | verify (error : ContainerError)
  | input (error : InputError)
  | activeGenerationPresent (generation : Option UInt64)
  | missingTrustSetMember
  | provisionalDecode
  | malformedAnchorKey
  | noActiveGeneration
  | missingEpochRecord
  | emptyEpochRecord
  | unterminatedEpochRecord
  | epochRecordSecondLine
  | epochRecordWhitespace
  | epochRecordNonDigit (byte : UInt8)
  | epochRecordLeadingZero
  | zeroActiveEpoch
  | epochRecordOverflow
  | epochDisagreement (record document : UInt64)
  | activeNotCanonical (target : Bytes)
  | deliveredEpochDisagreement (document : UInt64) (manifest : String)
  | rebootstrapEpochMismatch (asserted recorded : UInt64)
  | fingerprintPinRequired
  | fingerprintPinMismatch (pin digest : String)
  | staleRebootstrap (delivered recorded : UInt64)
  deriving DecidableEq

/-- `From<GenerationError>`. -/
def ReleaseTrustError.ofGeneration : GenerationError → ReleaseTrustError
  | .io path kind => .io path (.os kind)
  | .emptyMaterial => .io MATERIAL_SET_TARGET (.invalidInput "the material set is empty")
  | .duplicateName name => .io name (.alreadyExists "two material files carry the same name")
  | .invalidName name => .io name (.invalidInput "a material file name is not a single path component")
  | .reload unit reason =>
    .io (asBytes unit) (.invalidInput ("the release-trust tree reloads no unit, yet a reload was attempted: " ++ reason))

instance : FromGenerationError ReleaseTrustError := ⟨.ofGeneration⟩

/-! ### The epoch record -/

def LINE_FEED : UInt8 := 10

def renderEpochRecord (epoch : UInt64) : Bytes := toDecimal epoch ++ [LINE_FEED]

def isAsciiDigitByte (byte : UInt8) : Bool := 48 ≤ byte && byte ≤ 57

/-- `u8::is_ascii_whitespace`. -/
def isAsciiWhitespaceByte (byte : UInt8) : Bool :=
  byte == 32 || byte == 9 || byte == 10 || byte == 12 || byte == 13

/-- Reads the record's one line. -/
def parseEpochRecord (bytes : Bytes) : Except ReleaseTrustError UInt64 :=
  if LINE_FEED ∉ bytes then .error (if bytes = [] then .emptyEpochRecord else .unterminatedEpochRecord)
  else
    let digits := bytes.takeWhile (· ≠ LINE_FEED)
    if (bytes.drop digits.length).length ≠ 1 then .error .epochRecordSecondLine
    else if digits = [] then .error .emptyEpochRecord
    else
      match digits.find? (!isAsciiDigitByte ·) with
      | some byte =>
        .error (if isAsciiWhitespaceByte byte then .epochRecordWhitespace else .epochRecordNonDigit byte)
      | none =>
        if digits = [48] then .error .zeroActiveEpoch
        else if digits.head? = some 48 then .error .epochRecordLeadingZero
        else
          match parseU64 digits with
          | some epoch => .ok epoch
          | none => .error .epochRecordOverflow

/-! ### Generations -/

/-- The three files, in the order they are staged. -/
def material (package member : Bytes) (epoch : UInt64) : List GenerationFile :=
  [⟨GENERATION_PACKAGE_FILE, package⟩, ⟨asBytes TRUST_SET_MEMBER, member⟩,
    ⟨EPOCH_RECORD_FILE, renderEpochRecord epoch⟩]

def memberDigest (lib : Externals) (member : Bytes) : String := toHex (lib.sha256 member)

def checkEpochAgreement (record : UInt64) (document : TrustSetDocument) : Except ReleaseTrustError Unit :=
  if record = document.epoch then .ok () else .error (.epochDisagreement record document.epoch)

/-- A verification that fails with a verdict of the verifier. -/
def verifyUnder (lib : Externals) (src : Source) (trust : TrustSet) (request : VerifyRequest) :
    Except ReleaseTrustError Unit :=
  ((verifyPackage lib src trust request).mapError fun e => .verify (.verify e)).map fun _ => ()

/-- What a door takes from a package that its own anchors, or the active generation's, vouch for. -/
structure VerifiedGeneration where
  document : TrustSetDocument
  epoch : UInt64
  member : Bytes
  deriving DecidableEq

/-- The document is decoded, the package verified under the anchors it carries, and the document read. -/
def admitMember (lib : Externals) (src : Source) (member : Bytes) : Except ReleaseTrustError TrustSetDocument := do
  match selfAdmissionCandidate lib member with
  | none => .error .provisionalDecode
  | some (trust, epoch) => do
    let request ← (VerifyRequest.forTrustSelfAdmission (toString epoch) (memberDigest lib member)).mapError .input
    verifyUnder lib src trust request
    (readTrustSetDocument lib member).mapError .document

/-- Re-establishes over the staged copy what a door established. `reopen` opens the staged container again. -/
def validateStaged (lib : Externals) (reopen : Bytes → Except ErrorKind Source) (dir : Bytes) :
    List GenerationFile → Except ReleaseTrustError Unit
  | [_, member, record] => do
    match selfAdmissionCandidate lib member.bytes with
    | none => .error .provisionalDecode
    | some (trust, stagedEpoch) => do
      let request ←
        (VerifyRequest.forTrustSelfAdmission (toString stagedEpoch) (memberDigest lib member.bytes)).mapError .input
      let packagePath := joinPath dir GENERATION_PACKAGE_FILE
      let stagedPackage ← (reopen packagePath).mapError fun kind => .io packagePath (.os kind)
      verifyUnder lib stagedPackage trust request
      let document ← (readTrustSetDocument lib member.bytes).mapError .document
      checkEpochAgreement (← parseEpochRecord record.bytes) document
  | _ => .error (.io dir (.invalidInput "the staged copy is not a container/document/epoch triple"))

/-- The two epochs a delivered package states, its document's and its artifacts'. -/
def checkDeliveredEpochCarriers (lib : Externals) (package : Bytes) (document : UInt64) :
    Except ReleaseTrustError Unit := do
  let payload ← (openPackage lib (.ofBytes package)).mapError fun e => .verify (.verify e)
  Checks.each (fun artifact =>
    if artifact.version ≠ toString document then .error (.deliveredEpochDisagreement document artifact.version)
    else .ok ()) payload.manifest.artifacts

def checkFingerprintPin (lib : Externals) (pin : Option String) (member : Bytes) : Except ReleaseTrustError Unit :=
  match pin with
  | none => .ok ()
  | some pin =>
    if pin = memberDigest lib member then .ok () else .error (.fingerprintPinMismatch pin (memberDigest lib member))

/-! ### Looks -/

/-- What a door looks at: entries of the tree's root, and the member of a package, which it extracts into a scratch
directory elsewhere. -/
inductive LookOp
  /-- `std::fs::metadata`, which follows links. -/
  | metadata (name : Bytes)
  | symlinkMetadata (name : Bytes)
  | readLink (name : Bytes)
  | readFile (dir name : Bytes)
  | readRootFile (name : Bytes)
  | extractMember (package : Bytes)
  deriving DecidableEq

abbrev LookOp.Result : LookOp → Type
  | .metadata _ => Except ErrorKind Unit
  | .symlinkMetadata _ => Except ErrorKind Unit
  | .readLink _ => Except ErrorKind Bytes
  | .readFile _ _ => Except ErrorKind Bytes
  | .readRootFile _ => Except ErrorKind Bytes
  | .extractMember _ => Except ReleaseTrustError Bytes

/-- The third-party code, and the directory that scratch directories are made in. -/
structure Platform where
  lib : Externals
  decode : ArchiveDecoder
  scratch : Bytes

/-- What a call finds outside the tree: the files and entries that links lead to, and the staged container as the
validator opens it. -/
structure Surroundings where
  elsewhere : Bytes → Except ErrorKind Bytes
  stat : Bytes → Except ErrorKind Unit
  reopen : Bytes → Except ErrorKind Source

/-- The entry a name stands for, which a link to an entry of the root leads to. -/
def Disk.metadata (stat : Bytes → Except ErrorKind Unit) (d : Disk) (name : Bytes) : Except ErrorKind Unit :=
  match find d.root name with
  | none => .error .notFound
  | some (.link target) =>
    match find d.root target with
    | some (.link _) => stat name
    | some _ => .ok ()
    | none => if components target = [.normal target] then .error .notFound else stat name
  | some _ => .ok ()

/-- The `trust-set.json` of a package, as the walk of its archive leaves it. -/
def Platform.extractMember (platform : Platform) (package : Bytes) : Except ReleaseTrustError Bytes := do
  let src := Source.ofBytes package
  let payload ← (openPackage platform.lib src).mapError fun e => .verify (.verify e)
  let staging ← (extractTo platform.lib platform.decode src payload).mapError fun e => .verify (.ofArchive e)
  match staging.read (segments TRUST_SET_MEMBER) with
  | .ok bytes => .ok bytes
  | .error .notFound => .error .missingTrustSetMember
  | .error kind => .error (.io (joinPath platform.scratch (asBytes TRUST_SET_MEMBER)) (.os kind))

/-- A look that was made. -/
def LookOp.run (platform : Platform) (surroundings : Surroundings) : (o : LookOp) → Disk → o.Result
  | .metadata name, d => d.metadata surroundings.stat name
  | .symlinkMetadata name, d => if (find d.root name).isSome then .ok () else .error .notFound
  | .readLink name, d =>
    match find d.root name with
    | some (.link target) => .ok target
    | some _ => .error EINVAL
    | none => .error .notFound
  | .readFile dir name, d => d.read surroundings.elsewhere dir name
  | .readRootFile name, d =>
    match find d.root name with
    | some (.file bytes _) => .ok bytes
    | some (.dir _ _) => .error EISDIR
    | some (.link _) => surroundings.elsewhere name
    | none => .error .notFound
  | .extractMember package, _ => platform.extractMember package

/-- An I/O error, of a file or directory or of the archive walk. -/
def ReleaseTrustError.IsIo : ReleaseTrustError → Prop
  | .io _ (.os _) => True
  | .verify (.archive (.io (.io _))) => True
  | _ => False

/-- A look leaves the tree alone. A fault never reads as a missing file. -/
def lookDevice (platform : Platform) (surroundings : Surroundings) : Device LookOp LookOp.Result Disk where
  run o d := (o.run platform surroundings d, d)
  fault
    | .metadata _, r => ∃ kind, kind ≠ .notFound ∧ r = .error kind
    | .symlinkMetadata _, r => ∃ kind, kind ≠ .notFound ∧ r = .error kind
    | .readLink _, r => ∃ kind, kind ≠ .notFound ∧ r = .error kind
    | .readFile _ _, r => ∃ kind, kind ≠ .notFound ∧ r = .error kind
    | .readRootFile _, r => ∃ kind, kind ≠ .notFound ∧ r = .error kind
    | .extractMember _, r => ∃ e : ReleaseTrustError, e.IsIo ∧ r = .error e
  torn _ d d' := d' = d

abbrev Look (α : Type) := Prog LookOp LookOp.Result ReleaseTrustError α

def tryMetadata (name : Bytes) : Look (Except ErrorKind Unit) := Prog.perform (LookOp.metadata name)
def trySymlinkMetadata (name : Bytes) : Look (Except ErrorKind Unit) := Prog.perform (LookOp.symlinkMetadata name)
def tryReadLink (name : Bytes) : Look (Except ErrorKind Bytes) := Prog.perform (LookOp.readLink name)
def tryRead (dir name : Bytes) : Look (Except ErrorKind Bytes) := Prog.perform (LookOp.readFile dir name)
def tryReadRootFile (name : Bytes) : Look (Except ErrorKind Bytes) := Prog.perform (LookOp.readRootFile name)
def tryExtractMember (package : Bytes) : Look (Except ReleaseTrustError Bytes) :=
  Prog.perform (LookOp.extractMember package)

section Looks
variable (lib : Externals) (root : Bytes)

def activeLink : Bytes := joinPath root ACTIVE_LINK

/-- The recorded epoch; `none` where nothing is active. -/
def readActiveEpoch : Look (Option UInt64) := do
  match ← tryMetadata ACTIVE_LINK with
  | .ok () =>
    match ← tryRead ACTIVE_LINK EPOCH_RECORD_FILE with
    | .ok bytes => Prog.lift ((parseEpochRecord bytes).map some)
    | .error .notFound => .fail .missingEpochRecord
    | .error kind => .fail (.io (joinPath (activeLink root) EPOCH_RECORD_FILE) (.os kind))
  | .error .notFound => pure none
  | .error kind => .fail (.io (activeLink root) (.os kind))

/-- The active generation as a reader that trusts it reads it. -/
structure ActiveGenerationMaterial where
  document : TrustSetDocument
  epoch : UInt64
  trust : TrustSet

/-- What a generation's document and record make. -/
def generationMaterial (epoch : UInt64) (member : Bytes) : Except ReleaseTrustError ActiveGenerationMaterial := do
  let document ← (readTrustSetDocument lib member).mapError .document
  checkEpochAgreement epoch document
  match documentAnchors lib document with
  | none => .error .malformedAnchorKey
  | some anchors => do
    let withdrawn := document.withdrawnBuilds.map fun build => (build.packageId, build.version, build.commit)
    let trust ← (TrustSet.new anchors withdrawn document.minManifestFormatVersion epoch).mapError .input
    .ok ⟨document, epoch, trust⟩

/-- `read_generation_material` of the active generation. -/
def readGenerationMaterial (epoch : UInt64) : Look ActiveGenerationMaterial := do
  match ← tryRead ACTIVE_LINK (asBytes TRUST_SET_MEMBER) with
  | .ok member => Prog.lift (generationMaterial lib epoch member)
  | .error kind => .fail (.io (joinPath (activeLink root) (asBytes TRUST_SET_MEMBER)) (.os kind))

def readActiveGeneration : Look ActiveGenerationMaterial := do
  match ← readActiveEpoch root with
  | some epoch => readGenerationMaterial lib root epoch
  | none => .fail .noActiveGeneration

def activeGenerationIndex : Look (Option UInt64) := do
  match ← tryReadLink ACTIVE_LINK with
  | .ok target =>
    match parseGeneration target with
    | some generation => pure (some generation)
    | none => .fail (.activeNotCanonical target)
  | .error .notFound => pure none
  | .error kind => .fail (.io (activeLink root) (.os kind))

def requirePinMarkerSet : Look Bool := do
  match ← trySymlinkMetadata REQUIRE_TRUST_PIN_MARKER with
  | .ok () => pure true
  | .error .notFound => pure false
  | .error kind => .fail (.io (joinPath root REQUIRE_TRUST_PIN_MARKER) (.os kind))

def extractMember (package : Bytes) : Look Bytes := do
  Prog.lift (← tryExtractMember package)

/-- The package is admitted under the anchors its own document carries. -/
def verifySelfAdmitted (package : Bytes) : Look VerifiedGeneration := do
  let member ← extractMember package
  let document ← Prog.lift (admitMember lib (.ofBytes package) member)
  pure ⟨document, document.epoch, member⟩

/-! ### Doors -/

structure AdmittedGeneration where
  activation : Activation
  epoch : UInt64
  document : TrustSetDocument
  deriving DecidableEq

/-- What the looks of an accept come to: the package is active already, or it is to be installed. -/
inductive Judgement
  | unchanged (admitted : AdmittedGeneration)
  | install (verified : VerifiedGeneration)

/-- `accept_generation` up to the installation: the package is judged against the active generation. -/
def judgeDelivered (package : Bytes) : Look Judgement := do
  match ← activeGenerationIndex root with
  | none => .fail .noActiveGeneration
  | some generation => do
    let active ← readActiveGeneration lib root
    match ← tryRead ACTIVE_LINK GENERATION_PACKAGE_FILE with
    | .error kind => .fail (.io (joinPath (activeLink root) GENERATION_PACKAGE_FILE) (.os kind))
    | .ok stored =>
      if stored = package then pure (.unchanged ⟨⟨generation, false⟩, active.epoch, active.document⟩)
      else do
        let member ← extractMember package
        match provisionalAnchorsAndEpoch lib member with
        | none => .fail .provisionalDecode
        | some (_, deliveredEpoch) => do
          Prog.lift (checkDeliveredEpochCarriers lib package deliveredEpoch)
          let request ← Prog.lift
            ((VerifyRequest.forTrust (toString deliveredEpoch) (memberDigest lib member) deliveredEpoch).mapError .input)
          Prog.lift (verifyUnder lib (.ofBytes package) active.trust request)
          let document ← Prog.lift ((readTrustSetDocument lib member).mapError .document)
          pure (.install ⟨document, document.epoch, member⟩)

/-- `rebootstrap_generation` up to the installation. -/
def judgeRebootstrap (package : Bytes) (assertedEpoch : UInt64) (pin : Option String) : Look VerifiedGeneration := do
  match ← readActiveEpoch root with
  | none => .fail .noActiveGeneration
  | some recorded =>
    if assertedEpoch ≠ recorded then .fail (.rebootstrapEpochMismatch assertedEpoch recorded)
    else do
      let marked ← requirePinMarkerSet root
      if marked && pin.isNone then .fail .fingerprintPinRequired
      else do
        let verified ← verifySelfAdmitted lib package
        Prog.lift (checkFingerprintPin lib pin verified.member)
        if verified.epoch ≤ recorded then .fail (.staleRebootstrap verified.epoch recorded)
        else pure verified

/-- `admit_onto_empty_tree` up to the installation: nothing is active. `source` says where the package is. -/
def judgeEmptyTree (pin : Option String) (source : Look Bytes) : Look (Bytes × VerifiedGeneration) := do
  match ← tryMetadata ACTIVE_LINK with
  | .error .notFound => do
    let package ← source
    let verified ← verifySelfAdmitted lib package
    Prog.lift (checkFingerprintPin lib pin verified.member)
    pure (package, verified)
  | .error kind => .fail (.io (activeLink root) (.os kind))
  | .ok () =>
    match ← tryReadLink ACTIVE_LINK with
    | .ok target => .fail (.activeGenerationPresent (parseGeneration target))
    | .error _ => .fail (.activeGenerationPresent none)

/-- The package among the join material. -/
def readJoinGeneration : Look Bytes := do
  match ← tryReadRootFile JOIN_GENERATION_FILE with
  | .ok bytes => pure bytes
  | .error kind => .fail (.io (joinPath root JOIN_GENERATION_FILE) (.os kind))

end Looks

/-- The operations of a door: its looks, and those of the engine. -/
inductive TrustOp
  | look (o : LookOp)
  | engine (o : Op)
  deriving DecidableEq

abbrev TrustOp.Result : TrustOp → Type
  | .look o => o.Result
  | .engine o => Op.Result ReleaseTrustError o

/-- The engine's host, for a tree whose validator is `validateStaged` and that reloads nothing. -/
def releaseHost (platform : Platform) (surroundings : Surroundings) : Host ReleaseTrustError where
  validate := validateStaged platform.lib surroundings.reopen
  systemctl _ := .error ""
  elsewhere := surroundings.elsewhere

def trustDevice (platform : Platform) (surroundings : Surroundings) : Device TrustOp TrustOp.Result Disk where
  run
    | .look o => (lookDevice platform surroundings).run o
    | .engine o => (device (releaseHost platform surroundings)).run o
  fault
    | .look o => (lookDevice platform surroundings).fault o
    | .engine o => (device (releaseHost platform surroundings)).fault o
  torn
    | .look o => (lookDevice platform surroundings).torn o
    | .engine o => (device (releaseHost platform surroundings)).torn o

abbrev Admission (ε α : Type) := Prog TrustOp TrustOp.Result ε α

section Doors
variable (lib : Externals) (root : Bytes)

def look {α : Type} (p : Look α) : Admission ReleaseTrustError α := Prog.via TrustOp.look p

/-- `install_generation`. -/
def installMaterial (package member : Bytes) (epoch : UInt64) : Admission ReleaseTrustError Activation :=
  Prog.via TrustOp.engine (activateGeneration ⟨root, none⟩ (material package member epoch))

/-- Hands a verified generation to the engine. -/
def installVerified (package : Bytes) (verified : VerifiedGeneration) : Admission ReleaseTrustError AdmittedGeneration := do
  let activation ← installMaterial root package verified.member verified.epoch
  pure ⟨activation, verified.epoch, verified.document⟩

def acceptGeneration (package : Bytes) : Admission ReleaseTrustError AdmittedGeneration := do
  match ← look (judgeDelivered lib root package) with
  | .unchanged admitted => pure admitted
  | .install verified => installVerified root package verified

def rebootstrapGeneration (package : Bytes) (assertedEpoch : UInt64) (pin : Option String) :
    Admission ReleaseTrustError AdmittedGeneration := do
  let verified ← look (judgeRebootstrap lib root package assertedEpoch pin)
  installVerified root package verified

def admitOntoEmptyTree (pin : Option String) (source : Look Bytes) : Admission ReleaseTrustError AdmittedGeneration := do
  let (package, verified) ← look (judgeEmptyTree lib root pin source)
  installVerified root package verified

def admitSeedGeneration (package : Bytes) : Admission ReleaseTrustError AdmittedGeneration :=
  admitOntoEmptyTree lib root none (pure package)

def bootstrapFromJoinMaterial (pin : Option String) : Admission ReleaseTrustError AdmittedGeneration :=
  admitOntoEmptyTree lib root pin (readJoinGeneration root)

def replaceGeneration (package : Bytes) : Admission ReleaseTrustError AdmittedGeneration := do
  let verified ← look (verifySelfAdmitted lib package)
  installVerified root package verified

/-- The progress of a chain: the steps accepted, and the record of the last one. -/
structure ChainReplay where
  completed : Nat
  last : Option AdmittedGeneration
  deriving DecidableEq

structure ChainReplayError where
  completed : Nat
  last : Option AdmittedGeneration
  source : ReleaseTrustError
  deriving DecidableEq

/-- The loop of a chain, behind the steps accepted so far. -/
def replayFrom (progress : ChainReplay) : List Bytes → Admission ChainReplayError ChainReplay
  | [] => pure progress
  | package :: packages => do
    match ← (acceptGeneration lib root package).attempt with
    | .ok admitted => replayFrom ⟨progress.completed + 1, some admitted⟩ packages
    | .error source => .fail ⟨progress.completed, progress.last, source⟩

def acceptGenerationChain (packages : List Bytes) : Admission ChainReplayError ChainReplay :=
  replayFrom lib root ⟨0, none⟩ packages

end Doors

end DeployCore
