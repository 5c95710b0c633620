import DeployCore.Lib.SerdeEnsures
import DeployCore.Lib.SerdeWrite
import DeployCore.PreparationRecord
import DeployCore.TrustSetDocument

/-! # The self-update contract (`src/roxyd_selfupdate_contract.rs`)

The records that two programs write and read. Each type has a reader, its derived decoder, and a writer, which may
refuse; `Agrees` says that the two make one format of it: what is written is read back, and what is read, however it is
laid out, can be written. -/

namespace DeployCore.SelfUpdate
open Serde Json

def FORMAT : UInt32 := 1

/-! ## The records -/

inductive DecisionUnitState
  | ready
  | masked
  | notFound
  | disabled
  | inactive
  | failed
  | chainMissing
  deriving DecidableEq

structure DecisionPathEntry where
  unit : String
  state : DecisionUnitState
  deriving DecidableEq

structure SelfTestRecord where
  format : UInt32
  nonce : String
  writtenAt : UInt64
  supervisorVersion : String
  decisionPath : List DecisionPathEntry
  deriving DecidableEq

structure BuildIdentity where
  version : String
  commit : String
  deriving DecidableEq

inductive DigestAlgorithm
  | sha256
  deriving DecidableEq

structure BinaryDigest where
  algorithm : DigestAlgorithm
  hex : String
  deriving DecidableEq

structure ReportRequest where
  format : UInt32
  statusDigest : BinaryDigest
  deriving DecidableEq

inductive RollbackPolicy
  | rollback
  | hold
  deriving DecidableEq

structure ArmRecord where
  format : UInt32
  incoming : BuildIdentity
  outgoing : BuildIdentity
  incomingDigest : BinaryDigest
  outgoingDigest : BinaryDigest
  policy : RollbackPolicy
  deadlineEpochSeconds : UInt64
  deriving DecidableEq

structure ConfirmMarker where
  format : UInt32
  build : BuildIdentity
  deriving DecidableEq

inductive Lifecycle
  | committed
  | noAction
  | reverted
  | declined
  | failed
  deriving DecidableEq

inductive Decision
  | confirmed
  | outgoingStillInstalled
  | binaryMatchesNeither
  | reverted
  | holdDeclined
  | revertRefused
  deriving DecidableEq

inductive DecisionReason
  | matchingConfirmMarker
  | outgoingStillInstalled
  | markerDeadlineExpired
  | crashThresholdReached
  | binaryMatchesNeither
  | previousIdentityUnassertable
  | previousBuildWithdrawn
  | trustGenerationUnreadable
  deriving DecidableEq

structure ObservedBinary where
  digest : BinaryDigest
  build : Option BuildIdentity
  deriving DecidableEq

structure StatusRecord where
  format : UInt32
  lifecycle : Lifecycle
  decision : Decision
  reason : DecisionReason
  incoming : BuildIdentity
  outgoing : BuildIdentity
  observed : ObservedBinary
  supervisorVersion : String
  recordedAtEpochSeconds : UInt64
  deriving DecidableEq

structure SupervisorVersionMarker where
  format : UInt32
  installedAtEpochSeconds : UInt64
  deriving DecidableEq

/-! ## Their readers -/

/-- Exactly one lowercase hexadecimal SHA-256 digest. -/
def isLowercaseSha256Hex (hex : String) : Bool :=
  byteLen hex == 64 && (asBytes hex).all fun byte => (48 ≤ byte && byte ≤ 57) || (97 ≤ byte && byte ≤ 102)

def DecisionUnitState.decoder : Decoder DecisionUnitState :=
  .enum <| .unit "ready" .ready <| .unit "masked" .masked <| .unit "not_found" .notFound <| .unit "disabled" .disabled <|
    .unit "inactive" .inactive <| .unit "failed" .failed <| .unit "chain_missing" .chainMissing .nil

def DecisionPathEntry.decoder : Decoder DecisionPathEntry :=
  .record false (.cons "unit" none .string <| .cons "state" none DecisionUnitState.decoder .nil) fun (unit, state, ()) =>
    ⟨unit, state⟩

def SelfTestRecord.decoder : Decoder SelfTestRecord :=
  .record false
    (.cons "format" none .u32 <| .cons "nonce" none .string <| .cons "written_at" none .u64 <|
      .cons "supervisor_version" none .string <| .cons "decision_path" none DecisionPathEntry.decoder.seq .nil)
    fun (format, nonce, writtenAt, supervisorVersion, decisionPath, ()) =>
      ⟨format, nonce, writtenAt, supervisorVersion, decisionPath⟩

def BuildIdentity.decoder : Decoder BuildIdentity :=
  .record false (.cons "version" none .string <| .cons "commit" none .string .nil) fun (version, commit, ()) =>
    ⟨version, commit⟩

def DigestAlgorithm.decoder : Decoder DigestAlgorithm := .enum <| .unit "sha256" .sha256 .nil

def deserializeSha256Hex : Decoder String := .refine (fun hex => if isLowercaseSha256Hex hex then some hex else none) .string

/-- The two views of a digest, of which the report request's refuses unknown fields. -/
def digestDecoder (deny : Bool) : Decoder BinaryDigest :=
  .record deny (.cons "algorithm" none DigestAlgorithm.decoder <| .cons "hex" none deserializeSha256Hex .nil)
    fun (algorithm, hex, ()) => ⟨algorithm, hex⟩

def BinaryDigest.decoder : Decoder BinaryDigest := digestDecoder false

def ReportRequestDigest.decoder : Decoder BinaryDigest := digestDecoder true

def ReportRequest.decoder : Decoder ReportRequest :=
  .record true (.cons "format" none .u32 <| .cons "status_digest" none ReportRequestDigest.decoder .nil)
    fun (format, statusDigest, ()) => ⟨format, statusDigest⟩

def RollbackPolicy.decoder : Decoder RollbackPolicy := .enum <| .unit "rollback" .rollback <| .unit "hold" .hold .nil

def ArmRecord.decoder : Decoder ArmRecord :=
  .record false
    (.cons "format" none .u32 <| .cons "incoming" none BuildIdentity.decoder <|
      .cons "outgoing" none BuildIdentity.decoder <| .cons "incoming_digest" none BinaryDigest.decoder <|
      .cons "outgoing_digest" none BinaryDigest.decoder <| .cons "policy" none RollbackPolicy.decoder <|
      .cons "deadline_epoch_seconds" none .u64 .nil)
    fun (format, incoming, outgoing, incomingDigest, outgoingDigest, policy, deadline, ()) =>
      ⟨format, incoming, outgoing, incomingDigest, outgoingDigest, policy, deadline⟩

def ConfirmMarker.decoder : Decoder ConfirmMarker :=
  .record false (.cons "format" none .u32 <| .cons "build" none BuildIdentity.decoder .nil) fun (format, build, ()) =>
    ⟨format, build⟩

def Lifecycle.decoder : Decoder Lifecycle :=
  .enum <| .unit "committed" .committed <| .unit "no_action" .noAction <| .unit "reverted" .reverted <|
    .unit "declined" .declined <| .unit "failed" .failed .nil

def Decision.decoder : Decoder Decision :=
  .enum <| .unit "confirmed" .confirmed <| .unit "outgoing_still_installed" .outgoingStillInstalled <|
    .unit "binary_matches_neither" .binaryMatchesNeither <| .unit "reverted" .reverted <|
    .unit "hold_declined" .holdDeclined <| .unit "revert_refused" .revertRefused .nil

def DecisionReason.decoder : Decoder DecisionReason :=
  .enum <| .unit "matching_confirm_marker" .matchingConfirmMarker <|
    .unit "outgoing_still_installed" .outgoingStillInstalled <| .unit "marker_deadline_expired" .markerDeadlineExpired <|
    .unit "crash_threshold_reached" .crashThresholdReached <| .unit "binary_matches_neither" .binaryMatchesNeither <|
    .unit "previous_identity_unassertable" .previousIdentityUnassertable <|
    .unit "previous_build_withdrawn" .previousBuildWithdrawn <|
    .unit "trust_generation_unreadable" .trustGenerationUnreadable .nil

def ObservedBinary.decoder : Decoder ObservedBinary :=
  .record false
    (.cons "digest" none BinaryDigest.decoder <| .cons "build" (some none) (.option BuildIdentity.decoder) .nil)
    fun (digest, build, ()) => ⟨digest, build⟩

def StatusRecord.decoder : Decoder StatusRecord :=
  .record false
    (.cons "format" none .u32 <| .cons "lifecycle" none Lifecycle.decoder <| .cons "decision" none Decision.decoder <|
      .cons "reason" none DecisionReason.decoder <| .cons "incoming" none BuildIdentity.decoder <|
      .cons "outgoing" none BuildIdentity.decoder <| .cons "observed" none ObservedBinary.decoder <|
      .cons "supervisor_version" none .string <| .cons "recorded_at_epoch_seconds" none .u64 .nil)
    fun (format, lifecycle, decision, reason, incoming, outgoing, observed, supervisorVersion, recordedAt, ()) =>
      ⟨format, lifecycle, decision, reason, incoming, outgoing, observed, supervisorVersion, recordedAt⟩

def SupervisorVersionMarker.decoder : Decoder SupervisorVersionMarker :=
  .record false (.cons "format" none .u32 <| .cons "installed_at_epoch_seconds" none .u64 .nil)
    fun (format, installedAt, ()) => ⟨format, installedAt⟩

/-! ## Their writers -/

def DecisionUnitState.serialize : DecisionUnitState → Text
  | .ready => .str "ready"
  | .masked => .str "masked"
  | .notFound => .str "not_found"
  | .disabled => .str "disabled"
  | .inactive => .str "inactive"
  | .failed => .str "failed"
  | .chainMissing => .str "chain_missing"

def DecisionPathEntry.serialize (entry : DecisionPathEntry) : Text :=
  object [("unit", some (.str entry.unit)), ("state", some entry.state.serialize)]

def number32 (n : UInt32) : Text := .num (.posInt n.toUInt64)

def number64 (n : UInt64) : Text := .num (.posInt n)

def SelfTestRecord.serialize (record : SelfTestRecord) : Except String Text :=
  .ok <| object [
    ("format", some (number32 record.format)),
    ("nonce", some (.str record.nonce)),
    ("written_at", some (number64 record.writtenAt)),
    ("supervisor_version", some (.str record.supervisorVersion)),
    ("decision_path", some (.arr (record.decisionPath.map DecisionPathEntry.serialize)))]

def BuildIdentity.serialize (build : BuildIdentity) : Text :=
  object [("version", some (.str build.version)), ("commit", some (.str build.commit))]

def DigestAlgorithm.serialize : DigestAlgorithm → Text
  | .sha256 => .str "sha256"

def HEX_REFUSAL : String := "SHA-256 digest must be exactly 64 lowercase hexadecimal characters"

def serializeSha256Hex (hex : String) : Except String Text :=
  if isLowercaseSha256Hex hex then .ok (.str hex) else .error HEX_REFUSAL

def BinaryDigest.serialize (digest : BinaryDigest) : Except String Text := do
  let hex ← serializeSha256Hex digest.hex
  .ok (object [("algorithm", some digest.algorithm.serialize), ("hex", some hex)])

def serializeReportRequestFormat (format : UInt32) : Except String Text :=
  if format = FORMAT then .ok (number32 format)
  else .error ("report request format must equal " ++ toString FORMAT)

def ReportRequest.serialize (request : ReportRequest) : Except String Text := do
  let format ← serializeReportRequestFormat request.format
  let statusDigest ← request.statusDigest.serialize
  .ok (object [("format", some format), ("status_digest", some statusDigest)])

def RollbackPolicy.serialize : RollbackPolicy → Text
  | .rollback => .str "rollback"
  | .hold => .str "hold"

def ArmRecord.serialize (record : ArmRecord) : Except String Text := do
  let incomingDigest ← record.incomingDigest.serialize
  let outgoingDigest ← record.outgoingDigest.serialize
  .ok <| object [
    ("format", some (number32 record.format)),
    ("incoming", some record.incoming.serialize),
    ("outgoing", some record.outgoing.serialize),
    ("incoming_digest", some incomingDigest),
    ("outgoing_digest", some outgoingDigest),
    ("policy", some record.policy.serialize),
    ("deadline_epoch_seconds", some (number64 record.deadlineEpochSeconds))]

def ConfirmMarker.serialize (marker : ConfirmMarker) : Except String Text :=
  .ok (object [("format", some (number32 marker.format)), ("build", some marker.build.serialize)])

def Lifecycle.serialize : Lifecycle → Text
  | .committed => .str "committed"
  | .noAction => .str "no_action"
  | .reverted => .str "reverted"
  | .declined => .str "declined"
  | .failed => .str "failed"

def Decision.serialize : Decision → Text
  | .confirmed => .str "confirmed"
  | .outgoingStillInstalled => .str "outgoing_still_installed"
  | .binaryMatchesNeither => .str "binary_matches_neither"
  | .reverted => .str "reverted"
  | .holdDeclined => .str "hold_declined"
  | .revertRefused => .str "revert_refused"

def DecisionReason.serialize : DecisionReason → Text
  | .matchingConfirmMarker => .str "matching_confirm_marker"
  | .outgoingStillInstalled => .str "outgoing_still_installed"
  | .markerDeadlineExpired => .str "marker_deadline_expired"
  | .crashThresholdReached => .str "crash_threshold_reached"
  | .binaryMatchesNeither => .str "binary_matches_neither"
  | .previousIdentityUnassertable => .str "previous_identity_unassertable"
  | .previousBuildWithdrawn => .str "previous_build_withdrawn"
  | .trustGenerationUnreadable => .str "trust_generation_unreadable"

/-- A build that could not be determined is written as `null`. -/
def ObservedBinary.serialize (observed : ObservedBinary) : Except String Text := do
  let digest ← observed.digest.serialize
  .ok (object [("digest", some digest), ("build", some ((observed.build.map BuildIdentity.serialize).getD .null))])

def StatusRecord.serialize (record : StatusRecord) : Except String Text := do
  let observed ← record.observed.serialize
  .ok <| object [
    ("format", some (number32 record.format)),
    ("lifecycle", some record.lifecycle.serialize),
    ("decision", some record.decision.serialize),
    ("reason", some record.reason.serialize),
    ("incoming", some record.incoming.serialize),
    ("outgoing", some record.outgoing.serialize),
    ("observed", some observed),
    ("supervisor_version", some (.str record.supervisorVersion)),
    ("recorded_at_epoch_seconds", some (number64 record.recordedAtEpochSeconds))]

def SupervisorVersionMarker.serialize (marker : SupervisorVersionMarker) : Except String Text :=
  .ok <| object [
    ("format", some (number32 marker.format)),
    ("installed_at_epoch_seconds", some (number64 marker.installedAtEpochSeconds))]

/-! ## What is written is read back -/

section Reads
variable {d : Nat}

theorem DecisionUnitState.reads (state : DecisionUnitState) (d : Nat) : Serde.Reads decoder state.serialize state d := by
  cases state <;> exact .enum_name rfl

theorem DigestAlgorithm.reads (algorithm : DigestAlgorithm) (d : Nat) : Serde.Reads decoder algorithm.serialize algorithm d := by
  cases algorithm
  exact .enum_name rfl

theorem RollbackPolicy.reads (policy : RollbackPolicy) (d : Nat) : Serde.Reads decoder policy.serialize policy d := by
  cases policy <;> exact .enum_name rfl

theorem Lifecycle.reads (lifecycle : Lifecycle) (d : Nat) : Serde.Reads decoder lifecycle.serialize lifecycle d := by
  cases lifecycle <;> exact .enum_name rfl

theorem Decision.reads (decision : Decision) (d : Nat) : Serde.Reads decoder decision.serialize decision d := by
  cases decision <;> exact .enum_name rfl

theorem DecisionReason.reads (reason : DecisionReason) (d : Nat) : Serde.Reads decoder reason.serialize reason d := by
  cases reason <;> exact .enum_name rfl

theorem DecisionPathEntry.reads (entry : DecisionPathEntry) (hd : 1 < d) : Serde.Reads decoder entry.serialize entry d :=
  .record (by decide) hd (.cons (.written (.string _ _)) <| .cons (.written (entry.state.reads _)) .nil) rfl

theorem BuildIdentity.reads (build : BuildIdentity) (hd : 1 < d) : Serde.Reads decoder build.serialize build d :=
  .record (by decide) hd (.cons (.written (.string _ _)) <| .cons (.written (.string _ _)) .nil) rfl

theorem reads_sha256Hex {hex : String} {t : Text} (h : serializeSha256Hex hex = .ok t) : Serde.Reads deserializeSha256Hex t hex d := by
  unfold serializeSha256Hex at h
  split at h
  next hvalid =>
    cases h
    exact .refine (.string hex d) (if_pos hvalid)
  · cases h

theorem reads_digest {deny : Bool} {digest : BinaryDigest} {t : Text} (h : digest.serialize = .ok t) (hd : 1 < d) :
    Serde.Reads (digestDecoder deny) t digest d := by
  obtain ⟨hex, hhex, h⟩ := Checks.bind_ok h
  cases h
  exact .record (by decide) hd (.cons (.written (digest.algorithm.reads _)) <| .cons (.written (reads_sha256Hex hhex)) .nil) rfl

theorem ObservedBinary.reads {observed : ObservedBinary} {t : Text} (h : observed.serialize = .ok t) (hd : 2 < d) :
    Serde.Reads decoder t observed d := by
  obtain ⟨digest, hdigest, h⟩ := Checks.bind_ok h
  cases h
  have hbuild : ReadsField none (.option BuildIdentity.decoder) (d - 1) observed.build
      (some ((observed.build.map BuildIdentity.serialize).getD .null)) :=
    .nullable (fun build _ => build.reads (by omega)) trivial
  exact .record (by decide) (by omega) (.cons (.written (reads_digest hdigest (by omega))) <| .cons hbuild .nil) rfl

theorem SelfTestRecord.reads {record : SelfTestRecord} {t : Text} (h : record.serialize = .ok t) (hd : 3 < d) :
    Serde.Reads decoder t record d := by
  cases h
  exact .record (by decide) (by omega)
    (.cons (.written (.u32 _ _)) <| .cons (.written (.string _ _)) <| .cons (.written (.u64 _ _)) <|
      .cons (.written (.string _ _)) <| .cons (.written (.list (by omega) fun entry _ => entry.reads (by omega))) .nil) rfl

theorem ReportRequest.reads {request : ReportRequest} {t : Text} (h : request.serialize = .ok t) (hd : 2 < d) :
    Serde.Reads decoder t request d := by
  obtain ⟨format, hformat, h⟩ := Checks.bind_ok h
  obtain ⟨digest, hdigest, h⟩ := Checks.bind_ok h
  unfold serializeReportRequestFormat at hformat
  split at hformat
  · cases hformat
    cases h
    exact .record (by decide) (by omega)
      (.cons (.written (.u32 _ _)) <| .cons (.written (reads_digest hdigest (by omega))) .nil) rfl
  · cases hformat

theorem ArmRecord.reads {record : ArmRecord} {t : Text} (h : record.serialize = .ok t) (hd : 2 < d) :
    Serde.Reads decoder t record d := by
  obtain ⟨incoming, hincoming, h⟩ := Checks.bind_ok h
  obtain ⟨outgoing, houtgoing, h⟩ := Checks.bind_ok h
  cases h
  have hd' : 1 < d - 1 := by omega
  exact .record (by decide) (by omega)
    (.cons (.written (.u32 _ _)) <| .cons (.written (record.incoming.reads hd')) <|
      .cons (.written (record.outgoing.reads hd')) <| .cons (.written (reads_digest hincoming hd')) <|
      .cons (.written (reads_digest houtgoing hd')) <| .cons (.written (record.policy.reads _)) <|
      .cons (.written (.u64 _ _)) .nil) rfl

theorem ConfirmMarker.reads {marker : ConfirmMarker} {t : Text} (h : marker.serialize = .ok t) (hd : 2 < d) :
    Serde.Reads decoder t marker d := by
  cases h
  exact .record (by decide) (by omega)
    (.cons (.written (.u32 _ _)) <| .cons (.written (marker.build.reads (by omega))) .nil) rfl

theorem StatusRecord.reads {record : StatusRecord} {t : Text} (h : record.serialize = .ok t) (hd : 3 < d) :
    Serde.Reads decoder t record d := by
  obtain ⟨observed, hobserved, h⟩ := Checks.bind_ok h
  cases h
  have hd' : 1 < d - 1 := by omega
  exact .record (by decide) (by omega)
    (.cons (.written (.u32 _ _)) <| .cons (.written (record.lifecycle.reads _)) <|
      .cons (.written (record.decision.reads _)) <| .cons (.written (record.reason.reads _)) <|
      .cons (.written (record.incoming.reads hd')) <| .cons (.written (record.outgoing.reads hd')) <|
      .cons (.written (ObservedBinary.reads hobserved (by omega))) <| .cons (.written (.string _ _)) <|
      .cons (.written (.u64 _ _)) .nil) rfl

theorem SupervisorVersionMarker.reads {marker : SupervisorVersionMarker} {t : Text} (h : marker.serialize = .ok t) (hd : 1 < d) :
    Serde.Reads decoder t marker d := by
  cases h
  exact .record (by decide) hd (.cons (.written (.u32 _ _)) <| .cons (.written (.u64 _ _)) .nil) rfl

end Reads

/-! ## What is read can be written -/

def BinaryDigest.Valid (digest : BinaryDigest) : Prop := isLowercaseSha256Hex digest.hex = true

theorem BinaryDigest.serialize_iff {digest : BinaryDigest} : (∃ t, digest.serialize = .ok t) ↔ digest.Valid := by
  constructor
  · rintro ⟨t, h⟩
    obtain ⟨hex, hhex, -⟩ := Checks.bind_ok h
    unfold serializeSha256Hex at hhex
    split at hhex
    next hvalid => exact hvalid
    · cases hhex
  · intro hvalid
    have hhex : serializeSha256Hex digest.hex = .ok (.str digest.hex) := if_pos hvalid
    rw [BinaryDigest.serialize, hhex]
    exact ⟨_, rfl⟩

theorem ensures_digest {deny : Bool} : (digestDecoder deny).Ensures BinaryDigest.Valid := by
  have hhex : deserializeSha256Hex.Ensures fun hex => isLowercaseSha256Hex hex = true := by
    refine Decoder.ensures_refine fun hex hex' h => ?_
    split at h
    next hvalid =>
      cases h
      exact hvalid
    · cases h
  exact Decoder.ensures_record (.required Decoder.ensures_true <| .required hhex Fields.ensures_nil) fun _ h => h.2.1

theorem ensures_arm : ArmRecord.decoder.Ensures fun record => record.incomingDigest.Valid ∧ record.outgoingDigest.Valid :=
  Decoder.ensures_record
    (.required Decoder.ensures_true <| .required Decoder.ensures_true <| .required Decoder.ensures_true <|
      .required ensures_digest <| .required ensures_digest <| .required Decoder.ensures_true <|
      .required Decoder.ensures_true Fields.ensures_nil)
    fun _ h => ⟨h.2.2.2.1, h.2.2.2.2.1⟩

theorem ensures_observed : ObservedBinary.decoder.Ensures fun observed => observed.digest.Valid :=
  Decoder.ensures_record
    (.required ensures_digest <| .cons Decoder.ensures_true (fun _ _ => trivial) Fields.ensures_nil) fun _ h => h.1

theorem ensures_status : StatusRecord.decoder.Ensures fun record => record.observed.digest.Valid :=
  Decoder.ensures_record
    (.required Decoder.ensures_true <| .required Decoder.ensures_true <| .required Decoder.ensures_true <|
      .required Decoder.ensures_true <| .required Decoder.ensures_true <| .required Decoder.ensures_true <|
      .required ensures_observed <| .required Decoder.ensures_true <| .required Decoder.ensures_true Fields.ensures_nil)
    fun _ h => h.2.2.2.2.2.2.1

theorem ensures_request : ReportRequest.decoder.Ensures fun request => request.statusDigest.Valid :=
  Decoder.ensures_record (.required Decoder.ensures_true <| .required ensures_digest Fields.ensures_nil) fun _ h => h.2.1

/-- The reader and the writer of a type make one format of it. -/
structure Agrees {α : Type} (D : Decoder α) (serialize : α → Except String Text) : Prop where
  readsBack : ∀ {a t}, serialize a = .ok t → D.text t recursionLimit = some a
  writes : ∀ {t a}, D.text t recursionLimit = some a → ∃ t', serialize a = .ok t'

theorem agrees_arm : Agrees ArmRecord.decoder ArmRecord.serialize := by
  refine ⟨fun h => (ArmRecord.reads h (by decide)).text, fun {t record} h => ?_⟩
  obtain ⟨hincoming, houtgoing⟩ := ensures_arm _ _ _ h
  obtain ⟨incoming, hincoming⟩ := BinaryDigest.serialize_iff.mpr hincoming
  obtain ⟨outgoing, houtgoing⟩ := BinaryDigest.serialize_iff.mpr houtgoing
  rw [ArmRecord.serialize, hincoming, houtgoing]
  exact ⟨_, rfl⟩

theorem agrees_status : Agrees StatusRecord.decoder StatusRecord.serialize := by
  refine ⟨fun h => (StatusRecord.reads h (by decide)).text, fun {t record} h => ?_⟩
  obtain ⟨digest, hdigest⟩ := BinaryDigest.serialize_iff.mpr (ensures_status _ _ _ h)
  rw [StatusRecord.serialize, ObservedBinary.serialize, hdigest]
  exact ⟨_, rfl⟩

theorem serialize_request_iff {request : ReportRequest} :
    (∃ t, request.serialize = .ok t) ↔ request.format = FORMAT ∧ request.statusDigest.Valid := by
  constructor
  · rintro ⟨t, h⟩
    obtain ⟨format, hformat, h⟩ := Checks.bind_ok h
    obtain ⟨digest, hdigest, -⟩ := Checks.bind_ok h
    unfold serializeReportRequestFormat at hformat
    split at hformat
    next hsame => exact ⟨hsame, BinaryDigest.serialize_iff.mp ⟨_, hdigest⟩⟩
    · cases hformat
  · rintro ⟨hformat, hvalid⟩
    obtain ⟨digest, hdigest⟩ := BinaryDigest.serialize_iff.mpr hvalid
    rw [ReportRequest.serialize, serializeReportRequestFormat, if_pos hformat, hdigest]
    exact ⟨_, rfl⟩

def statusDigest (lib : Externals) (statusBytes : Bytes) : BinaryDigest := ⟨.sha256, toHex (lib.sha256 statusBytes)⟩

inductive ReportRequestValidity
  | valid
  | unsupportedFormat
  | missingStatusRecord
  | invalidStatusRecord
  | statusDigestMismatch
  deriving DecidableEq

/-- `serde_json::from_slice`. -/
def readStatus (lib : Externals) (bytes : Bytes) : Option StatusRecord :=
  (lib.readJson bytes).bind (StatusRecord.decoder.text · recursionLimit)

def validateReportRequest (lib : Externals) (request : ReportRequest) (statusBytes : Option Bytes) : ReportRequestValidity :=
  if request.format ≠ FORMAT then .unsupportedFormat
  else
    match statusBytes with
    | none => .missingStatusRecord
    | some statusBytes =>
      if (readStatus lib statusBytes).isNone then .invalidStatusRecord
      else if request.statusDigest ≠ statusDigest lib statusBytes then .statusDigestMismatch
      else .valid

section Request
variable {lib : Externals} {status current : Bytes} {request : ReportRequest} {t : Text}

theorem toHex_inj {bytes bytes' : Bytes} (h : toHex bytes = toHex bytes') : bytes = bytes' := by
  have hlength : bytes.length * 2 = bytes'.length * 2 := by rw [← length_toHex, ← length_toHex, h]
  have hread := decodeLowercaseHex_toHex bytes
  rw [h, Nat.eq_of_mul_eq_mul_right (by decide) hlength, decodeLowercaseHex_toHex] at hread
  exact (Option.some.inj hread).symm

theorem digitChar_byte {n : Nat} (h : n < 16) : (Nat.digitChar n).toNat < 0x80 ∧
    ((48 ≤ UInt8.ofNat (Nat.digitChar n).toNat && UInt8.ofNat (Nat.digitChar n).toNat ≤ 57) ||
      (97 ≤ UInt8.ofNat (Nat.digitChar n).toNat && UInt8.ofNat (Nat.digitChar n).toNat ≤ 102)) = true := by
  revert n
  decide

/-- A digest of the status is one that the readers accept. -/
theorem valid_statusDigest (hlength : (lib.sha256 status).length = 32) : (statusDigest lib status).Valid := by
  have hdigits : ∀ c ∈ (toHex (lib.sha256 status)).toList, ∃ n, n < 16 ∧ c = Nat.digitChar n := by
    intro c hc
    rw [toHex_eq] at hc
    obtain ⟨byte, -, hc⟩ := List.mem_flatMap.mp hc
    have hbyte := byte.toNat_lt
    rcases List.mem_pair.mp hc with rfl | rfl
    · exact ⟨byte.toNat / 16, by omega, rfl⟩
    · exact ⟨byte.toNat % 16, by omega, rfl⟩
  have hbytes : asBytes (toHex (lib.sha256 status)) = (toHex (lib.sha256 status)).toList.map fun c => UInt8.ofNat c.toNat := by
    rw [asBytes_eq_encode]
    refine encode_of_ascii fun c hc => ?_
    obtain ⟨n, hn, rfl⟩ := hdigits c hc
    exact (digitChar_byte hn).1
  have hlen : byteLen (toHex (lib.sha256 status)) = 64 := by
    rw [byteLen, hbytes, List.length_map, length_toHex, hlength]
  rw [BinaryDigest.Valid, isLowercaseSha256Hex, statusDigest, hlen, beq_self_eq_true, Bool.true_and, hbytes, List.all_map,
    List.all_eq_true]
  intro c hc
  obtain ⟨n, hn, rfl⟩ := hdigits c hc
  exact (digitChar_byte hn).2

theorem validateReportRequest_valid : validateReportRequest lib request (some current) = .valid ↔
    request.format = FORMAT ∧ (readStatus lib current).isSome = true ∧ request.statusDigest = statusDigest lib current := by
  unfold validateReportRequest
  simp only
  split_ifs with hformat hread hdigest
  · exact iff_of_false (fun h => by cases h) fun h => hformat h.1
  · exact iff_of_false (fun h => by cases h) fun h => by simp [Option.isNone_iff_eq_none.mp hread] at h
  · exact iff_of_false (fun h => by cases h) fun h => hdigest h.2.2
  · exact iff_of_true rfl ⟨not_not.mp hformat, by simpa [Option.isSome_iff_ne_none] using hread, not_not.mp hdigest⟩

theorem request_keys {members : List (Option String × Text)} {d : Nat}
    (h : ReportRequest.decoder.text (.obj members) d = some request) :
    ∃ keys : List String, members.map Prod.fst = keys.map some ∧ keys.Nodup ∧ ∀ key ∈ keys, key ∈ ["format", "status_digest"] :=
  Decoder.record_text_keys (.cons <| .cons .nil) h

/-- The digest of a request is read by the stricter view. -/
theorem request_digest {members digestMembers : List (Option String × Text)} {d : Nat}
    (h : ReportRequest.decoder.text (.obj members) d = some request)
    (hmember : (some "status_digest", Text.obj digestMembers) ∈ members) :
    ReportRequestDigest.decoder.text (.obj digestMembers) (d - 1) = some request.statusDigest := by
  obtain ⟨ms, ⟨format, digest, ⟨⟩⟩, hms, htext, rfl⟩ := Decoder.record_text_obj h
  simp only [Fields.cons, Option.bind_eq_bind, Option.bind_eq_some_iff, Option.some.injEq] at htext
  obtain ⟨_, -, _, ⟨digest', hdigest, _, -, hrest⟩, hall⟩ := htext
  obtain ⟨rfl, rfl⟩ := Prod.mk.inj hrest
  obtain ⟨rfl, hpair⟩ := Prod.mk.inj hall
  obtain ⟨rfl, -⟩ := Prod.mk.inj hpair
  unfold Fields.fieldText at hdigest
  rw [Decoder.readKeys_eq_some hms] at hmember
  obtain ⟨m, hm, hpair⟩ := List.mem_map.mp hmember
  obtain ⟨hkey, htext⟩ := Prod.mk.inj hpair
  have hnamed : m ∈ Fields.named "status_digest" ms :=
    List.mem_filter.mpr ⟨hm, by simp [Option.some.inj hkey]⟩
  split at hdigest
  next hnone => rw [hnone] at hnamed; cases hnamed
  next m' hone =>
    rw [hone, List.mem_singleton] at hnamed
    rw [← htext, hnamed]
    exact hdigest
  · cases hdigest

end Request

/-- A rollback that was refused. -/
def refusedRollback : StatusRecord where
  format := FORMAT
  lifecycle := .failed
  decision := .revertRefused
  reason := .previousBuildWithdrawn
  incoming := ⟨"2.0.0", "b"⟩
  outgoing := ⟨"1.0.0", "a"⟩
  observed := ⟨⟨.sha256, "abababababababababababababababababababababababababababababababab"⟩, none⟩
  supervisorVersion := "2.0.0"
  recordedAtEpochSeconds := 1700000000

/-- Its compact text. -/
def refusedRollbackBytes : Bytes := asBytes <|
  "\x7b\"format\":1,\"lifecycle\":\"failed\",\"decision\":\"revert_refused\"," ++
  "\"reason\":\"previous_build_withdrawn\",\"incoming\":\x7b\"version\":\"2.0.0\",\"commit\":\"b\"\x7d," ++
  "\"outgoing\":\x7b\"version\":\"1.0.0\",\"commit\":\"a\"\x7d,\"observed\":\x7b\"digest\":\x7b\"algorithm\":\"sha256\"," ++
  "\"hex\":\"abababababababababababababababababababababababababababababababab\"\x7d,\"build\":null\x7d," ++
  "\"supervisor_version\":\"2.0.0\",\"recorded_at_epoch_seconds\":1700000000\x7d"

/-- A reader and a digest that know one file. -/
def knowing (file : Bytes) (text : Option Text) (digest : Bytes) : Externals where
  readJson bytes := if bytes = file then text else none
  base64Decode _ := none
  sha256 bytes := if bytes = file then digest else List.replicate 32 0
  verifies _ _ _ _ := false

theorem readJson_knowing {file digest : Bytes} {text : Option Text} : (knowing file text digest).readJson file = text := if_pos rfl

theorem sha256_knowing {file digest : Bytes} {text : Option Text} : (knowing file text digest).sha256 file = digest := if_pos rfl

def refusedRollbackSha256 : Bytes := [
  84, 178, 11, 118, 190, 252, 220, 198, 46, 92, 223, 165, 184, 113, 184, 63, 59, 76, 113, 108, 137, 175, 255, 24,
  223, 245, 232, 216, 45, 59, 86, 26]

def refusedRollbackLib : Externals := knowing refusedRollbackBytes refusedRollback.serialize.toOption refusedRollbackSha256

end DeployCore.SelfUpdate
