import DeployCore.GenerationFails
import DeployCore.ReleaseDoors

/-! # How a door goes through

Where its looks come to a verified generation and the validator accepts that, a door goes on as the engine does with
a host that accepts everything. -/

namespace DeployCore
open Directory Crash Json

/-- A host whose validator accepts everything, in a tree that reloads nothing. -/
def willingHost (elsewhere : Bytes → Except ErrorKind Bytes) : Host ReleaseTrustError :=
  ⟨fun _ _ => .ok (), fun _ => .error "", elsewhere⟩

section Goes
variable {platform : Platform} {surroundings : Surroundings} {root package : Bytes} {verified : VerifiedGeneration}
  {d d' : Disk} {α β : Type}

/-- The engine goes as under a host that accepts everything, where the validator accepts the material. -/
theorem goes_willing {files : List GenerationFile} {out : Outcome ReleaseTrustError Activation}
    (hvalid : ∀ dir, validateStaged platform.lib surroundings.reopen dir files = .ok ())
    (h : Goes (device (willingHost surroundings.elsewhere)) (activateGeneration ⟨root, none⟩ files) d out d') :
    Goes (device (releaseHost platform surroundings)) (activateGeneration ⟨root, none⟩ files) d out d' := by
  obtain ⟨events, hruns⟩ := h
  let c : Call ReleaseTrustError := ⟨⟨root, none⟩, willingHost surroundings.elsewhere, files, d, events, out, d'⟩
  have hwent : c.Went := hruns
  refine ⟨events, hruns.congr (fun o s s' htorn => ?_) fun e he r s hr hends => ?_⟩
  · cases o <;> exact htorn
  · have hjudged := hwent.judged e he r hr
    obtain ⟨o, before, result⟩ := e
    cases o with
    | fs | systemctl => exact hends
    | validate dir copied =>
      obtain ⟨rfl, rfl⟩ := hjudged
      rcases hends with hrun | ⟨hfault, -⟩
      · refine .inl (hrun.trans ?_)
        show (Except.ok (), before) = (validateStaged platform.lib surroundings.reopen dir copied, before)
        rw [hvalid]
      · exact hfault.elim

theorem goes_judged {judge : Look α} {f : α → Admission ReleaseTrustError β} {a : α} {out : Outcome ReleaseTrustError β}
    (hvalue : judge.value (lookDevice platform surroundings) d = .ok a)
    (h : Goes (trustDevice platform surroundings) (f a) d out d') :
    Goes (trustDevice platform surroundings) (look judge >>= f) d out d' := by
  refine goes_bind.mpr (.inl ⟨a, d, ?_, h⟩)
  obtain ⟨hstate, hout⟩ := @eval_looks _ _ _ _ _ _ judge ⟨d, []⟩ lookDevice_looks
  have hruns := @Prog.runs_eval _ _ _ _ _ (lookDevice platform surroundings) judge ⟨d, []⟩
  rw [hout, hvalue] at hruns
  have hgoes := hruns.goes
  rw [hstate] at hgoes
  exact goes_via hgoes

theorem goes_installVerified {out : Outcome ReleaseTrustError Activation}
    (hvalid : ∀ dir, validateStaged platform.lib surroundings.reopen dir
      (material package verified.member verified.epoch) = .ok ())
    (h : Goes (device (willingHost surroundings.elsewhere))
      (activateGeneration ⟨root, none⟩ (material package verified.member verified.epoch)) d out d') :
    Goes (trustDevice platform surroundings) (installVerified root package verified) d
      (out.mapEnd id fun activation => ⟨activation, verified.epoch, verified.document⟩) d' := by
  have hinstall : Goes (trustDevice platform surroundings)
      (installMaterial root package verified.member verified.epoch) d out d' := goes_via (goes_willing hvalid h)
  cases out with
  | ok activation => exact goes_bind.mpr (.inl ⟨activation, d', hinstall, [], .ret⟩)
  | error e => exact goes_bind.mpr (.inr (.inl ⟨e, rfl, hinstall⟩))
  | crashed => exact goes_bind.mpr (.inr (.inr ⟨rfl, hinstall⟩))

/-- What the validator makes of a package that its own anchors vouch for. -/
theorem validateStaged_selfAdmitted {lib : Externals} {reopen : Bytes → Except ErrorKind Source} {dir member : Bytes}
    {document : TrustSetDocument} (hadmitted : admitMember lib (.ofBytes package) member = .ok document)
    (hreopen : reopen (joinPath dir GENERATION_PACKAGE_FILE) = .ok (.ofBytes package)) :
    validateStaged lib reopen dir (material package member document.epoch) = .ok () := by
  have hread := admitMember_ok hadmitted
  obtain ⟨_, _, -, -, -, hchecked⟩ := readTrustSetDocument_ok hread
  have hparsed := parseEpochRecord_render (checkDocument_ok hchecked).1
  rw [validateStaged.eq_def]
  dsimp only [material]
  unfold admitMember at hadmitted
  split at hadmitted
  · cases hadmitted
  next trust epoch hcandidate =>
  obtain ⟨request, hrequest, hadmitted⟩ := Checks.bind_ok hadmitted
  obtain ⟨_, hverify, -⟩ := Checks.bind_ok hadmitted
  rw [hrequest, Checks.ok_bind, hreopen]
  show verifyUnder lib (.ofBytes package) trust request >>= _ = _
  rw [hverify, Checks.ok_bind, hread]
  show parseEpochRecord (renderEpochRecord document.epoch) >>= _ = _
  rw [hparsed, Checks.ok_bind]
  exact if_pos rfl

end Goes

/-! ### Judgements -/

section Judged
variable {platform : Platform} {surroundings : Surroundings} {root package package' member member' : Bytes} {d : Disk}
  {document document' : TrustSetDocument} {verified : VerifiedGeneration} {generation : UInt64} {trust : TrustSet}

theorem value_verifySelfAdmitted (hextracted : platform.extractMember package = .ok member)
    (hadmitted : admitMember platform.lib (.ofBytes package) member = .ok document) :
    (verifySelfAdmitted platform.lib package).value (lookDevice platform surroundings) d =
      .ok ⟨document, document.epoch, member⟩ := by
  rw [verifySelfAdmitted, Prog.value_bind, value_extractMember, hextracted, Checks.ok_bind, Prog.value_bind,
    Prog.value_lift, hadmitted]
  rfl

/-- An empty tree takes any package that its own anchors vouch for. -/
theorem value_judgeEmptyTree (hnone : find d.root ACTIVE_LINK = none) (hextracted : platform.extractMember package = .ok member)
    (hadmitted : admitMember platform.lib (.ofBytes package) member = .ok document) :
    (judgeEmptyTree platform.lib root none (pure package)).value (lookDevice platform surroundings) d =
      .ok (package, ⟨document, document.epoch, member⟩) := by
  have hstat : (tryMetadata ACTIVE_LINK).value (lookDevice platform surroundings) d = .ok (.error .notFound) := by
    refine congrArg Except.ok ?_
    show d.metadata surroundings.stat ACTIVE_LINK = _
    rw [Disk.metadata, hnone]
  rw [judgeEmptyTree, Prog.value_bind, hstat, Checks.ok_bind]
  dsimp only
  rw [Prog.pure_bind, Prog.value_bind, value_verifySelfAdmitted hextracted hadmitted]
  rfl

/-- A package that verifies under the active anchors, and is not the active one, is to be installed. -/
theorem Delivered.value_judgeDelivered
    (hshown : shown d.root = some (shownGeneration generation (material package member document.epoch)))
    (hne : package ≠ package')
    (hactive : (readActiveGeneration platform.lib root).value (lookDevice platform surroundings) d =
      .ok ⟨document, document.epoch, trust⟩)
    (h : Delivered platform package' trust verified) :
    (judgeDelivered platform.lib root package').value (lookDevice platform surroundings) d = .ok (.install verified) := by
  obtain ⟨⟨⟨hextracted, hread⟩, hepoch⟩, ⟨anchors, hprovisional⟩, hcarriers, request, hrequest, hverify⟩ := h
  have hstored : d.read surroundings.elsewhere ACTIVE_LINK GENERATION_PACKAGE_FILE = .ok package :=
    (installedFrom_of_shown hshown).read_iff.mpr (by simp [material])
  rw [judgeDelivered, Prog.value_bind, value_activeGenerationIndex hshown, Checks.ok_bind]
  dsimp only
  rw [Prog.value_bind, hactive, Checks.ok_bind, Prog.value_bind, value_tryRead, hstored, Checks.ok_bind]
  dsimp only
  rw [if_neg hne, Prog.value_bind, value_extractMember, hextracted, Checks.ok_bind, hprovisional]
  dsimp only
  rw [Prog.value_bind, Prog.value_lift, hcarriers, Checks.ok_bind, Prog.value_bind, Prog.value_lift, hrequest]
  show (Prog.lift (verifyUnder platform.lib (.ofBytes package') trust request) >>= _).value _ d = _
  rw [Prog.value_bind, Prog.value_lift, hverify, Checks.ok_bind, Prog.value_bind, Prog.value_lift, hread]
  obtain ⟨document', epoch', member'⟩ := verified
  obtain rfl : epoch' = document'.epoch := hepoch
  rfl

end Judged

/-! ### Three generations -/

/-- A generation at epoch 1, and two that may follow it. The last lists other keys than those that all are signed with. -/
inductive SampleGeneration
  | first
  | second
  | rotated
  deriving DecidableEq

namespace SampleGeneration

def epoch : SampleGeneration → UInt64
  | first => 1
  | second => 2
  | rotated => 3

def epochText : SampleGeneration → String
  | first => "1"
  | second => "2"
  | rotated => "3"

/-- The listed keys repeat one byte. -/
def keyByte : SampleGeneration → UInt8
  | first | second => 0
  | rotated => 0xff

def key (g : SampleGeneration) (algorithm : SignatureAlgorithm) : Bytes :=
  List.replicate algorithm.publicKeyLen g.keyByte

/-- How the document's and the manifest's bytes begin. -/
def memberHead (g : SampleGeneration) : Bytes := asBytes ("\x7b\"epoch\":" ++ g.epochText)
def manifestHead (g : SampleGeneration) : Bytes := asBytes ("\x7b\"artifacts\":[\x7b\"version\":\"" ++ g.epochText)

/-- SHA-256 of the document's and of the manifest's bytes. -/
def memberSha256 : SampleGeneration → Bytes
  | first =>
    [0xfa, 0x01, 0xd9, 0x23, 0xc1, 0x9c, 0xf0, 0x7b, 0x9e, 0x1a, 0xa9, 0x62, 0x64, 0xb3, 0x6e, 0x88, 0x5b,
      0xca, 0xbe, 0x05, 0xcd, 0xc9, 0x7f, 0x0f, 0x0c, 0x0e, 0xce, 0x25, 0x43, 0x1e, 0xbb, 0xef]
  | second =>
    [0x2d, 0x15, 0x46, 0x59, 0xa4, 0xe0, 0x0b, 0x50, 0xf3, 0x86, 0xa1, 0x03, 0xcd, 0x0e, 0x04, 0xf5, 0x50,
      0x2f, 0x6c, 0xf5, 0xfb, 0x07, 0xe1, 0x13, 0xaa, 0xa5, 0x32, 0xb4, 0xe9, 0x07, 0x7e, 0x8a]
  | rotated =>
    [0x36, 0x11, 0x7d, 0xc7, 0x30, 0x58, 0x04, 0x2a, 0xba, 0xe7, 0xc4, 0xe1, 0x10, 0x92, 0xad, 0xef, 0x32,
      0xfc, 0x91, 0x49, 0x34, 0x46, 0x53, 0x79, 0xb2, 0x33, 0x24, 0x49, 0x5c, 0x72, 0xe2, 0xc0]

def manifestSha256 : SampleGeneration → Bytes
  | first =>
    [0xac, 0x71, 0x8c, 0xb6, 0x72, 0x74, 0x1b, 0x21, 0x44, 0x2f, 0x1e, 0x51, 0x4c, 0xbb, 0xcd, 0x49, 0x6c,
      0x30, 0xd4, 0x2c, 0xca, 0x4c, 0x4c, 0xf1, 0x28, 0x0e, 0x2e, 0x93, 0xad, 0x3f, 0x44, 0xe0]
  | second =>
    [0x11, 0x5b, 0x9b, 0x80, 0x20, 0x41, 0x5e, 0x1a, 0x49, 0xb3, 0xe2, 0x89, 0xb6, 0x6d, 0x00, 0x4e, 0x76,
      0x06, 0xca, 0xf9, 0x22, 0x88, 0x54, 0x82, 0x09, 0xbe, 0x56, 0xd7, 0x35, 0x2a, 0xac, 0x83]
  | rotated =>
    [0x38, 0x55, 0x79, 0xee, 0xf1, 0xef, 0x86, 0x23, 0x00, 0xc5, 0x2e, 0xbc, 0x69, 0xad, 0xd6, 0x02, 0xd4,
      0x96, 0xf4, 0xa3, 0x95, 0xd7, 0x8d, 0xe1, 0xce, 0x25, 0x3b, 0xd7, 0xa9, 0xb6, 0xa9, 0x1b]

/-- The generation whose bytes begin so. -/
def withHead (head : SampleGeneration → Bytes) (bytes : Bytes) : Option SampleGeneration :=
  [first, second, rotated].find? fun g => (head g).isPrefixOf bytes

/-- SHA-256 of runs of 32 and of 2,592 bytes of ones. -/
def onesSha256 (bytes : Bytes) : Bytes :=
  if bytes.length = ED25519_PUBLIC_KEY_LEN then
    [0xaf, 0x96, 0x13, 0x76, 0x0f, 0x72, 0x63, 0x5f, 0xbd, 0xb4, 0x4a, 0x5a, 0x0a, 0x63, 0xc3, 0x9f, 0x12,
      0xaf, 0x30, 0xf9, 0x50, 0xa6, 0xee, 0x5c, 0x97, 0x1b, 0xe1, 0x88, 0xe8, 0x9c, 0x40, 0x51]
  else
    [0x22, 0x6a, 0x8f, 0x35, 0xf6, 0x13, 0x9f, 0x47, 0x4e, 0xaa, 0x02, 0xec, 0x96, 0xbd, 0xd6, 0x78, 0xd9,
      0x43, 0x92, 0x4c, 0xa4, 0x31, 0xc3, 0x6f, 0x4d, 0x4d, 0x12, 0xbf, 0x10, 0xba, 0x4a, 0x88]

/-- SHA-256 of the listed keys, the documents and the manifests. -/
def sampleSha256 (bytes : Bytes) : Bytes :=
  match bytes.head? with
  | some 0 => zeroSha256 bytes
  | some 0xff => onesSha256 bytes
  | _ =>
    match withHead memberHead bytes with
    | some g => g.memberSha256
    | none => ((withHead manifestHead bytes).map manifestSha256).getD []

/-- The digest of the document, as the manifest states it. -/
def digestText : SampleGeneration → String
  | first => "fa01d923c19cf07b9e1aa96264b36e885bcabe05cdc97f0f0c0ece25431ebbef"
  | second => "2d154659a4e00b50f386a103cd0e04f5502f6cf5fb07e113aaa532b4e9077e8a"
  | rotated => "36117dc73058042abae7c4e11092adef32fc914934465379b23324495c72e2c0"

def ed25519KeyIdText : SampleGeneration → String
  | first | second => "66687aadf862bd776c8fc18b8e9f8e20089714856ee233b3902a591d0d5f2925"
  | rotated => "af9613760f72635fbdb44a5a0a63c39f12af30f950a6ee5c971be188e89c4051"

def mlDsa87KeyIdText : SampleGeneration → String
  | first | second => "b2069f33fd956c79679b2e5a25c60cd0eab63b023d12111ff0242ae50896e9e1"
  | rotated => "226a8f35f6139f474eaa02ec96bdd678d943924ca431c36f4d4d12bf10ba4a88"

/-- The hexadecimal digits of the key of an algorithm. -/
def keyDigits (g : SampleGeneration) (algorithm : SignatureAlgorithm) : Bytes :=
  List.replicate (2 * algorithm.publicKeyLen) (match g with | rotated => 102 | _ => 48)

/-- The document's bytes. -/
def member (g : SampleGeneration) : Bytes :=
  g.memberHead ++ asBytes (",\"trust_set_version\":2,\"min_manifest_format_version\":3,\"anchors\":[\x7b" ++
      "\"algorithm\":\"ed25519\",\"key_id\":\"" ++ g.ed25519KeyIdText ++ "\",\"public_key\":\"") ++ g.keyDigits .ed25519 ++
    asBytes ("\",\"revoked\":false\x7d,\x7b\"algorithm\":\"ml-dsa-87\",\"key_id\":\"" ++ g.mlDsa87KeyIdText ++
      "\",\"public_key\":\"") ++ g.keyDigits .mlDsa87 ++ asBytes "\",\"revoked\":false\x7d],\"withdrawn_builds\":[]\x7d"

/-- The manifest's bytes. -/
def manifestBytes (g : SampleGeneration) : Bytes :=
  g.manifestHead ++ asBytes ("\",\"commit\":\"" ++ g.digestText ++ "\",\"component\":\"trust\",\"target_arch\":\"x86_64\"," ++
    "\"kind\":\"static-assets\",\"dispositions\":[\"stage\"],\"archive_path\":\"trust-set.json\",\"sha256\":\"" ++
    g.digestText ++ "\"\x7d],\"format_version\":9,\"archive_members\":[\x7b\"name\":\"trust-set.json\"," ++
    "\"length\":5613\x7d]\x7d")

def manifestText (g : SampleGeneration) : Text :=
  .obj [(some "artifacts", .arr [.obj [(some "version", .str g.epochText), (some "commit", .str g.digestText),
      (some "component", .str "trust"), (some "target_arch", .str "x86_64"), (some "kind", .str "static-assets"),
      (some "dispositions", .arr [.str "stage"]), (some "archive_path", .str "trust-set.json"),
      (some "sha256", .str g.digestText)]]),
    (some "format_version", .num (.posInt 9)),
    (some "archive_members", .arr [.obj [(some "name", .str "trust-set.json"), (some "length", .num (.posInt 5613))]])]

def artifact (g : SampleGeneration) : PayloadArtifact :=
  ⟨"trust", g.epochText, some g.digestText, .x86_64, .staticAssets, {.stage}, "trust-set.json", g.digestText, none, none⟩

def manifest (g : SampleGeneration) : PayloadManifest where
  formatVersion := some 9
  pinset := none
  releaseBuild := false
  trustSet := none
  archiveMembers := some [⟨"trust-set.json", 5613⟩]
  artifacts := [g.artifact]

/-- How the archive block begins: the header of a frame of one raw block, and the member's header up to its time. -/
def archiveHead (g : SampleGeneration) : Bytes :=
  [0x28, 0xb5, 0x2f, 0xfd, 0x60, 0x00, 0x1b, 0x01, 0xe0, 0x00] ++ asBytes "trust-set.json" ++ List.replicate 86 0 ++
    asBytes ("0000644\x000000000\x000000000\x0000000012755\x000000000000" ++ g.epochText)

/-- The archive of the document, in a frame that compresses nothing. -/
def archive (g : SampleGeneration) : Bytes :=
  g.archiveHead ++ asBytes ("\x0001062" ++ (match g with | first => "5" | second => "6" | rotated => "7") ++ "\x00 0") ++
    List.replicate 100 0 ++ asBytes "ustar\x0000" ++ List.replicate 247 0 ++ g.member ++ List.replicate 1043 0

def entry (g : SampleGeneration) : ArchiveEntry :=
  ⟨.regular, asBytes "trust-set.json", asBytes "trust-set.json", .ok 5613, 5613, ⟨g.member, none⟩⟩

def container (g : SampleGeneration) : Container :=
  .ofParts [] g.manifestBytes g.archive (some zeroSigned)

def package (g : SampleGeneration) : Bytes := g.container.bytes

end SampleGeneration

/-- Verifies under all-zero keys. -/
def sampleLib : Externals where
  readJson bytes :=
    match SampleGeneration.withHead SampleGeneration.memberHead bytes with
    | some g => some (keysListedText ⟨fun _ => none, fun _ => none, SampleGeneration.sampleSha256, fun _ _ _ _ => false⟩ g.epoch g.key)
    | none => (SampleGeneration.withHead SampleGeneration.manifestHead bytes).map SampleGeneration.manifestText
  base64Decode _ := none
  sha256 := SampleGeneration.sampleSha256
  verifies _ publicKey _ _ := publicKey.head? == some 0

def sampleDecode : ArchiveDecoder := fun stream =>
  match SampleGeneration.withHead SampleGeneration.archiveHead stream.bytes with
  | some g => .ok ⟨[.ok g.entry], [.ok (List.replicate 512 0), .ok []]⟩
  | none => .ok ⟨[], [.ok []]⟩

def samplePlatform : Platform := ⟨sampleLib, sampleDecode, asBytes "/tmp/scratch"⟩


namespace SampleGeneration
variable (g : SampleGeneration)

theorem readJson_member : sampleLib.readJson g.member = some (keysListedText sampleLib g.epoch g.key) := by
  cases g <;> rfl

theorem sha256_member : sampleLib.sha256 g.member = g.memberSha256 := by
  cases g <;> rfl

theorem decode_archive : sampleDecode ⟨g.archive, none⟩ = .ok ⟨[.ok g.entry], [.ok (List.replicate 512 0), .ok []]⟩ := by
  cases g <;> rfl

/-- The digest the manifest states, and how long the files are. -/
theorem measured : toHex g.memberSha256 = g.digestText ∧ g.member.length = 5613 ∧ g.manifestBytes.length = 385 ∧
    g.archive.length = 7178 := by
  have hmember : g.member.length = 5613 := by
    simp only [member, keyDigits, List.length_append, List.length_replicate]
    cases g <;> decide +kernel
  refine ⟨?_, hmember, ?_, ?_⟩
  · rw [toHex, ← String.ofList_toList (s := g.digestText)]
    refine congrArg String.ofList ?_
    cases g <;> decide +kernel
  · cases g <;> decide +kernel
  · simp only [archive, archiveHead, hmember, List.length_append, List.length_replicate]
    cases g <;> decide +kernel

theorem parse_manifestBytes : PayloadManifest.parse sampleLib g.manifestBytes FORMAT_VERSION = .ok g.manifest := by
  cases g <;> rfl

/-- What is checked of a manifest and of its one member's path, apart from the keys. -/
theorem passes_checks : checkCompleteness g.manifest = .ok () ∧ checkIdentifiers g.manifest = .ok () ∧
    isSafeArchivePath "trust-set.json" = true ∧ Staging.refusal ⟨[], none⟩ (segments "trust-set.json") = none := by
  cases g <;> decide +kernel

theorem length_key (algorithm : SignatureAlgorithm) : (g.key algorithm).length = algorithm.publicKeyLen :=
  List.length_replicate

theorem sha256_key (algorithm : SignatureAlgorithm) : sampleLib.sha256 (g.key algorithm) =
    match g with
    | rotated => onesSha256 (g.key algorithm)
    | _ => zeroSha256 (g.key algorithm) := by
  obtain ⟨n, hlen⟩ : ∃ n, algorithm.publicKeyLen = n + 1 := by
    cases algorithm
    · exact ⟨31, rfl⟩
    · exact ⟨2591, rfl⟩
  rw [key, hlen]
  cases g <;> rfl

theorem length_sha256_key (algorithm : SignatureAlgorithm) : (sampleLib.sha256 (g.key algorithm)).length = 32 := by
  rw [sha256_key]
  split
  · unfold onesSha256
    split <;> rfl
  · unfold zeroSha256
    split <;> rfl

theorem keyId_key_ne : keyId sampleLib (g.key .ed25519) ≠ keyId sampleLib (g.key .mlDsa87) := by
  intro heq
  have hlist := congrArg String.toList heq
  simp only [keyId, toHex, String.toList_ofList, sha256_key] at hlist
  have hed : (g.key .ed25519).length = ED25519_PUBLIC_KEY_LEN := g.length_key .ed25519
  have hml : (g.key .mlDsa87).length = ML_DSA_87_PUBLIC_KEY_LEN := g.length_key .mlDsa87
  have hne : ML_DSA_87_PUBLIC_KEY_LEN ≠ ED25519_PUBLIC_KEY_LEN := by decide
  cases g <;>
    · simp only [onesSha256, zeroSha256, hed, hml, if_true, if_neg hne] at hlist
      exact absurd hlist (by decide +kernel)

theorem epoch_ne_zero : g.epoch ≠ 0 := by
  cases g <;> decide

/-- The document that a generation delivers. -/
def document : TrustSetDocument := keysListed sampleLib g.epoch g.key

theorem readTrustSetDocument_member : readTrustSetDocument sampleLib g.member = .ok g.document :=
  readTrustSetDocument_keysListed g.readJson_member g.epoch_ne_zero g.length_key g.length_sha256_key g.keyId_key_ne

/-- The anchors of a document. -/
def anchors : List TrustAnchor :=
  [.of sampleLib .ed25519 (g.key .ed25519) false (g.length_key .ed25519),
    .of sampleLib .mlDsa87 (g.key .mlDsa87) false (g.length_key .mlDsa87)]

theorem nodup_anchors : (g.anchors.map TrustAnchor.keyId).Nodup := by
  have hne := g.keyId_key_ne
  simp only [anchors, List.map_cons, List.map_nil, List.nodup_cons, List.mem_singleton, List.not_mem_nil, not_false_eq_true,
    List.nodup_nil, and_true]
  exact hne

theorem container_sound : g.container.Sound := by
  obtain ⟨-, -, hmanifest, harchive⟩ := g.measured
  refine sound_ofParts (fun s hs => Option.some.inj hs ▸ validateSigned_zeroSigned) ?_ (fun _ => ?_) ?_
  · show 0 + g.manifestBytes.length + g.archive.length + 4819 + 105 < 2 ^ 64
    omega
  · show 0 < 0 + g.manifestBytes.length + g.archive.length
    omega
  · show ¬((0 + g.manifestBytes.length) / 2 ^ 56 = 0x42 ∧ g.archive.length = 0x02444C5950524C54)
    omega

theorem memberDigest_member : memberDigest sampleLib g.member = g.digestText := by
  rw [memberDigest, sha256_member, g.measured.1]

/-- The document is the archive's one member. -/
theorem admits : g.manifest.Admits sampleLib ⟨[.ok g.entry], [.ok (List.replicate 512 0), .ok []]⟩ [(g.entry, g.artifact)] := by
  have hpath : String.fromUTF8? (asBytes "trust-set.json").toByteArray = some "trust-set.json" :=
    Utf8.fromUTF8?_encode (m := "trust-set.json".toList)
  have hdigest : eqIgnoreAsciiCase (toHex (sampleLib.sha256 g.member)) g.digestText = true := by
    rw [sha256_member, g.measured.1, eqIgnoreAsciiCase]
    exact beq_self_eq_true _
  refine ⟨.cons ⟨rfl, List.mem_singleton.mpr rfl, rfl, rfl, rfl, hpath, g.passes_checks.2.2.1, rfl, hdigest⟩ .nil, List.nodup_singleton _,
    fun _ hmem => hmem, ⟨List.replicate 512 0, ?_, List.length_replicate.le, fun _ hmem => List.eq_of_mem_replicate hmem⟩, ?_⟩
  · exact congrArg Except.ok (List.append_nil (List.replicate 512 0))
  · rintro _ ⟨⟩
    show [(⟨"trust-set.json", .ofNat g.member.length⟩ : ArchiveMember)] = _
    rw [g.measured.2.1]
    rfl

/-- What a generation's package is extracted to. -/
theorem carries : samplePlatform.Carries g.package g.member g.document := by
  refine ⟨?_, g.readTrustSetDocument_member⟩
  obtain ⟨payload, hopened, hmanifest, harchive⟩ := openPackage_bytes g.container_sound g.parse_manifestBytes
  have hdecode : sampleDecode ((Source.ofBytes g.package).takeAt payload.archiveOffset.toNat payload.archiveLen.toNat) =
      .ok ⟨[.ok g.entry], [.ok (List.replicate 512 0), .ok []]⟩ :=
    (congrArg sampleDecode harchive).trans g.decode_archive
  have hextracted : extractTo sampleLib sampleDecode (.ofBytes g.package) payload =
      .ok ⟨[(segments "trust-set.json", g.member)], none⟩ := by
    refine extractTo_of_admits hdecode ?_ (hmanifest ▸ g.admits) fun before member after hsplit => ?_
    · rw [hmanifest]
      exact List.nodup_singleton _
    · rcases List.append_eq_singleton_iff.mp hsplit.symm with ⟨rfl, hmember⟩ | ⟨-, hnil⟩
      · cases hmember
        exact g.passes_checks.2.2.2
      · cases hnil
  have hread : Staging.read ⟨[(segments "trust-set.json", g.member)], none⟩ (segments TRUST_SET_MEMBER) = .ok g.member := by
    have hfind : [(segments "trust-set.json", g.member)].find? (·.1 = segments TRUST_SET_MEMBER) =
        some (segments "trust-set.json", g.member) :=
      List.find?_cons_of_pos (decide_eq_true rfl)
    rw [Staging.read, hfind]
  have hopened : openPackage samplePlatform.lib (.ofBytes g.package) = .ok payload := hopened
  have hextracted : extractTo samplePlatform.lib samplePlatform.decode (.ofBytes g.package) payload =
      .ok ⟨[(segments "trust-set.json", g.member)], none⟩ := hextracted
  simp only [Platform.extractMember, hopened, hextracted, Except.mapError, bind, Except.bind, hread]

theorem checkStatements_manifest {request : VerifyRequest} {trust : TrustSet} (htarget : request.target = TRUST_TARGET)
    (hversion : request.version = g.epochText) (hcommit : request.commit = g.digestText)
    (hwithdrawn : trust.withdrawnBuilds = ∅) (hepoch : ∀ epoch, request.epoch = some epoch → trust.epoch < epoch) :
    checkStatements g.manifest request (some trust) = .ok () := by
  obtain ⟨hcompleteness, hidentifiers, -⟩ := g.passes_checks
  have hwithdrawal : checkWithdrawal g.manifest trust = .ok () := by
    refine Checks.each_ok_iff.mpr fun artifact _ => if_neg ?_
    simp [TrustSet.isWithdrawn, hwithdrawn]
  have hrequested : checkTarget g.manifest request = .ok () := by
    refine Checks.each_ok_iff.mpr fun stated hmem => if_neg ?_
    rw [List.mem_singleton.mp hmem, htarget, hversion, hcommit]
    simp [artifact, TRUST_TARGET, PayloadArtifact.commitText]
  have hfresh : checkEpoch request trust = .ok () := by
    unfold checkEpoch
    split
    · rfl
    · next epoch hsome => exact if_pos (hepoch epoch hsome)
  have himages : checkImages g.manifest request = .ok () := rfl
  simp only [checkStatements, hcompleteness, hidentifiers, hwithdrawal, hrequested, hfresh, himages, bind, Except.bind,
    Except.mapError]

/-- A package verifies under the all-zero keys. -/
theorem verifyUnder_package {request : VerifyRequest} {trust : TrustSet} (hanchors : trust.anchors = first.anchors)
    (hfloor : trust.minManifestFormatVersion ≤ 9)
    (hstated : checkStatements g.manifest request (some trust) = .ok ()) :
    verifyUnder sampleLib (.ofBytes g.package) trust request = .ok () := by
  have hread : readPackageContainer (.ofBytes g.package) ENVELOPE_BOUNDS = .ok (g.container.unparsed ENVELOPE_BOUNDS) :=
    Container.readPackageContainer_bytes g.container_sound ENVELOPE_BOUNDS
  have hverifies (algorithm : SignatureAlgorithm) : (List.replicate algorithm.publicKeyLen (0 : UInt8)).head? == some 0 := by
    cases algorithm <;> rfl
  have hvouched : (g.container.unparsed ENVELOPE_BOUNDS).VouchedBy sampleLib trust := by
    refine vouchedBy_ofParts validateSigned_zeroSigned fun algorithm signature =>
      ⟨.of sampleLib algorithm (first.key algorithm) false (first.length_key algorithm), ?_, rfl, rfl, hverifies algorithm⟩
    rw [hanchors]
    cases algorithm
    · exact List.mem_cons_self
    · exact List.mem_cons_of_mem _ List.mem_cons_self
  rw [verifyUnder, verifyPackage_of_vouched hread hvouched g.parse_manifestBytes (fun version hversion => ?_) hstated]
  · rfl
  · cases hversion
    exact hfloor

theorem toString_epoch : toString g.epoch = g.epochText := by
  cases g <;> rfl

theorem provisionalAnchorsAndEpoch_member :
    provisionalAnchorsAndEpoch sampleLib g.member = some (g.anchors, g.epoch) :=
  provisionalAnchorsAndEpoch_keysListed g.readJson_member g.length_key

/-- A generation that lists the keys it is signed with is admitted by itself. -/
theorem admitMember_member (h : g.anchors = first.anchors) :
    admitMember sampleLib (.ofBytes g.package) g.member = .ok g.document := by
  have hcandidate : selfAdmissionCandidate sampleLib g.member = some (⟨g.anchors, ∅, 0, g.epoch, g.nodup_anchors⟩, g.epoch) := by
    simp only [selfAdmissionCandidate, provisionalAnchorsAndEpoch_member, Option.bind_eq_bind, Option.bind_some,
      TrustSet.new_of_nodup [] 0 g.epoch g.nodup_anchors]
    rfl
  have hverify : verifyUnder sampleLib (.ofBytes g.package) ⟨g.anchors, ∅, 0, g.epoch, g.nodup_anchors⟩
      ⟨TRUST_TARGET, toString g.epoch, memberDigest sampleLib g.member, none, none, fun h => (by cases h),
        VerifyRequest.nameless TRUST_TARGET⟩ = .ok () :=
    g.verifyUnder_package h UInt32.zero_le (g.checkStatements_manifest rfl g.toString_epoch g.memberDigest_member rfl fun _ h => by cases h)
  simp only [admitMember, hcandidate, VerifyRequest.forTrustSelfAdmission, Except.mapError, bind, Except.bind, hverify,
    g.readTrustSetDocument_member]

/-- A later generation is delivered to a tree whose active generation is the first. -/
theorem delivered {trust : TrustSet} (hmakes : first.document.Makes sampleLib trust) (hlt : 1 < g.epoch) :
    Delivered samplePlatform g.package trust ⟨g.document, g.epoch, g.member⟩ := by
  obtain ⟨payload, hopened, hmanifest, -⟩ := openPackage_bytes g.container_sound g.parse_manifestBytes
  have hanchors : trust.anchors = first.anchors :=
    Option.some.inj (hmakes.anchors.symm.trans (documentAnchors_keysListed first.length_key))
  have hfloor : trust.minManifestFormatVersion ≤ 9 := by
    rw [hmakes.floor]
    show (3 : UInt32) ≤ 9
    decide
  have hcarriers : checkDeliveredEpochCarriers sampleLib g.package g.epoch = .ok () := by
    have hopened : openPackage sampleLib (.ofBytes g.package) = .ok payload := hopened
    simp only [checkDeliveredEpochCarriers, hopened, Except.mapError, bind, Except.bind, hmanifest]
    refine Checks.each_ok_iff.mpr fun stated hmem => if_neg (not_not.mpr ?_)
    rw [List.mem_singleton.mp hmem]
    exact g.toString_epoch.symm
  refine ⟨⟨g.carries, rfl⟩, ⟨g.anchors, g.provisionalAnchorsAndEpoch_member⟩, hcarriers, _, rfl, ?_⟩
  refine g.verifyUnder_package hanchors hfloor
    (g.checkStatements_manifest rfl g.toString_epoch g.memberDigest_member hmakes.withdrawn fun epoch hepoch => ?_)
  cases hepoch
  rw [hmakes.epoch]
  exact hlt

end SampleGeneration

/-! ### A seeded tree -/

attribute [irreducible] SampleGeneration.package SampleGeneration.member

section Seeded
open SampleGeneration

def sampleRoot : Bytes := asBytes "/t"

/-- Nothing else can be read, and the staged container opens as this one. -/
def sampleSurroundings (package : Bytes) : Surroundings :=
  ⟨fun _ => .error .notFound, fun _ => .error .notFound, fun _ => .ok (.ofBytes package)⟩

/-- The installation of a generation, where every operation is carried out. -/
def installRun (g : SampleGeneration) (d : Disk) : Outcome ReleaseTrustError Activation × World Op (Op.Result ReleaseTrustError) Disk :=
  (activateGeneration ⟨sampleRoot, none⟩ (material g.package g.member g.epoch)).eval
    (device (willingHost fun _ => .error .notFound)) ⟨d, []⟩

/-- The empty tree behind the installation of the first generation. -/
def seeded : Disk := (installRun first ⟨[], []⟩).2.state

theorem goes_installRun : Goes (device (willingHost fun _ => .error .notFound))
    (activateGeneration ⟨sampleRoot, none⟩ (material first.package first.member first.epoch)) ⟨[], []⟩ (.ok ⟨1, true⟩) seeded := by
  have hok : (installRun first ⟨[], []⟩).1 = .ok ⟨1, true⟩ := Outcome.toOption_eq_some.mp (by decide +kernel)
  have hruns : Runs (device (willingHost fun _ => .error .notFound))
      (activateGeneration ⟨sampleRoot, none⟩ (material first.package first.member first.epoch)) ⟨⟨[], []⟩, []⟩
      (installRun first ⟨[], []⟩).1 (installRun first ⟨[], []⟩).2 := Prog.runs_eval _ _
  rw [hok] at hruns
  exact hruns.goes

theorem shown_seeded : shown seeded.root = some (shownGeneration 1 (material first.package first.member first.epoch)) := by
  obtain ⟨events, hruns⟩ := goes_installRun
  let c : Call ReleaseTrustError := ⟨⟨sampleRoot, none⟩, willingHost fun _ => .error .notFound,
    material first.package first.member first.epoch, ⟨[], []⟩, events, .ok ⟨1, true⟩, seeded⟩
  have hwent : c.Went := hruns
  have hkeeps : c.before.Keeps fun _ => True := by
    intro view hview node hnode
    cases List.mem_singleton.mp hview
    cases hnode
  rcases (Call.moved hwent hkeeps trivial).2.2.2 _ rfl with ⟨hunchanged, -⟩ | ⟨-, hviews⟩
  · cases hunchanged
  · exact hviews _ Disk.mem_views_root

/-- Its validator accepts a generation that lists the keys it is signed with. -/
theorem validateStaged_sample {g : SampleGeneration} (h : g.anchors = first.anchors) (dir : Bytes) :
    validateStaged samplePlatform.lib (sampleSurroundings g.package).reopen dir (material g.package g.member g.epoch) = .ok () := by
  have hepoch : g.document.epoch = g.epoch := rfl
  have hreopen : (sampleSurroundings g.package).reopen (joinPath dir GENERATION_PACKAGE_FILE) = .ok (.ofBytes g.package) := rfl
  have hvalid := validateStaged_selfAdmitted (g.admitMember_member h) hreopen
  rw [hepoch] at hvalid
  exact hvalid

theorem goes_seed : Goes (trustDevice samplePlatform (sampleSurroundings first.package))
    (admitSeedGeneration samplePlatform.lib sampleRoot first.package) ⟨[], []⟩ (.ok ⟨⟨1, true⟩, 1, first.document⟩) seeded := by
  have hvalue : (judgeEmptyTree samplePlatform.lib sampleRoot none (pure first.package)).value
      (lookDevice samplePlatform (sampleSurroundings first.package)) ⟨[], []⟩ =
        .ok (first.package, ⟨first.document, first.epoch, first.member⟩) :=
    value_judgeEmptyTree rfl first.carries.extracted (first.admitMember_member rfl)
  have hinstalled := @goes_installVerified samplePlatform (sampleSurroundings first.package) sampleRoot first.package
    ⟨first.document, first.epoch, first.member⟩ _ _ _ (validateStaged_sample rfl) goes_installRun
  exact goes_judged hvalue hinstalled

/-- A tree whose active generation is the first judges a later one fit to be installed. -/
theorem value_judgeDelivered_seeded {d : Disk} {surroundings : Surroundings} {g : SampleGeneration}
    (hshown : shown d.root = shown seeded.root) (hlt : 1 < g.epoch) :
    (judgeDelivered samplePlatform.lib sampleRoot g.package).value (lookDevice samplePlatform surroundings) d =
      .ok (.install ⟨g.document, g.epoch, g.member⟩) := by
  rw [shown_seeded] at hshown
  obtain ⟨trust, hactive, hmakes⟩ :=
    @value_readActiveGeneration _ surroundings sampleRoot _ _ _ _ _ hshown first.carries
  have hne : first.package ≠ g.package := by
    cases g
    · exact absurd hlt (by decide)
    · decide +kernel
    · decide +kernel
  exact (g.delivered hmakes hlt).value_judgeDelivered hshown hne hactive

end Seeded

end DeployCore
