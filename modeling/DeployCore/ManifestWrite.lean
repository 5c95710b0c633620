import DeployCore.Lib.SerdeWrite
import DeployCore.Manifest

/-! # Writing a manifest

What the derived serializers of the manifest's types write, and that the decoders read it back: one `reads` lemma
for each type, up to `PayloadManifest.reads`, where an artifact's image is still the value its declaration was
written as. -/

namespace DeployCore
open Serde Json

variable {d : Nat}

/-! ### Module specs -/

def ArtifactKind.serialize : ArtifactKind → Text
  | .nativeBinary => .str "native-binary"
  | .containerImage => .str "container-image"
  | .composeBundle => .str "compose-bundle"
  | .staticAssets => .str "static-assets"

theorem ArtifactKind.reads (kind : ArtifactKind) (d : Nat) : Reads decoder kind.serialize kind d := by
  cases kind <;> exact .enum_name rfl

def PrivilegeProfileName.serialize : PrivilegeProfileName → Text
  | .root => .str "root"
  | .replay => .str "replay"
  | .afPacket => .str "af-packet"
  | .dpdk => .str "dpdk"

theorem PrivilegeProfileName.reads (name : PrivilegeProfileName) (d : Nat) : Reads decoder name.serialize name d := by
  cases name <;> exact .enum_name rfl

def Capability.serialize : Capability → Text
  | .netRaw => .str "net-raw"
  | .netAdmin => .str "net-admin"

theorem Capability.reads (capability : Capability) (d : Nat) : Reads decoder capability.serialize capability d := by
  cases capability <;> exact .enum_name rfl

def MemlockLimit.serialize : MemlockLimit → Text
  | .infinity => .str "infinity"

theorem MemlockLimit.reads (limit : MemlockLimit) (d : Nat) : Reads decoder limit.serialize limit d := by
  cases limit
  exact .enum_name rfl

def SystemdTarget.serialize : SystemdTarget → Text
  | .networkOnline => .str "network-online"
  | .multiUser => .str "multi-user"

theorem SystemdTarget.reads (target : SystemdTarget) (d : Nat) : Reads decoder target.serialize target d := by
  cases target <;> exact .enum_name rfl

def RestartPolicy.serialize : RestartPolicy → Text
  | .always => .str "always"

theorem RestartPolicy.reads (policy : RestartPolicy) (d : Nat) : Reads decoder policy.serialize policy d := by
  cases policy
  exact .enum_name rfl

def RunAs.serialize : RunAs → Text
  | .root => .str "root"

theorem RunAs.reads (runAs : RunAs) (d : Nat) : Reads decoder runAs.serialize runAs d := by
  cases runAs
  exact .enum_name rfl

def SupplementaryGroup.serialize : SupplementaryGroup → Text
  | .adm => .str "adm"
  | .securityVfio => .str "clumit-security-vfio"

theorem SupplementaryGroup.reads (group : SupplementaryGroup) (d : Nat) : Reads decoder group.serialize group d := by
  cases group <;> exact .enum_name rfl

def RenderVar.serialize : RenderVar → Text
  | .artifactPath => .str "artifact-path"
  | .configPath => .str "config-path"
  | .dataDir => .str "data-dir"
  | .instanceId => .str "instance-id"
  | .hostname => .str "hostname"
  | .domain => .str "domain"
  | .certPath => .str "cert-path"
  | .keyPath => .str "key-path"
  | .caBundlePath => .str "ca-bundle-path"
  | .managerEndpoint => .str "manager-endpoint"
  | .mainPid => .str "main-pid"

theorem RenderVar.reads (var : RenderVar) (d : Nat) : Reads decoder var.serialize var d := by
  cases var <;> exact .enum_name rfl

def Arg.serialize : Arg → Text
  | .literal text => .obj [(some "literal", .str text)]
  | .var name => .obj [(some "var", name.serialize)]

theorem Arg.reads (arg : Arg) (hd : 1 < d) : Reads decoder arg.serialize arg d := by
  cases arg with
  | literal text => exact .enum_payload hd trivial ⟨.str text, rfl, rfl⟩
  | var name =>
    have hname := (name.reads (d - 1)).map Arg.var
    exact .enum_payload hd hname.clean hname.value

def PrivilegeProfile.serialize (profile : PrivilegeProfile) : Text :=
  object [
    ("name", some profile.name.serialize),
    ("run_as", profile.runAs.map RunAs.serialize),
    ("ambient_capabilities", if profile.ambientCapabilities.isEmpty then none
      else some (.arr (profile.ambientCapabilities.map Capability.serialize))),
    ("limit_memlock", profile.limitMemlock.map MemlockLimit.serialize),
    ("supplementary_groups", if profile.supplementaryGroups.isEmpty then none
      else some (.arr (profile.supplementaryGroups.map SupplementaryGroup.serialize)))]

theorem PrivilegeProfile.reads (profile : PrivilegeProfile) (hd : 2 < d) :
    Reads decoder profile.serialize profile d := by
  have hd' : 1 < d - 1 := by omega
  exact .record (by decide) (by omega)
    (.cons (.written (profile.name.reads _)) <| .cons (.skipNone fun r _ => r.reads _) <|
    .cons (.skipIf List.isEmpty_iff.mp fun _ => .list hd' fun c _ => c.reads _) <|
    .cons (.skipNone fun l _ => l.reads _) <|
    .cons (.skipIf List.isEmpty_iff.mp fun _ => .list hd' fun g _ => g.reads _) .nil) rfl

def UnitTemplate.serialize (unit : UnitTemplate) : Text :=
  object [
    ("description", some (.str unit.description)),
    ("after", some (.arr (unit.after.map SystemdTarget.serialize))),
    ("wants", some (.arr (unit.wants.map SystemdTarget.serialize))),
    ("wanted_by", some (.arr (unit.wantedBy.map SystemdTarget.serialize))),
    ("exec_start", some (.arr (unit.execStart.map Arg.serialize))),
    ("exec_reload", unit.execReload.map fun args => .arr (args.map Arg.serialize)),
    ("working_directory", unit.workingDirectory.map Arg.serialize),
    ("environment", some (.arr (unit.environment.map fun entry => .arr [.str entry.1, entry.2.serialize]))),
    ("restart", some unit.restart.serialize),
    ("restart_sec", some (.num (.posInt unit.restartSec.toUInt64))),
    ("limit_nofile", unit.limitNofile.map fun limit => .num (.posInt limit)),
    ("run_as", unit.runAs.map RunAs.serialize),
    ("supplementary_groups", if unit.supplementaryGroups.isEmpty then none
      else some (.arr (unit.supplementaryGroups.map SupplementaryGroup.serialize))),
    ("protect_home", some (.bool unit.protectHome)),
    ("private_tmp", some (.bool unit.privateTmp)),
    ("no_new_privileges", some (.bool unit.noNewPrivileges)),
    ("privilege_profiles", if unit.privilegeProfiles.isEmpty then none
      else some (.arr (unit.privilegeProfiles.map PrivilegeProfile.serialize)))]

theorem UnitTemplate.reads (unit : UnitTemplate) (hd : 4 < d) : Reads decoder unit.serialize unit d := by
  have hd' : 1 < d - 1 := by omega
  have hd'' : 1 < d - 1 - 1 := by omega
  exact .record (by decide) (by omega)
    (.cons (.written (.string _ _)) <|
    .cons (.written (.list hd' fun s _ => s.reads _)) <|
    .cons (.written (.list hd' fun s _ => s.reads _)) <|
    .cons (.written (.list hd' fun s _ => s.reads _)) <|
    .cons (.written (.list hd' fun a _ => a.reads hd'')) <|
    .cons (.skipNone fun _ _ => .list hd' fun a _ => a.reads hd'') <|
    .cons (.skipNone fun a _ => a.reads hd') <|
    .cons (.written (.list hd' fun e _ => .pair hd'' (.string _ _) (e.2.reads (by omega)))) <|
    .cons (.written (unit.restart.reads _)) <|
    .cons (.written (.u32 _ _)) <|
    .cons (.skipNone fun _ _ => .u64 _ _) <|
    .cons (.skipNone fun r _ => r.reads _) <|
    .cons (.skipIf List.isEmpty_iff.mp fun _ => .list hd' fun g _ => g.reads _) <|
    .cons (.written (.bool _ _)) <|
    .cons (.written (.bool _ _)) <|
    .cons (.written (.bool _ _)) <|
    .cons (.skipIf List.isEmpty_iff.mp fun _ => .list hd' fun p _ => p.reads (by omega)) .nil) rfl

def ReloadSpec.serialize : ReloadSpec → Text
  | .sighup processPath => .obj [(some "sighup", object [("process_path", some (.str processPath))])]
  | .dockerSighup container => .obj [(some "docker-sighup", object [("container", some (.str container))])]

theorem ReloadSpec.reads (reload : ReloadSpec) (hd : 2 < d) : Reads decoder reload.serialize reload d := by
  have hd' : 1 < d - 1 := by omega
  cases reload with
  | sighup path =>
    have h : Reads (.record true (.cons "process_path" none .string .nil) fun fields => ReloadSpec.sighup fields.1)
        (object [("process_path", some (.str path))]) (.sighup path) (d - 1) :=
      .record (by decide) hd' (.cons (.written (.string _ _)) .nil) rfl
    obtain ⟨v, hv, hread⟩ := h.value
    obtain ⟨-, _, _, -, -, rfl⟩ := toValue_obj hv
    exact .enum_payload (by omega) ⟨fun _ hnil => (by cases hnil), h.clean⟩ ⟨_, hv, hread⟩
  | dockerSighup container =>
    have h : Reads (.record true (.cons "container" none .string .nil) fun fields => ReloadSpec.dockerSighup fields.1)
        (object [("container", some (.str container))]) (.dockerSighup container) (d - 1) :=
      .record (by decide) hd' (.cons (.written (.string _ _)) .nil) rfl
    obtain ⟨v, hv, hread⟩ := h.value
    obtain ⟨-, _, _, -, -, rfl⟩ := toValue_obj hv
    exact .enum_payload (by omega) ⟨fun _ hnil => (by cases hnil), h.clean⟩ ⟨_, hv, hread⟩

def RegistrationTemplate.serialize (registration : RegistrationTemplate) : Text :=
  object [
    ("package_id", some (.str registration.packageId)),
    ("service_name", some (.str registration.serviceName)),
    ("reload", some registration.reload.serialize),
    ("cert_group_gid", registration.certGroupGid.map fun gid => .num (.posInt gid.toUInt64))]

theorem RegistrationTemplate.reads (registration : RegistrationTemplate) (hd : 3 < d) :
    Reads decoder registration.serialize registration d := by
  exact .record (by decide) (by omega)
    (.cons (.written (.string _ _)) <| .cons (.written (.string _ _)) <|
    .cons (.written (registration.reload.reads (by omega))) <| .cons (.skipNone fun _ _ => .u32 _ _) .nil) rfl

def PlacementClass.serialize : PlacementClass → Text
  | .coreHosts => .str "core-hosts"
  | .moduleHosts => .str "module-hosts"

theorem PlacementClass.reads (placement : PlacementClass) (d : Nat) : Reads decoder placement.serialize placement d := by
  cases placement <;> exact .enum_name rfl

def ModuleSpec.serialize (spec : ModuleSpec) : Text :=
  object [
    ("unit", spec.unit.map UnitTemplate.serialize),
    ("registration", some spec.registration.serialize),
    ("placement", some spec.placement.serialize)]

theorem ModuleSpec.reads (spec : ModuleSpec) (hd : 5 < d) : Reads decoder spec.serialize spec d := by
  exact .record (by decide) (by omega)
    (.cons (.skipNone fun u _ => u.reads (by omega)) <|
    .cons (.written (spec.registration.reads (by omega))) <| .cons (.written (spec.placement.reads _)) .nil) rfl

/-! ### Image declarations -/

def ImageOwner.serialize (owner : ImageOwner) : Text :=
  object [("namespace", some (.str owner.namespaceName)), ("component", some (.str owner.component))]

theorem ImageOwner.reads (owner : ImageOwner) (hd : 1 < d) : Reads decoder owner.serialize owner d :=
  .record (by decide) hd (.cons (.written (.string _ _)) <| .cons (.written (.string _ _)) .nil) rfl

def ImageOs.serialize : ImageOs → Text
  | .linux => .str "linux"

theorem ImageOs.reads (os : ImageOs) (d : Nat) : Reads decoder os.serialize os d := by
  cases os
  exact .enum_name rfl

def ImageArchitecture.serialize : ImageArchitecture → Text
  | .amd64 => .str "amd64"
  | .arm64 => .str "arm64"

theorem ImageArchitecture.reads (architecture : ImageArchitecture) (d : Nat) :
    Reads decoder architecture.serialize architecture d := by
  cases architecture <;> exact .enum_name rfl

def ImagePlatform.serialize (platform : ImagePlatform) : Text :=
  object [
    ("os", some platform.os.serialize),
    ("architecture", some platform.architecture.serialize),
    ("variant", some ((platform.variant.map Text.str).getD .null))]

theorem ImagePlatform.reads (platform : ImagePlatform) (hd : 1 < d) : Reads decoder platform.serialize platform d := by
  exact .record (by decide) hd
    (.cons (.written (platform.os.reads _)) <| .cons (.written (platform.architecture.reads _)) <|
    .cons (.nullable (fun _ _ => .string _ _) trivial) .nil) rfl

def ReferenceLifecycle.serialize : ReferenceLifecycle → Text
  | .managedRuntime => .str "managed_runtime"
  | .sharedExternal => .str "shared_external"

theorem ReferenceLifecycle.reads (lifecycle : ReferenceLifecycle) (d : Nat) :
    Reads decoder lifecycle.serialize lifecycle d := by
  cases lifecycle <;> exact .enum_name rfl

def RegistryProvenance.fields (p : RegistryProvenance) : List (String × Option Text) :=
  [("repository", some (.str p.repository)), ("tag", some (.str p.tag)),
    ("version", some ((p.version.map Text.str).getD .null)), ("pinned_digest", some (.str p.pinnedDigest)),
    ("selected_manifest_digest", some (.str p.selectedManifestDigest))]

def ProductBuildProvenance.fields (p : ProductBuildProvenance) : List (String × Option Text) :=
  [("repository", some (.str p.repository)), ("commit", some (.str p.commit))]

/-- The tag first, then the fields of the variant. -/
def ImageProvenance.serialize : ImageProvenance → Text
  | .registry p => object (("kind", some (.str "registry")) :: p.fields)
  | .productBuild p => object (("kind", some (.str "product_build")) :: p.fields)

theorem lookup_filter_ne {members : Members} {key skipped : String} (hne : key ≠ skipped) :
    (members.filter (·.1 != skipped)).lookup key = members.lookup key := by
  induction members with
  | nil => rfl
  | cons member members ih =>
    obtain ⟨k, v⟩ := member
    by_cases hk : k = skipped
    · rw [List.filter_cons_of_neg (by simp [hk]), ih, List.lookup_cons, beq_false_of_ne (hk ▸ hne)]
    · rw [List.filter_cons_of_pos (by simp [hk]), List.lookup_cons, List.lookup_cons, ih]

/-- A tagged variant: the tag is read, and the variant from the other members. -/
theorem ImageProvenance.reads_tagged {α β : Type} {D : Decoder β} {F : Fields α} {f : α → β} {a : α} {deny : Bool}
    {kind : String} {fields : List (String × Option Text)} {provenance : ImageProvenance}
    (hD : D = .record deny F f) (hd : 1 < d) (hnodup : ("kind" :: F.names).Nodup)
    (h : ReadsFields F fields a (d - 1))
    (hkind : ∀ content, D.value content = some (f a) → ofTagged kind content = some provenance) :
    Reads decoder (object (("kind", some (.str kind)) :: fields)) provenance d := by
  subst hD
  have hnames : ((("kind", some (.str kind)) :: fields).map Prod.fst).Nodup := by
    rw [List.map_cons, h.names]
    exact hnodup
  have hdecodes : ∀ field ∈ ("kind", some (.str kind)) :: fields, ∀ t, field.2 = some t →
      ∃ v, t.toValue (d - 1) = some v := by
    refine List.forall_mem_cons.mpr ⟨?_, h.decodes⟩
    rintro _ ⟨⟩
    exact ⟨.str kind, rfl⟩
  refine ⟨nofun, trivial, _, toValue_object hd hdecodes, ?_⟩
  have hlookup := lookup_decodedFields (d := d - 1) hnames List.mem_cons_self
  simp only [decoder, Decoder.refine, Decoder.any, Option.bind_some, hlookup, Text.toValue, Value.asStr,
    Option.bind_eq_bind]
  refine hkind _ (h.record_value (fun key hkey => ?_) fun field hmem => ?_)
  · obtain ⟨member, hmember, rfl⟩ := List.mem_map.mp hkey
    obtain ⟨hmember, hne⟩ := List.mem_filter.mp hmember
    have hkeys := mem_keys_decodedFields (List.mem_map_of_mem hmember)
    rw [List.map_cons, h.names] at hkeys
    exact (List.mem_cons.mp hkeys).resolve_left (by simpa using hne)
  · rw [lookup_filter_ne, lookup_decodedFields hnames (List.mem_cons_of_mem _ hmem)]
    intro heq
    exact (List.nodup_cons.mp hnodup).1 (heq ▸ h.names ▸ List.mem_map_of_mem hmem)

theorem ImageProvenance.reads (provenance : ImageProvenance) (hd : 1 < d) :
    Reads decoder provenance.serialize provenance d := by
  cases provenance with
  | registry p =>
    exact reads_tagged (D := RegistryProvenance.decoder) rfl hd (by decide)
      (.cons (.written (.string _ _)) <| .cons (.written (.string _ _)) <|
        .cons (.nullable (fun _ _ => .string _ _) trivial) <| .cons (.written (.string _ _)) <|
        .cons (.written (.string _ _)) .nil) fun _ h => congrArg (Option.map registry) h
  | productBuild p =>
    exact reads_tagged (D := ProductBuildProvenance.decoder) rfl hd (by decide)
      (.cons (.written (.string _ _)) <| .cons (.written (.string _ _)) .nil)
      fun _ h => congrArg (Option.map productBuild) h

def ImageDeclaration.serialize (declaration : ImageDeclaration) : Text :=
  object [
    ("schema", some (.num (.posInt declaration.schema.toUInt64))),
    ("owner", some declaration.owner.serialize),
    ("dependency", some (.str declaration.dependency)),
    ("public_refs", some (.arr (declaration.publicRefs.map Text.str))),
    ("platform", some declaration.platform.serialize),
    ("config_digest", some (.str declaration.configDigest)),
    ("reference_lifecycle", some declaration.referenceLifecycle.serialize),
    ("provenance", some declaration.provenance.serialize)]

theorem ImageDeclaration.reads (declaration : ImageDeclaration) (hd : 2 < d) :
    Reads decoder declaration.serialize declaration d := by
  have hd' : 1 < d - 1 := by omega
  exact .record (by decide) (by omega)
    (.cons (.written (.u32 _ _)) <| .cons (.written (declaration.owner.reads hd')) <|
    .cons (.written (.string _ _)) <| .cons (.written (.list hd' fun _ _ => .string _ _)) <|
    .cons (.written (declaration.platform.reads hd')) <| .cons (.written (.string _ _)) <|
    .cons (.written (declaration.referenceLifecycle.reads _)) <|
    .cons (.written (declaration.provenance.reads hd')) .nil) rfl

/-! ### Manifests -/

def TargetArch.serialize : TargetArch → Text
  | .x86_64 => .str "x86_64"
  | .aarch64 => .str "aarch64"

theorem TargetArch.reads (arch : TargetArch) (d : Nat) : Reads decoder arch.serialize arch d := by
  cases arch <;> exact .enum_name rfl

def Disposition.serialize : Disposition → Text
  | .install => .str "install"
  | .stage => .str "stage"

theorem Disposition.reads (disposition : Disposition) (d : Nat) :
    Reads decoder disposition.serialize disposition d := by
  cases disposition <;> exact .enum_name rfl

/-- A set of dispositions in order. -/
def Disposition.sorted (dispositions : Finset Disposition) : List Disposition :=
  [.install, .stage].filter (· ∈ dispositions)

theorem Disposition.toFinset_sorted (dispositions : Finset Disposition) :
    (sorted dispositions).toFinset = dispositions := by
  ext disposition
  cases disposition <;> simp [sorted]

def ArchiveMember.serialize (member : ArchiveMember) : Text :=
  object [("name", some (.str member.name)), ("length", some (.num (.posInt member.length)))]

theorem ArchiveMember.reads (member : ArchiveMember) (hd : 1 < d) : Reads decoder member.serialize member d :=
  .record (by decide) hd (.cons (.written (.string _ _)) <| .cons (.written (.u64 _ _)) .nil) rfl

def PayloadArtifact.serialize (artifact : PayloadArtifact) : Text :=
  object [
    ("component", some (.str artifact.component)),
    ("version", some (.str artifact.version)),
    ("commit", artifact.commit.map Text.str),
    ("target_arch", some artifact.targetArch.serialize),
    ("kind", some artifact.kind.serialize),
    ("dispositions", some (.arr ((Disposition.sorted artifact.dispositions).map Disposition.serialize))),
    ("archive_path", some (.str artifact.archivePath)),
    ("sha256", some (.str artifact.sha256)),
    ("spec", artifact.spec.map ModuleSpec.serialize),
    ("image", artifact.image.map ImageDeclaration.serialize)]

/-- The artifact as it is read, its image the value that was written. -/
def PayloadArtifact.raw (d : Nat) (artifact : PayloadArtifact) : RawArtifact where
  component := artifact.component
  version := artifact.version
  commit := artifact.commit
  targetArch := artifact.targetArch
  kind := artifact.kind
  dispositions := artifact.dispositions
  archivePath := artifact.archivePath
  sha256 := artifact.sha256
  spec := artifact.spec
  image := artifact.image.bind (·.serialize.toValue d)

theorem PayloadArtifact.reads (artifact : PayloadArtifact) (hd : 6 < d) :
    Reads RawArtifact.decoder artifact.serialize (artifact.raw (d - 1)) d := by
  have hd' : 1 < d - 1 := by omega
  have hdispositions : Reads (.map List.toFinset (.seq Disposition.decoder))
      (.arr ((Disposition.sorted artifact.dispositions).map Disposition.serialize)) artifact.dispositions (d - 1) := by
    have hsorted := (Reads.list hd' fun x (_ : x ∈ Disposition.sorted artifact.dispositions) =>
      x.reads (d - 1 - 1)).map List.toFinset
    rwa [Disposition.toFinset_sorted] at hsorted
  have himage : ReadsField (some none) (.map some .any) (d - 1) (artifact.raw (d - 1)).image
      (artifact.image.map ImageDeclaration.serialize) := by
    unfold raw
    cases artifact.image with
    | none => exact rfl
    | some image =>
      have himage := image.reads (d := d - 1) (by omega)
      obtain ⟨v, hv, -⟩ := himage.value
      rw [Option.bind_some, hv]
      exact .written ((Reads.any himage.ne_null hv).map some)
  exact .record (by decide) (by omega)
    (.cons (.written (.string _ _)) <| .cons (.written (.string _ _)) <| .cons (.skipNone fun _ _ => .string _ _) <|
    .cons (.written (artifact.targetArch.reads _)) <| .cons (.written (artifact.kind.reads _)) <|
    .cons (.written hdispositions) <| .cons (.written (.string _ _)) <| .cons (.written (.string _ _)) <|
    .cons (.skipNone fun spec _ => spec.reads (by omega)) <| .cons himage .nil) rfl

/-- The text of a manifest; the trust set is written through `trust_set_codec::serialize`. -/
def PayloadManifest.serialize (base64Encode : Bytes → String) (m : PayloadManifest) : Text :=
  object [
    ("format_version", m.formatVersion.map fun version => .num (.posInt version.toUInt64)),
    ("pinset", m.pinset.map Text.str),
    ("release_build", if !m.releaseBuild then none else some (.bool m.releaseBuild)),
    ("trust_set", m.trustSet.map fun bytes => .str (base64Encode bytes)),
    ("archive_members", m.archiveMembers.map fun members => .arr (members.map ArchiveMember.serialize)),
    ("artifacts", some (.arr (m.artifacts.map PayloadArtifact.serialize)))]

/-- The manifest as it is read. -/
def PayloadManifest.raw (base64Encode : Bytes → String) (d : Nat) (m : PayloadManifest) : RawManifest where
  formatVersion := m.formatVersion
  pinset := m.pinset
  releaseBuild := m.releaseBuild
  trustSet := m.trustSet.map base64Encode
  archiveMembers := m.archiveMembers
  artifacts := m.artifacts.map (PayloadArtifact.raw d)

theorem PayloadManifest.reads (base64Encode : Bytes → String) (m : PayloadManifest) (hd : 8 < d) :
    Reads RawManifest.decoder (m.serialize base64Encode) (m.raw base64Encode (d - 1 - 1 - 1)) d := by
  have hd' : 1 < d - 1 := by omega
  have htrust : ReadsField (some none) (.option .string) (d - 1) (m.trustSet.map base64Encode)
      (m.trustSet.map fun bytes => .str (base64Encode bytes)) := by
    cases m.trustSet with
    | none => exact rfl
    | some bytes => exact .written (Reads.string _ _).option
  exact .record (by decide) (by omega)
    (.cons (.skipNone fun _ _ => .u32 _ _) <| .cons (.skipNone fun _ _ => .string _ _) <|
    .cons (.skipIf (fun h => by simpa using h) fun _ => .bool _ _) <| .cons htrust <|
    .cons (.skipNone fun _ _ => .list hd' fun member _ => member.reads (by omega)) <|
    .cons (.written (.seq hd' fun artifact _ => artifact.reads (by omega))) .nil) rfl

end DeployCore
