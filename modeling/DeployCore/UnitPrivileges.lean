import DeployCore.UnitLines

/-! # What a rendered unit may do

The validator and the renderer decide together over the template, its profiles, the caller's selection and the account
the caller supplies. Read off the rendered lines: a unit runs as root only where that was declared, or where nothing was
declared and nobody supplied an account; no privilege line stands without the account that it is for; and a selected
profile's privileges are its own. -/

namespace DeployCore
namespace UnitFile
open SystemdLine

variable {spec : ModuleSpec} {unit : UnitTemplate} {context : RenderContext} {rendered : RenderedUnit}
  {privileges : Privileges} {lines : ArgumentLines} {text : String} {profile profile' : PrivilegeProfile}

/-- A profile of the template that the caller selected. -/
structure Selected (unit : UnitTemplate) (context : RenderContext) (profile : PrivilegeProfile) : Prop where
  declared : profile ∈ unit.privilegeProfiles
  named : context.privilegeProfile = some profile.name

/-- What validation leaves of the profiles. -/
structure ProfilesAdmitted (unit : UnitTemplate) : Prop where
  vfio : .securityVfio ∉ unit.supplementaryGroups
  names : (unit.privilegeProfiles.map (·.name)).Nodup
  capabilities : ∀ profile ∈ unit.privilegeProfiles, profile.ambientCapabilities.Nodup

theorem profilesAdmitted_of_validate (h : validatePrivilegeProfiles unit = .ok ()) : ProfilesAdmitted unit := by
  unfold validatePrivilegeProfiles at h
  split at h
  · cases h
  rename_i hvfio
  split at h
  · rename_i hempty
    have hnil := List.isEmpty_iff.mp hempty
    exact ⟨by simpa using hvfio, by simp [hnil], by simp [hnil]⟩
  split at h
  · cases h
  split at h
  · cases h
  obtain ⟨_, hnames, h⟩ := Checks.bind_ok h
  obtain ⟨_, -, h⟩ := Checks.bind_ok h
  obtain ⟨_, -, h⟩ := Checks.bind_ok h
  obtain ⟨_, hcapabilities, -⟩ := Checks.bind_ok h
  refine ⟨by simpa using hvfio, Checks.distinct_ok_iff.mp hnames, fun profile hprofile => ?_⟩
  simpa using Checks.distinct_ok_iff.mp (Checks.each_ok_iff.mp hcapabilities profile hprofile)

theorem Selected.unique (hvalid : ProfilesAdmitted unit) (h : Selected unit context profile)
    (h' : Selected unit context profile') : profile = profile' :=
  List.inj_on_of_nodup_map hvalid.names h.declared h'.declared (Option.some.inj (h.named.symm.trans h'.named))

/-- What a selection resolves to: the template's own account and groups, or those of the selected profile. -/
theorem resolvePrivileges_ok (h : resolvePrivileges unit context = .ok privileges) :
    (context.privilegeProfile = none ∧ unit.privilegeProfiles = [] ∧
      privileges = ⟨unit.runAs, unit.supplementaryGroups, none, none⟩) ∨
    ∃ profile, Selected unit context profile ∧
      ((profile.runAs = some .root ∧ privileges = ⟨profile.runAs, [], none, none⟩) ∨
        (profile.runAs = none ∧ context.serviceAccount.isSome ∧ privileges =
          ⟨none, profile.supplementaryGroups, some profile.ambientCapabilities, profile.limitMemlock⟩)) := by
  rcases hselected : context.privilegeProfile with _ | selected
  · rw [resolvePrivileges, hselected, Option.elim_none] at h
    split at h
    · rename_i hempty
      exact .inl ⟨rfl, List.isEmpty_iff.mp hempty, (Except.ok.inj h).symm⟩
    · cases h
  · rw [resolvePrivileges, hselected, Option.elim_some, profilePrivileges] at h
    split at h
    · cases h
    rcases hfind : unit.privilegeProfiles.find? fun profile => decide (profile.name = selected) with _ | profile
    · rw [hfind] at h
      cases h
    rw [hfind, Option.elim_some] at h
    have hname : profile.name = selected := by simpa using List.find?_some hfind
    refine .inr ⟨profile, ⟨List.mem_of_find?_eq_some hfind, hname ▸ hselected⟩, ?_⟩
    rcases hroot : profile.runAs with _ | ⟨⟩
    · simp only [hroot, Option.isSome_none, Bool.false_eq_true, if_false] at h
      split at h
      · cases h
      · rename_i haccount
        exact .inr ⟨rfl, by simpa [Option.isSome_iff_ne_none] using haccount, (Except.ok.inj h).symm⟩
    · simp only [hroot, Option.isSome_some, if_true] at h
      exact .inl ⟨rfl, (Except.ok.inj h).symm⟩

/-! ### Lists of names -/

theorem entries_join {α : Type} {xs : List α} {spelled : α → String}
    (h : ∀ x, (spelled x).toList ≠ [] ∧ ∀ c ∈ (spelled x).toList, isPlain c) :
    entries (join " " (xs.map spelled)).toList = some (xs.map fun x => (spelled x).toList) := by
  rw [join, String.toList_ofList, List.map_map]
  refine entries_intercalate fun name hname => ?_
  obtain ⟨x, -, rfl⟩ := List.mem_map.mp hname
  exact h x

theorem capabilityStr_plain (capability : Capability) :
    (capabilityStr capability).toList ≠ [] ∧ ∀ c ∈ (capabilityStr capability).toList, isPlain c := by
  cases capability <;> simp [capabilityStr, isPlain, isBlank, isQuote]

theorem groupStr_plain (group : SupplementaryGroup) :
    (groupStr group).toList ≠ [] ∧ ∀ c ∈ (groupStr group).toList, isPlain c := by
  cases group <;> simp [groupStr, isPlain, isBlank, isQuote]

theorem capabilityStr_injective : Function.Injective fun capability => (capabilityStr capability).toList := by
  intro c c' h
  cases c <;> cases c' <;> first | rfl | exact absurd h (by decide)

theorem groupStr_eq_vfio {group : SupplementaryGroup} (h : (groupStr group).toList = "clumit-security-vfio".toList) :
    group = .securityVfio := by
  cases group <;> first | rfl | exact absurd h (by decide)

/-! ### The rendered lines -/

/-- What the lines of a rendered unit let it do. -/
structure Confined (unit : UnitTemplate) (context : RenderContext) (text : String) : Prop where
  /-- A unit without an account was declared to run as root, or was left to the caller, who supplied none. -/
  root : assigned text "User" = [] →
    unit.runAs = some .root ∨ (∃ profile, Selected unit context profile ∧ profile.runAs = some .root) ∨
      (context.privilegeProfile = none ∧ unit.supplementaryGroups = [] ∧ context.serviceAccount = none)
  /-- A privilege line comes with an account. -/
  accounted : ∀ name ∈ ["SupplementaryGroups", "AmbientCapabilities", "CapabilityBoundingSet"],
    assigned text name ≠ [] → assigned text "User" ≠ []
  /-- A selected profile that is not root keeps its own capabilities, each once. -/
  bounded : ∀ profile, Selected unit context profile → profile.runAs = none →
    ∃ line names, assigned text "CapabilityBoundingSet" = [line] ∧ entries line = some names ∧ names.Nodup ∧
      names = profile.ambientCapabilities.map fun capability => (capabilityStr capability).toList
  /-- The group of the devices is named by the selected profile. -/
  vfio : ∀ line ∈ assigned text "SupplementaryGroups", ∃ names, entries line = some names ∧
    ("clumit-security-vfio".toList ∈ names →
      ∃ profile, Selected unit context profile ∧ .securityVfio ∈ profile.supplementaryGroups)
  /-- A template with profiles is rendered under one of them. -/
  chosen : unit.privilegeProfiles ≠ [] → ∃ profile, Selected unit context profile

theorem Renders.root (h : Renders unit context privileges lines text) (huser : assigned text "User" = []) :
    unit.runAs = some .root ∨ (∃ profile, Selected unit context profile ∧ profile.runAs = some .root) ∨
      (context.privilegeProfile = none ∧ unit.supplementaryGroups = [] ∧ context.serviceAccount = none) := by
  rw [h.readsLines.user, List.map_eq_nil_iff, Option.toList_eq_nil_iff] at huser
  rcases resolvePrivileges_ok h.resolved with ⟨hnone, -, rfl⟩ | ⟨profile, hselected, hroot | ⟨-, haccount, rfl⟩⟩
  · rcases hroot : unit.runAs with _ | ⟨⟩
    · refine .inr (.inr ⟨hnone, ?_, by simpa [account, hroot] using huser⟩)
      simpa [huser] using h.grouped
    · exact .inl rfl
  · exact .inr (.inl ⟨profile, hselected, hroot.1⟩)
  · simp only [account, Option.isNone_none, if_true] at huser
    rw [huser] at haccount
    cases haccount

theorem Renders.accounted (h : Renders unit context privileges lines text) {name : String}
    (hname : name ∈ ["SupplementaryGroups", "AmbientCapabilities", "CapabilityBoundingSet"])
    (hline : assigned text name ≠ []) : assigned text "User" ≠ [] := by
  have hreads := h.readsLines
  intro huser
  rw [hreads.user, List.map_eq_nil_iff, Option.toList_eq_nil_iff] at huser
  have hgroups : privileges.supplementaryGroups = [] := by simpa [huser] using h.grouped
  have hcapabilities : privileges.capabilities = none := by
    rcases resolvePrivileges_ok h.resolved with ⟨-, -, rfl⟩ | ⟨profile, -, ⟨-, rfl⟩ | ⟨-, haccount, rfl⟩⟩
    · rfl
    · rfl
    · simp only [account, Option.isNone_none, if_true] at huser
      rw [huser] at haccount
      cases haccount
  simp only [List.mem_cons, List.not_mem_nil, or_false] at hname
  rcases hname with rfl | rfl | rfl
  · exact hline (by rw [hreads.groups, if_pos hgroups])
  · exact hline (by rw [hreads.ambient, hcapabilities, Option.elim_none])
  · exact hline (by rw [hreads.bounding, hcapabilities]; rfl)

theorem Renders.bounded (h : Renders unit context privileges lines text) (hselected : Selected unit context profile)
    (hroot : profile.runAs = none) :
    ∃ line names, assigned text "CapabilityBoundingSet" = [line] ∧ entries line = some names ∧ names.Nodup ∧
      names = profile.ambientCapabilities.map fun capability => (capabilityStr capability).toList := by
  have hvalid := profilesAdmitted_of_validate (admitted_of_validateUnit h.valid).profiles
  have hcapabilities : privileges.capabilities = some profile.ambientCapabilities := by
    rcases resolvePrivileges_ok h.resolved with ⟨hnone, -⟩ | ⟨profile', hselected', hother | ⟨-, -, rfl⟩⟩
    · exact absurd (hnone.symm.trans hselected.named) nofun
    · rw [hselected'.unique hvalid hselected, hroot] at hother
      exact absurd hother.1 nofun
    · rw [hselected'.unique hvalid hselected]
  refine ⟨_, _, by rw [h.readsLines.bounding, hcapabilities]; rfl, entries_join capabilityStr_plain, ?_, rfl⟩
  exact (hvalid.capabilities profile hselected.declared).map capabilityStr_injective

theorem Renders.vfio (h : Renders unit context privileges lines text) {line : List Char}
    (hline : line ∈ assigned text "SupplementaryGroups") :
    ∃ names, entries line = some names ∧ ("clumit-security-vfio".toList ∈ names →
      ∃ profile, Selected unit context profile ∧ .securityVfio ∈ profile.supplementaryGroups) := by
  have hvalid := profilesAdmitted_of_validate (admitted_of_validateUnit h.valid).profiles
  rw [h.readsLines.groups] at hline
  split at hline
  · cases hline
  obtain rfl := List.mem_singleton.mp hline
  refine ⟨_, entries_join groupStr_plain, fun hmem => ?_⟩
  obtain ⟨group, hgroup, hspelled⟩ := List.mem_map.mp hmem
  obtain rfl := groupStr_eq_vfio hspelled
  rcases resolvePrivileges_ok h.resolved with ⟨-, -, rfl⟩ | ⟨profile, hselected, ⟨-, rfl⟩ | ⟨-, -, rfl⟩⟩
  · exact absurd hgroup hvalid.vfio
  · cases hgroup
  · exact ⟨profile, hselected, hgroup⟩

/-- The lines of every rendered unit confine it to what its template, its profiles and the caller declared. -/
theorem renderUnit_confined (h : renderUnit spec context = .ok (some rendered)) (hunit : spec.unit = some unit) :
    Confined unit context rendered.text := by
  obtain ⟨privileges, lines, hrenders⟩ := renders_of_renderUnit h hunit
  refine ⟨hrenders.root, fun _ => hrenders.accounted, fun _ => hrenders.bounded, fun _ => hrenders.vfio, fun hne => ?_⟩
  rcases resolvePrivileges_ok hrenders.resolved with ⟨-, hnil, -⟩ | ⟨profile, hselected, -⟩
  · exact absurd hnil hne
  · exact ⟨profile, hselected⟩

/-- A unit with two profiles, one of which is given the devices. -/
def captureUnit : UnitTemplate where
  description := "Capture"
  after := [.networkOnline]
  wants := [.networkOnline]
  wantedBy := [.multiUser]
  execStart := [.var .artifactPath]
  execReload := some [.literal "/bin/kill", .literal "-HUP", .var .mainPid]
  workingDirectory := none
  environment := [("RUST_LOG", .literal "info")]
  restart := .always
  restartSec := 5
  limitNofile := none
  runAs := none
  supplementaryGroups := []
  protectHome := true
  privateTmp := false
  noNewPrivileges := false
  privilegeProfiles := [⟨.root, some .root, [], none, []⟩,
    ⟨.dpdk, none, [.netRaw, .netAdmin], some .infinity, [.securityVfio]⟩]

def captureSpec : ModuleSpec where
  unit := some captureUnit
  registration := ⟨"capture", "capture", .sighup "/opt/capture", none⟩
  placement := .moduleHosts

def captureContext : RenderContext where
  artifactPath := "/opt/capture"
  configPath := "/etc/capture.toml"
  dataDir := "/var/lib/capture"
  instanceId := "1"
  hostname := "host"
  domain := "example"
  certPath := "/etc/cert.pem"
  keyPath := "/etc/key.pem"
  caBundlePath := "/etc/ca.pem"
  managerEndpoint := none
  serviceAccount := some .security
  privilegeProfile := some .dpdk
  unitNamespace := "clumit"
  serviceName := "capture"
  unitInstance := some "a"
  component := "capture"
  kind := .nativeBinary

def captureArguments : ArgumentLines where
  execStart := "/opt/capture"
  execReload := some "/bin/kill -HUP $MAINPID"
  workingDirectory := none
  environment := ["\"RUST_LOG=info\""]

def captureLines : List String :=
  ["[Unit]", "Description=Capture", "After=network-online.target", "Wants=network-online.target", "", "[Service]",
    "User=clumit-security", "SupplementaryGroups=clumit-security-vfio",
    "AmbientCapabilities=CAP_NET_RAW CAP_NET_ADMIN", "CapabilityBoundingSet=CAP_NET_RAW CAP_NET_ADMIN",
    "ExecStart=/opt/capture", "ExecReload=/bin/kill -HUP $MAINPID", "Environment=\"RUST_LOG=info\"", "Restart=always",
    "RestartSec=5", "LimitMEMLOCK=infinity", "ProtectHome=yes", "", "[Install]", "WantedBy=multi-user.target"]

def captureRendered : RenderedUnit := ⟨"clumit-capture-a.service", join "\n" captureLines ++ "\n"⟩

theorem renderUnit_capture : renderUnit captureSpec captureContext = .ok (some captureRendered) := by
  have hlines : unitLines captureUnit ⟨none, [.securityVfio], some [.netRaw, .netAdmin], some .infinity⟩
      (some .security) captureArguments = captureLines := by decide +kernel
  have hrenders : Renders captureUnit captureContext
      ⟨none, [.securityVfio], some [.netRaw, .netAdmin], some .infinity⟩ captureArguments
      captureRendered.text :=
    ⟨by decide +kernel, by decide +kernel, .inr rfl, by decide +kernel, by rw [captureRendered, ← hlines]; rfl⟩
  exact hrenders.renderUnit rfl (by decide +kernel) (by decide +kernel)

theorem renderUnit_confined_capture : Confined captureUnit captureContext captureRendered.text :=
  renderUnit_confined renderUnit_capture rfl

end UnitFile
end DeployCore
