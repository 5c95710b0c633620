import DeployCore.Lib.SystemdLine
import DeployCore.RenderUnit

/-! # The lines of a rendered unit

What rendering a unit comes to: the checks it passed, and a text that is read back line by line. Every line is one
line, so a name's values in the text are those of its own directives. -/

namespace DeployCore
namespace UnitFile
open SystemdLine

/-- How the text of a unit came about: a validated template, the privileges it was resolved to, and the values of its
argument lines. -/
structure Renders (unit : UnitTemplate) (context : RenderContext) (privileges : Privileges) (lines : ArgumentLines)
    (text : String) : Prop where
  valid : validateUnit unit = .ok ()
  resolved : resolvePrivileges unit context = .ok privileges
  grouped : privileges.supplementaryGroups = [] ∨ (account privileges context).isSome
  arguments : argumentLines unit context = .ok lines
  text_eq : text = join "\n" (unitLines unit privileges (account privileges context) lines) ++ "\n"

variable {spec : ModuleSpec} {unit : UnitTemplate} {context : RenderContext} {rendered : RenderedUnit}
  {privileges : Privileges} {lines : ArgumentLines} {text : String}

theorem validateUnit_of_validate {component : String} {kind : ArtifactKind}
    (h : spec.validate component kind = .ok ()) (hunit : spec.unit = some unit) : validateUnit unit = .ok () := by
  obtain ⟨_, -, h⟩ := Checks.bind_ok h
  rw [hunit] at h
  obtain ⟨_, hvalid, -⟩ := Checks.bind_ok h
  exact hvalid

theorem renders_of_renderUnit (h : renderUnit spec context = .ok (some rendered)) (hunit : spec.unit = some unit) :
    ∃ privileges lines, Renders unit context privileges lines rendered.text := by
  obtain ⟨_, hvalid, h⟩ := Checks.bind_ok h
  rw [hunit] at h
  obtain ⟨made, hmade, hsome⟩ := Checks.map_ok h
  obtain rfl := Option.some.inj hsome
  obtain ⟨privileges, hprivileges, h⟩ := Checks.bind_ok hmade
  obtain ⟨_, -, h⟩ := Checks.bind_ok h
  obtain ⟨text, htext, h⟩ := Checks.bind_ok h
  obtain rfl := Except.ok.inj h
  rw [renderText] at htext
  split at htext
  · cases htext
  · rename_i hgroups
    obtain ⟨lines, hlines, heq⟩ := Checks.map_ok htext
    refine ⟨privileges, lines, validateUnit_of_validate (Checks.mapError_ok.mp hvalid) hunit, hprivileges, ?_, hlines,
      heq.symm⟩
    by_contra hnot
    simp_all

/-- A spec whose unit renders is rendered, under its name. -/
theorem Renders.renderUnit {fileName : String} (h : Renders unit context privileges lines text)
    (hunit : spec.unit = some unit) (hvalid : spec.validate context.component context.kind = .ok ())
    (hname : unitFileName context = .ok fileName) : renderUnit spec context = .ok (some ⟨fileName, text⟩) := by
  have htext : renderText unit privileges context = .ok text := by
    have hgroups : (!privileges.supplementaryGroups.isEmpty && (account privileges context).isNone) = false := by
      rcases h.grouped with hnone | hsome
      · simp [hnone]
      · simp [Option.isNone_eq_false_iff, hsome]
    rw [renderText, hgroups, if_neg Bool.false_ne_true, h.arguments, h.text_eq]
    rfl
  have htemplate : renderTemplate unit context = .ok ⟨fileName, text⟩ := by
    rw [renderTemplate, h.resolved, hname]
    simp only [Checks.ok_bind, htext]
  rw [UnitFile.renderUnit, hvalid, hunit]
  simp only [Except.mapError, Checks.ok_bind, htemplate]
  rfl

/-! ### What a validated template was held to -/

/-- What validation leaves of a template, as far as the renderer rests on it. -/
structure Admitted (unit : UnitTemplate) : Prop where
  description : isRepresentable unit.description
  execStart : ∀ arg ∈ unit.execStart, validateArg false arg = .ok ()
  execReload : ∀ args, unit.execReload = some args → ∀ arg ∈ args, validateArg true arg = .ok ()
  workingDirectory : ∀ arg, unit.workingDirectory = some arg → validateArg false arg = .ok ()
  environment : ∀ entry ∈ unit.environment, validateEnvironment entry = .ok ()
  groups : unit.runAs.isSome → unit.supplementaryGroups = []
  profiles : validatePrivilegeProfiles unit = .ok ()

/-- The check of a working directory, ahead of the checks behind it. -/
theorem directory_checked {directory : Option Arg} {rest : Unit → Except ModuleSpecError Unit}
    (h : (match directory with
      | some arg => do
        let checked ← validateArg false arg
        rest checked
      | none => do
        let checked ← Except.ok ()
        rest checked) = .ok ()) :
    (∀ arg, directory = some arg → validateArg false arg = .ok ()) ∧ rest () = .ok () := by
  rcases directory with _ | arg
  · exact ⟨nofun, h⟩
  · obtain ⟨_, hcheck, hrest⟩ := Checks.bind_ok h
    exact ⟨fun _ heq => Option.some.inj heq ▸ hcheck, hrest⟩

theorem admitted_of_validateUnit (h : validateUnit unit = .ok ()) : Admitted unit := by
  unfold validateUnit at h
  split at h
  · cases h
  split at h
  · cases h
  rename_i hdescription
  obtain ⟨_, hstart, h⟩ := Checks.bind_ok h
  obtain ⟨_, hreload, h⟩ := Checks.bind_ok h
  obtain ⟨hdirectory, h⟩ := directory_checked h
  obtain ⟨_, henvironment, h⟩ := Checks.bind_ok h
  obtain ⟨_, -, h⟩ := Checks.bind_ok h
  split at h
  · cases h
  rename_i hgroups
  obtain ⟨_, -, hprofiles⟩ := Checks.bind_ok h
  refine ⟨by simpa using hdescription, ?_, ?_, hdirectory, Checks.each_ok_iff.mp henvironment, ?_, hprofiles⟩
  · rcases hargs : unit.execStart with _ | ⟨first, args⟩
    · nofun
    · rw [hargs, validateExecStart] at hstart
      split at hstart
      · cases hstart
      · exact Checks.each_ok_iff.mp hstart
  · intro args hargs
    rw [hargs, validateExecReload] at hreload
    split at hreload
    · cases hreload
    · exact Checks.each_ok_iff.mp hreload
  · intro hroot
    simpa [hroot] using hgroups

/-! ### One line each -/

def OneLine (s : String) : Prop := '\n' ∉ s.toList

instance (s : String) : Decidable (OneLine s) := inferInstanceAs (Decidable ('\n' ∉ s.toList))

theorem OneLine.append {s t : String} (hs : OneLine s) (ht : OneLine t) : OneLine (s ++ t) := by
  simp only [OneLine, String.toList_append, List.mem_append]
  exact not_or.mpr ⟨hs, ht⟩

theorem OneLine.directive {name value : String} (hname : OneLine name) (hvalue : OneLine value) :
    OneLine (directive name value) :=
  (hname.append (by decide)).append hvalue

theorem OneLine.join {parts : List String} (h : ∀ part ∈ parts, OneLine part) : OneLine (join " " parts) := by
  intro hmem
  rw [UnitFile.join, String.toList_ofList] at hmem
  rcases mem_intercalate hmem with heq | ⟨piece, hpiece, hc⟩
  · exact absurd heq (by decide)
  · obtain ⟨part, hpart, rfl⟩ := List.mem_map.mp hpiece
    exact h part hpart hc

theorem OneLine.replaceChar {s by' : String} {from' : Char} (hs : OneLine s) (hby : OneLine by') :
    OneLine (replaceChar s from' by') := by
  simp only [OneLine, UnitFile.replaceChar, String.toList_ofList, List.mem_flatMap, not_exists, not_and]
  intro c hc
  split
  · exact hby
  · exact fun hmem => hs (List.mem_singleton.mp hmem ▸ hc)

theorem OneLine.double {s : String} (hs : OneLine s) (dollars : Bool) : OneLine (double s dollars) := by
  unfold UnitFile.double
  split
  · exact (hs.replaceChar (by decide)).replaceChar (by decide)
  · exact hs.replaceChar (by decide)

theorem OneLine.quote {s : String} (hs : OneLine s) : OneLine (quote s) :=
  ((show OneLine "\"" by decide).append ((hs.replaceChar (by decide)).replaceChar (by decide))).append (by decide)

theorem OneLine.render_argument {raw : String} (h : OneLine raw) : OneLine (render (.argument raw)) := by
  rw [render]
  split
  · exact h.double true
  · exact (h.double true).quote

theorem oneLine_of_representable {s : String} (h : isRepresentable s) : OneLine s := by
  simp only [isRepresentable, Bool.and_eq_true, Bool.not_eq_true', List.any_eq_false] at h
  intro hmem
  exact h.2 _ hmem (by decide)

theorem oneLine_toString (n : Nat) : OneLine (toString n) := by
  intro hmem
  have hdigit := Nat.isDigit_of_mem_toDigits (b := 10) (by decide) (by decide) (by simpa using hmem)
  exact absurd hdigit (by decide)

/-! ### Resolved elements -/

/-- What a host supplies for a variable. -/
def hostValue (var : RenderVar) (context : RenderContext) : Option String :=
  match var with
  | .artifactPath => some context.artifactPath
  | .configPath => some context.configPath
  | .dataDir => some context.dataDir
  | .instanceId => some context.instanceId
  | .hostname => some context.hostname
  | .domain => some context.domain
  | .certPath => some context.certPath
  | .keyPath => some context.keyPath
  | .caBundlePath => some context.caBundlePath
  | .managerEndpoint => context.managerEndpoint
  | .mainPid => none

/-- The text that an element stands for, before it is held to anything. -/
def given (arg : Arg) (context : RenderContext) : Option String :=
  match arg with
  | .literal text => some text
  | .var var => hostValue var context

variable {arg : Arg} {allowed : Bool} {r : Resolved}

theorem resolveVar_eq {var : RenderVar} (h : var ≠ .mainPid) :
    resolveVar var context = (hostValue var context).elim (.error (.unresolvedVariable var)) (representable var) := by
  cases var <;> first | rfl | exact absurd rfl h

theorem literal_checked {literal : String} (h : validateArg allowed (.literal literal) = .ok ()) :
    isRepresentable literal := by
  rw [validateArg] at h
  split at h
  · cases h
  · by_contra hnot
    rw [if_neg hnot] at h
    cases h

theorem mainPid_checked (h : validateArg allowed (.var .mainPid) = .ok ()) : allowed := by
  rw [validateArg] at h
  by_contra hnot
  rw [if_neg hnot] at h
  cases h

/-- An element of a validated list resolves to representable text, or to the main process id where that is allowed. -/
theorem resolve_ok (hvalid : validateArg allowed arg = .ok ()) (h : resolve arg context = .ok r) :
    (r = .mainPid ∧ allowed ∧ given arg context = none) ∨
      ∃ raw, r = .text raw ∧ isRepresentable raw ∧ given arg context = some raw := by
  rcases arg with literal | var
  · obtain rfl := Except.ok.inj h
    exact .inr ⟨literal, rfl, literal_checked hvalid, rfl⟩
  · by_cases hpid : var = .mainPid
    · subst hpid
      exact .inl ⟨(Except.ok.inj h).symm, mainPid_checked hvalid, rfl⟩
    · rw [resolve, resolveVar_eq hpid] at h
      rcases hhost : hostValue var context with _ | raw
      · rw [hhost] at h
        cases h
      · rw [hhost, Option.elim_some, representable] at h
        split at h
        · rename_i hraw
          exact .inr ⟨raw, (Except.ok.inj h).symm, hraw, hhost⟩
        · cases h

theorem oneLine_rendered (hvalid : validateArg allowed arg = .ok ()) (h : resolve arg context = .ok r) :
    OneLine r.rendered := by
  rcases resolve_ok hvalid h with ⟨rfl, -⟩ | ⟨raw, rfl, hraw, -⟩
  · exact (by decide : OneLine MAIN_PID)
  · exact (oneLine_of_representable hraw).render_argument

/-! ### The lines of arguments -/

/-- The values of the argument lines, each with what it was rendered from. -/
structure Arguments (unit : UnitTemplate) (context : RenderContext) (lines : ArgumentLines) : Prop where
  execStart : renderArgs unit.execStart context = .ok lines.execStart
  execReload : optional (renderArgs · context) unit.execReload = .ok lines.execReload
  workingDirectory : optional (renderArg · context) unit.workingDirectory = .ok lines.workingDirectory
  environment : Checks.collect (renderEnvironment context) unit.environment = .ok lines.environment

theorem arguments_of_ok (h : argumentLines unit context = .ok lines) : Arguments unit context lines := by
  obtain ⟨execStart, hstart, h⟩ := Checks.bind_ok h
  obtain ⟨execReload, hreload, h⟩ := Checks.bind_ok h
  obtain ⟨workingDirectory, hdirectory, h⟩ := Checks.bind_ok h
  obtain ⟨environment, henvironment, h⟩ := Checks.bind_ok h
  obtain rfl := Except.ok.inj h
  exact ⟨hstart, hreload, hdirectory, henvironment⟩

theorem optional_ok {α : Type} {renderSome : α → Except RenderError String} {value : Option α} {line : Option String}
    (h : optional renderSome value = .ok line) :
    (value = none ∧ line = none) ∨ ∃ a s, value = some a ∧ line = some s ∧ renderSome a = .ok s := by
  rcases value with _ | a
  · exact .inl ⟨rfl, (Except.ok.inj h).symm⟩
  · obtain ⟨s, hs, rfl⟩ := Checks.map_ok h
    exact .inr ⟨a, s, rfl, rfl, hs⟩

theorem collect_rendered {args : List Arg} {parts : List String}
    (h : List.Forall₂ (fun arg part => renderArg arg context = .ok part) args parts) :
    ∃ resolved, List.Forall₂ (fun arg r => resolve arg context = .ok r) args resolved ∧
      parts = resolved.map Resolved.rendered := by
  induction h with
  | nil => exact ⟨[], .nil, rfl⟩
  | cons hpart _ ih =>
    obtain ⟨r, hr, rfl⟩ := Checks.map_ok hpart
    obtain ⟨resolved, hresolved, rfl⟩ := ih
    exact ⟨r :: resolved, .cons hr hresolved, rfl⟩

/-- A rendered list, by the elements that it was resolved to. -/
theorem renderArgs_ok {args : List Arg} {line : String} (h : renderArgs args context = .ok line) :
    ∃ resolved, List.Forall₂ (fun arg r => resolve arg context = .ok r) args resolved ∧
      line = join " " (resolved.map Resolved.rendered) := by
  obtain ⟨parts, hparts, rfl⟩ := Checks.map_ok h
  obtain ⟨resolved, hresolved, rfl⟩ := collect_rendered (Checks.collect_ok hparts)
  exact ⟨resolved, hresolved, rfl⟩

theorem oneLine_args {args : List Arg} {line : String} (hvalid : ∀ arg ∈ args, validateArg allowed arg = .ok ())
    (h : renderArgs args context = .ok line) : OneLine line := by
  obtain ⟨resolved, hresolved, rfl⟩ := renderArgs_ok h
  refine OneLine.join fun part hpart => ?_
  obtain ⟨r, hr, rfl⟩ := List.mem_map.mp hpart
  obtain ⟨arg, harg, hres⟩ := Checks.exists_rel_of_mem hresolved hr
  exact oneLine_rendered (hvalid arg harg) hres

theorem environment_key {entry : String × Arg} (h : validateEnvironment entry = .ok ()) :
    isEnvironmentKey entry.1 ∧ validateArg false entry.2 = .ok () := by
  unfold validateEnvironment at h
  split at h
  · cases h
  · rename_i hkey
    exact ⟨by simpa using hkey, h⟩

/-- An environment line, by the text that its element was resolved to. -/
theorem renderEnvironment_ok {entry : String × Arg} {line : String} (hvalid : validateEnvironment entry = .ok ())
    (h : renderEnvironment context entry = .ok line) :
    ∃ raw, resolve entry.2 context = .ok (.text raw) ∧ isRepresentable raw ∧ line = render (.environment entry.1 raw) := by
  obtain ⟨shown, hshown, rfl⟩ := Checks.map_ok h
  obtain ⟨r, hr, rfl⟩ := Checks.map_ok hshown
  rcases resolve_ok (environment_key hvalid).2 hr with ⟨-, hallowed, -⟩ | ⟨raw, rfl, hraw, -⟩
  · cases hallowed
  · exact ⟨raw, hr, hraw, rfl⟩

theorem mem_environmentKey {key : String} {c : Char} (h : isEnvironmentKey key) (hc : c ∈ key.toList) :
    isAsciiAlphanumeric c ∨ c = '_' := by
  rw [isEnvironmentKey] at h
  rcases hkey : key.toList with _ | ⟨first, rest⟩
  · rw [hkey] at hc
    cases hc
  · rw [hkey] at h hc
    simp only [headTail, isAsciiAlphanumeric, Bool.and_eq_true, Bool.or_eq_true, beq_iff_eq,
      List.all_eq_true] at h ⊢
    obtain ⟨hfirst, hrest⟩ := h
    rcases List.mem_cons.mp hc with rfl | hc
    · tauto
    · exact hrest c hc

theorem not_mem_key {key : String} {c : Char} (h : isEnvironmentKey key) (hc : ¬(isAsciiAlphanumeric c ∨ c = '_')) :
    c ∉ key.toList :=
  fun hmem => hc (mem_environmentKey h hmem)

theorem oneLine_environment {entry : String × Arg} {line : String} (hvalid : validateEnvironment entry = .ok ())
    (h : renderEnvironment context entry = .ok line) : OneLine line := by
  obtain ⟨raw, -, hraw, rfl⟩ := renderEnvironment_ok hvalid h
  have hkey : OneLine entry.1 := not_mem_key (environment_key hvalid).1 (by decide)
  exact ((hkey.directive (oneLine_of_representable hraw)).double false).quote

/-! ### The values of a name -/

/-- The values that a unit's text assigns to a name. -/
def assigned (text name : String) : List (List Char) := values text.toList name.toList

/-- The value that a line of a unit's text assigns to a name. -/
def lineValue (name line : String) : Option (List Char) := valueFor name.toList line.toList

theorem lineValue_directive {name other value : String} (h : '=' ∉ other.toList) :
    lineValue name (directive other value) = if other = name then some value.toList else none := by
  have hlist : (directive other value).toList = other.toList ++ '=' :: value.toList := by
    simp [directive, String.toList_append]
  rw [lineValue, hlist, valueFor_directive h]
  simp only [String.toList_inj]

theorem lineValue_eq_none {name line : String} (h : '=' ∉ line.toList) : lineValue name line = none :=
  valueFor_eq_none h

theorem oneLine_map {α : Type} {xs : List α} {name : String} {value : α → String} (hname : OneLine name)
    (hvalue : ∀ x ∈ xs, OneLine (value x)) : ∀ line ∈ xs.map fun x => directive name (value x), OneLine line := by
  intro line hline
  obtain ⟨x, hx, rfl⟩ := List.mem_map.mp hline
  exact hname.directive (hvalue x hx)

theorem oneLine_targets {name : String} (hname : OneLine name) (targets : List SystemdTarget) :
    ∀ line ∈ targets.map fun target => directive name (targetStr target), OneLine line :=
  oneLine_map hname fun target _ => by cases target <;> decide

theorem oneLine_groups (groups : List SupplementaryGroup) : ∀ line ∈ groupLines groups, OneLine line := by
  have hspelled : OneLine (join " " (groups.map groupStr)) := by
    refine OneLine.join fun part hpart => ?_
    obtain ⟨group, -, rfl⟩ := List.mem_map.mp hpart
    cases group <;> decide
  intro line hline
  unfold groupLines at hline
  split at hline
  · cases hline
  · rw [List.mem_singleton.mp hline]
    exact OneLine.directive (by decide) hspelled

theorem oneLine_capabilities (capabilities : List Capability) : ∀ line ∈ capabilityLines capabilities, OneLine line := by
  have hspelled : OneLine (join " " (capabilities.map capabilityStr)) := by
    refine OneLine.join fun part hpart => ?_
    obtain ⟨capability, -, rfl⟩ := List.mem_map.mp hpart
    cases capability <;> decide
  intro line hline
  rcases List.mem_append.mp hline with hline | hline
  · split at hline
    · cases hline
    · rw [List.mem_singleton.mp hline]
      exact OneLine.directive (by decide) hspelled
  · rw [List.mem_singleton.mp hline]
    exact OneLine.directive (by decide) hspelled

theorem oneLine_flag {name : String} (hname : OneLine name) (set : Bool) : ∀ line ∈ flag name set, OneLine line := by
  intro line hline
  unfold flag at hline
  split at hline
  · rw [List.mem_singleton.mp hline]
    exact hname.directive (by decide)
  · cases hline

/-- The values of the argument lines are one line each. -/
structure ArgumentLines.Single (lines : ArgumentLines) : Prop where
  execStart : OneLine lines.execStart
  execReload : ∀ line ∈ lines.execReload.toList, OneLine line
  workingDirectory : ∀ line ∈ lines.workingDirectory.toList, OneLine line
  environment : ∀ line ∈ lines.environment, OneLine line

theorem single_of_arguments (h : Admitted unit) (harguments : Arguments unit context lines) : lines.Single where
  execStart := oneLine_args h.execStart harguments.execStart
  execReload := by
    rcases optional_ok harguments.execReload with ⟨-, heq⟩ | ⟨args, line, hargs, heq, hline⟩
    · simp [heq]
    · simpa [heq] using oneLine_args (h.execReload args hargs) hline
  workingDirectory := by
    rcases optional_ok harguments.workingDirectory with ⟨-, heq⟩ | ⟨arg, line, harg, heq, hline⟩
    · simp [heq]
    · obtain ⟨r, hr, rfl⟩ := Checks.map_ok hline
      simpa [heq] using oneLine_rendered (h.workingDirectory arg harg) hr
  environment := by
    intro line hline
    obtain ⟨entry, hentry, hrendered⟩ := Checks.exists_rel_of_mem (Checks.collect_ok harguments.environment) hline
    exact oneLine_environment (h.environment entry hentry) hrendered

theorem oneLine_unitSection (h : Admitted unit) : ∀ line ∈ unitSection unit, OneLine line := by
  have hdescription : OneLine (render (.description unit.description)) :=
    (oneLine_of_representable h.description).double false
  simp only [unitSection, List.forall_mem_append, List.forall_mem_cons]
  exact ⟨⟨by decide, OneLine.directive (by decide) hdescription, oneLine_targets (by decide) unit.after⟩,
    oneLine_targets (by decide) unit.wants⟩

theorem oneLine_serviceSection (h : lines.Single) (account : Option ServiceAccount) :
    ∀ line ∈ serviceSection unit privileges account lines, OneLine line := by
  have haccount : ∀ account : ServiceAccount, OneLine account.asStr := fun account => by cases account <;> decide
  have hcaps : ∀ line ∈ privileges.capabilities.elim [] capabilityLines, OneLine line := by
    rcases privileges.capabilities with _ | capabilities
    · nofun
    · exact oneLine_capabilities capabilities
  have hmemlock : ∀ limit, OneLine (memlockStr limit) := fun limit => by cases limit; decide
  have hrestart : OneLine (restartStr unit.restart) := by cases unit.restart; decide
  have hnumbers : ∀ line ∈ [directive "Restart" (restartStr unit.restart),
      directive "RestartSec" (toString unit.restartSec.toNat)], OneLine line :=
    List.forall_mem_cons.mpr ⟨OneLine.directive (by decide) hrestart, List.forall_mem_singleton.mpr
      (OneLine.directive (by decide) (oneLine_toString _))⟩
  unfold serviceSection
  refine List.forall_mem_append.mpr ⟨?_, oneLine_flag (by decide) _⟩
  refine List.forall_mem_append.mpr ⟨?_, oneLine_flag (by decide) _⟩
  refine List.forall_mem_append.mpr ⟨?_, oneLine_flag (by decide) _⟩
  refine List.forall_mem_append.mpr ⟨?_, oneLine_map (by decide) fun limit _ => hmemlock limit⟩
  refine List.forall_mem_append.mpr ⟨?_, oneLine_map (by decide) fun limit _ => oneLine_toString _⟩
  refine List.forall_mem_append.mpr ⟨?_, hnumbers⟩
  refine List.forall_mem_append.mpr ⟨?_, oneLine_map (by decide) h.environment⟩
  refine List.forall_mem_append.mpr ⟨?_, oneLine_map (by decide) h.workingDirectory⟩
  refine List.forall_mem_append.mpr ⟨?_, oneLine_map (by decide) h.execReload⟩
  refine List.forall_mem_append.mpr ⟨?_, List.forall_mem_singleton.mpr (OneLine.directive (by decide) h.execStart)⟩
  refine List.forall_mem_append.mpr ⟨?_, hcaps⟩
  refine List.forall_mem_append.mpr ⟨?_, oneLine_groups _⟩
  exact List.forall_mem_cons.mpr ⟨by decide, oneLine_map (by decide) fun account _ => haccount account⟩

theorem oneLine_unitLines (h : Admitted unit) (harguments : Arguments unit context lines) (privileges : Privileges)
    (account : Option ServiceAccount) : ∀ line ∈ unitLines unit privileges account lines, OneLine line := by
  have hempty : ∀ line ∈ [""], OneLine line := by decide
  simp only [unitLines, List.forall_mem_append]
  exact ⟨⟨⟨⟨oneLine_unitSection h, hempty⟩, oneLine_serviceSection (single_of_arguments h harguments) account⟩, hempty⟩,
    List.forall_mem_cons.mpr ⟨by decide, oneLine_targets (by decide) unit.wantedBy⟩⟩

/-- The values of a unit's directives, as its text is read. -/
structure ReadsLines (text : String) (privileges : Privileges) (account : Option ServiceAccount) (lines : ArgumentLines) :
    Prop where
  execStart : assigned text "ExecStart" = [lines.execStart.toList]
  execReload : assigned text "ExecReload" = lines.execReload.toList.map String.toList
  environment : assigned text "Environment" = lines.environment.map String.toList
  user : assigned text "User" = account.toList.map fun account => account.asStr.toList
  groups : assigned text "SupplementaryGroups" =
    if privileges.supplementaryGroups = [] then [] else [(join " " (privileges.supplementaryGroups.map groupStr)).toList]
  ambient : assigned text "AmbientCapabilities" = privileges.capabilities.elim [] fun capabilities =>
    if capabilities = [] then [] else [(join " " (capabilities.map capabilityStr)).toList]
  bounding : assigned text "CapabilityBoundingSet" =
    privileges.capabilities.toList.map fun capabilities => (join " " (capabilities.map capabilityStr)).toList

theorem assigned_eq (h : Renders unit context privileges lines text) (name : String) :
    assigned text name = (unitLines unit privileges (account privileges context) lines).filterMap (lineValue name) := by
  have hlines := oneLine_unitLines (admitted_of_validateUnit h.valid)
    (arguments_of_ok h.arguments) privileges (account privileges context)
  rw [assigned, h.text_eq, String.toList_append, join, String.toList_ofList]
  refine (values_lines ?_ (by simp [unitLines, unitSection])).trans ?_
  · intro line hline
    obtain ⟨s, hs, rfl⟩ := List.mem_map.mp hline
    exact hlines s hs
  · rw [List.filterMap_map]
    rfl

theorem Renders.readsLines (h : Renders unit context privileges lines text) :
    ReadsLines text privileges (account privileges context) lines := by
  rcases hcaps : privileges.capabilities with _ | capabilities <;> constructor <;>
    simp +decide [assigned_eq h, hcaps, unitLines, unitSection, serviceSection, installSection, groupLines,
      capabilityLines, flag, apply_ite (List.filterMap _), lineValue_directive, lineValue_eq_none]

end UnitFile
end DeployCore
