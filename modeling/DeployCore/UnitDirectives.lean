import DeployCore.Lib.UnitSections
import DeployCore.UnitPrivileges
import DeployCore.UnitReader

/-! # The directives of a rendered unit

The record's documentation fixes the sections of a unit and the order of their directives. A rendered text reads as
exactly these where its description keeps its place on a line and its working directory, which the reader takes as it
stands, is rendered as it stands. -/

namespace DeployCore
namespace UnitFile
open SystemdLine

/-! ### What the documentation calls for -/

/-- The profile that the caller selected. -/
def chosen (unit : UnitTemplate) (context : RenderContext) : Option PrivilegeProfile :=
  context.privilegeProfile.bind fun name => unit.privilegeProfiles.find? fun profile => decide (profile.name = name)

/-- A selected profile stands in for the template's own account and groups; one that runs as root has no lines. -/
def calledPrivileges (unit : UnitTemplate) (context : RenderContext) : Privileges :=
  (chosen unit context).elim ⟨unit.runAs, unit.supplementaryGroups, none, none⟩ fun profile =>
    if profile.runAs.isSome then ⟨profile.runAs, [], none, none⟩
    else ⟨none, profile.supplementaryGroups, some profile.ambientCapabilities, profile.limitMemlock⟩

/-- The values of the directives that carry arguments. -/
structure ArgumentValues where
  execStart : List Char
  execReload : Option (List Char)
  workingDirectory : Option (List Char)
  environment : List (List Char)
  deriving DecidableEq

/-- An element of a command line: quoted where its text is not bare-safe, with its dollar signs doubled. -/
def element (context : RenderContext) (arg : Arg) : List Char :=
  (given arg context).elim MAINPID fun raw =>
    if isBareSafe raw then doubled '$' raw.toList else quoted (doubled '$' raw.toList)

def commandLine (context : RenderContext) (args : List Arg) : List Char :=
  List.intercalate [' '] (args.map (element context))

/-- The text that an element resolves to. -/
def resolvedText (context : RenderContext) (arg : Arg) : List Char := (given arg context).elim [] String.toList

def settingLine (context : RenderContext) (entry : String × Arg) : List Char :=
  quoted (entry.1.toList ++ '=' :: resolvedText context entry.2)

/-- The values that the template and the context call for: the working directory is the resolved path. -/
def calledValues (unit : UnitTemplate) (context : RenderContext) : ArgumentValues where
  execStart := commandLine context unit.execStart
  execReload := unit.execReload.map (commandLine context)
  workingDirectory := unit.workingDirectory.map (resolvedText context)
  environment := unit.environment.map (settingLine context)

def named (name : String) (value : List Char) : Directive := (name.toList, value)

def spelled (name : String) (value : String) : Directive := named name value.toList

/-- The directives behind the description. -/
def orderDirectives (unit : UnitTemplate) : List Directive :=
  unit.after.map (fun target => spelled "After" (targetStr target)) ++
    unit.wants.map fun target => spelled "Wants" (targetStr target)

def unitDirectives (unit : UnitTemplate) : List Directive :=
  spelled "Description" unit.description :: orderDirectives unit

def groupDirectives (groups : List SupplementaryGroup) : List Directive :=
  if groups = [] then [] else [spelled "SupplementaryGroups" (join " " (groups.map groupStr))]

def capabilityDirectives (capabilities : List Capability) : List Directive :=
  (if capabilities = [] then [] else [spelled "AmbientCapabilities" (join " " (capabilities.map capabilityStr))]) ++
    [spelled "CapabilityBoundingSet" (join " " (capabilities.map capabilityStr))]

def flagDirectives (name : String) (set : Bool) : List Directive := if set then [spelled name "yes"] else []

/-- The directives ahead of the commands. -/
def accountDirectives (privileges : Privileges) (account : Option ServiceAccount) : List Directive :=
  account.toList.map (fun account => spelled "User" account.asStr) ++ groupDirectives privileges.supplementaryGroups ++
    privileges.capabilities.elim [] capabilityDirectives

def commandDirectives (values : ArgumentValues) : List Directive :=
  [named "ExecStart" values.execStart] ++ values.execReload.toList.map (named "ExecReload")

/-- The directives behind the working directory. -/
def settingDirectives (unit : UnitTemplate) (privileges : Privileges) (values : ArgumentValues) : List Directive :=
  values.environment.map (named "Environment") ++
    [spelled "Restart" (restartStr unit.restart), spelled "RestartSec" (toString unit.restartSec.toNat)] ++
    unit.limitNofile.toList.map (fun limit => spelled "LimitNOFILE" (toString limit.toNat)) ++
    privileges.limitMemlock.toList.map (fun limit => spelled "LimitMEMLOCK" (memlockStr limit)) ++
    flagDirectives "ProtectHome" unit.protectHome ++ flagDirectives "PrivateTmp" unit.privateTmp ++
    flagDirectives "NoNewPrivileges" unit.noNewPrivileges

def serviceDirectives (unit : UnitTemplate) (privileges : Privileges) (account : Option ServiceAccount)
    (values : ArgumentValues) : List Directive :=
  accountDirectives privileges account ++ commandDirectives values ++
    values.workingDirectory.toList.map (named "WorkingDirectory") ++ settingDirectives unit privileges values

def installDirectives (unit : UnitTemplate) : List Directive :=
  unit.wantedBy.map fun target => spelled "WantedBy" (targetStr target)

/-- The canonical layout. -/
def canonical (unit : UnitTemplate) (privileges : Privileges) (account : Option ServiceAccount)
    (values : ArgumentValues) : List Section :=
  [⟨"Unit".toList, unitDirectives unit⟩, ⟨"Service".toList, serviceDirectives unit privileges account values⟩,
    ⟨"Install".toList, installDirectives unit⟩]

/-- The sections that a template, the selected profile and the context call for. -/
def calledFor (unit : UnitTemplate) (context : RenderContext) : List Section :=
  canonical unit (calledPrivileges unit context) (account (calledPrivileges unit context) context)
    (calledValues unit context)

variable {spec : ModuleSpec} {unit : UnitTemplate} {context : RenderContext} {rendered : RenderedUnit}
  {privileges : Privileges} {lines : ArgumentLines} {text : String} {values : ArgumentValues}

theorem calledPrivileges_eq (h : resolvePrivileges unit context = .ok privileges) :
    calledPrivileges unit context = privileges := by
  rcases hselected : context.privilegeProfile with _ | selected
  · rw [resolvePrivileges, hselected, Option.elim_none] at h
    rw [calledPrivileges, chosen, hselected, Option.bind_none, Option.elim_none]
    split at h
    · exact Except.ok.inj h
    · cases h
  · rw [resolvePrivileges, hselected, Option.elim_some, profilePrivileges] at h
    rw [calledPrivileges, chosen, hselected, Option.bind_some]
    split at h
    · cases h
    rcases hfind : unit.privilegeProfiles.find? fun profile => decide (profile.name = selected) with _ | profile
    · rw [hfind] at h
      cases h
    rw [hfind, Option.elim_some] at h
    rw [hfind, Option.elim_some]
    split at h
    · rename_i hroot
      rw [if_pos hroot, Except.ok.inj h]
    · rename_i hroot
      rw [if_neg hroot]
      split at h
      · cases h
      · exact Except.ok.inj h

/-! ### What the lines carry -/

/-- The lines carry these values, their percent signs doubled. -/
structure Carries (lines : ArgumentLines) (values : ArgumentValues) : Prop where
  execStart : lines.execStart.toList = doubled '%' values.execStart
  execReload : lines.execReload.toList.map String.toList = values.execReload.toList.map (doubled '%')
  workingDirectory : lines.workingDirectory.toList.map String.toList = values.workingDirectory.toList.map (doubled '%')
  environment : lines.environment.map String.toList = values.environment.map (doubled '%')

theorem toList_directive {name value : String} {carried : List Char} (h : value.toList = doubled '%' carried) :
    (directive name value).toList = writtenLine (named name carried) := by
  simp [directive, writtenLine, named, String.toList_append, h]

theorem map_directive (name : String) {values : List String} {carried : List (List Char)}
    (h : values.map String.toList = carried.map (doubled '%')) :
    (values.map (directive name)).map String.toList = (carried.map (named name)).map writtenLine := by
  induction values generalizing carried with
  | nil =>
    obtain rfl := List.map_eq_nil_iff.mp h.symm
    rfl
  | cons value values ih =>
    rcases carried with _ | ⟨carriedValue, carried⟩
    · cases h
    · rw [List.map_cons, List.map_cons, List.cons.injEq] at h
      simp only [List.map_cons, toList_directive h.1, ih h.2]

/-- A value without percent signs is carried as it is. -/
theorem toList_spelled (name : String) {value : String} (h : '%' ∉ value.toList) :
    (directive name value).toList = writtenLine (spelled name value) :=
  toList_directive (doubled_of_not_mem h).symm

theorem map_spelled {α : Type} (name : String) {value : α → String} (h : ∀ x, '%' ∉ (value x).toList) (xs : List α) :
    (xs.map fun x => directive name (value x)).map String.toList =
      (xs.map fun x => spelled name (value x)).map writtenLine := by
  rw [List.map_map, List.map_map]
  exact List.map_congr_left fun x _ => toList_spelled name (h x)

/-- A spelling that a directive carries as it is, and that keeps its place. -/
structure Constant (value : String) : Prop where
  percent : '%' ∉ value.toList
  stands : Stands value.toList

theorem constant_plain {value : String} (hne : value.toList ≠ [])
    (h : ∀ c ∈ value.toList, isPlain c ∧ c ≠ '%') : Constant value where
  percent := fun hmem => (h _ hmem).2 rfl
  stands := (firm_plain hne fun c hc => (h c hc).1).stands

theorem constant_target (target : SystemdTarget) : Constant (targetStr target) := by
  refine constant_plain ?_ ?_ <;> cases target <;> simp [targetStr, isPlain, isBlank, isQuote]

theorem constant_account (account : ServiceAccount) : Constant account.asStr := by
  refine constant_plain ?_ ?_ <;> cases account <;> simp [ServiceAccount.asStr, isPlain, isBlank, isQuote]

theorem constant_restart (policy : RestartPolicy) : Constant (restartStr policy) := by
  refine constant_plain ?_ ?_ <;> cases policy <;> simp [restartStr, isPlain, isBlank, isQuote]

theorem constant_memlock (limit : MemlockLimit) : Constant (memlockStr limit) := by
  refine constant_plain ?_ ?_ <;> cases limit <;> simp [memlockStr, isPlain, isBlank, isQuote]

theorem plain_of_isDigit {c : Char} (h : c.isDigit) : isPlain c ∧ c ≠ '%' := by
  have hne : ∀ d : Char, d.isDigit = false → c ≠ d := by
    rintro d hd rfl
    simp [h] at hd
  have hquote : c.toNat ≠ 0x27 := by
    have hlow : 0x30 ≤ c.toNat := (Char.isDigit_iff_toNat.mp h).1
    omega
  refine ⟨?_, hne '%' (by decide)⟩
  simp [isPlain, isBlank, isQuote, hquote, hne ' ' (by decide), hne '\t' (by decide), hne '\n' (by decide),
    hne '\r' (by decide), hne '"' (by decide), hne '\\' (by decide)]

theorem constant_number (n : Nat) : Constant (toString n) :=
  constant_plain (by simp) fun _ hc =>
    plain_of_isDigit (Nat.isDigit_of_mem_toDigits (b := 10) (by decide) (by decide) (by simpa using hc))

theorem constant_yes : Constant "yes" := constant_plain (by simp) (by simp [isPlain, isBlank, isQuote])

/-- Spellings with a blank between them. -/
theorem constant_join {α : Type} {spell : α → String} (xs : List α)
    (h : ∀ x, (spell x).toList ≠ [] ∧ ∀ c ∈ (spell x).toList, isPlain c) (hpercent : ∀ x, '%' ∉ (spell x).toList) :
    Constant (join " " (xs.map spell)) := by
  rw [join, List.map_map]
  constructor
  · rw [String.toList_ofList]
    intro hmem
    rcases mem_intercalate hmem with heq | ⟨piece, hpiece, hc⟩
    · exact absurd heq (by decide)
    · obtain ⟨x, -, rfl⟩ := List.mem_map.mp hpiece
      exact hpercent x hc
  · rw [String.toList_ofList]
    rcases xs with _ | ⟨x, xs⟩
    · exact stands_nil
    · refine (firm_intercalate (by simp) fun piece hpiece => ?_).stands
      obtain ⟨x', -, rfl⟩ := List.mem_map.mp hpiece
      exact firm_plain (h x').1 (h x').2

theorem constant_groups (groups : List SupplementaryGroup) : Constant (join " " (groups.map groupStr)) :=
  constant_join groups groupStr_plain fun group => by cases group <;> simp [groupStr]

theorem constant_capabilities (capabilities : List Capability) :
    Constant (join " " (capabilities.map capabilityStr)) :=
  constant_join capabilities capabilityStr_plain fun capability => by cases capability <;> simp [capabilityStr]

/-! ### The lines of a section -/

theorem map_groupLines (groups : List SupplementaryGroup) :
    (groupLines groups).map String.toList = (groupDirectives groups).map writtenLine := by
  rcases groups with _ | ⟨group, groups⟩
  · rfl
  · simp only [groupLines, groupDirectives, List.isEmpty_cons, Bool.false_eq_true, if_false, List.map_singleton,
      reduceCtorEq, toList_spelled "SupplementaryGroups" (constant_groups (group :: groups)).percent]

theorem map_capabilityLines (capabilities : List Capability) :
    (capabilityLines capabilities).map String.toList = (capabilityDirectives capabilities).map writtenLine := by
  have hspelled := fun name => toList_spelled name (constant_capabilities capabilities).percent
  rcases capabilities with _ | ⟨capability, capabilities⟩
  · simp only [capabilityLines, capabilityDirectives, List.isEmpty_nil, if_true, List.nil_append, List.map_singleton,
      hspelled]
  · simp only [capabilityLines, capabilityDirectives, List.isEmpty_cons, Bool.false_eq_true, reduceCtorEq, if_false,
      List.map_append, List.map_singleton, hspelled]

theorem map_flag (name : String) (set : Bool) :
    (flag name set).map String.toList = (flagDirectives name set).map writtenLine := by
  cases set
  · rfl
  · simp only [flag, flagDirectives, if_true, List.map_singleton, toList_spelled name constant_yes.percent]

theorem map_unitSection (unit : UnitTemplate) : (unitSection unit).map String.toList =
    Section.written ⟨"Unit".toList, unitDirectives unit⟩ := by
  have hdescription : (directive "Description" (render (.description unit.description))).toList =
      writtenLine (spelled "Description" unit.description) := toList_directive (toList_double_percent _)
  have htargets := fun name => map_spelled name (fun target => (constant_target target).percent)
  simp only [unitSection, unitDirectives, orderDirectives, Section.written, List.cons_append, List.map_cons,
    List.map_append, hdescription, htargets]
  rfl

theorem map_serviceSection (unit : UnitTemplate) (privileges : Privileges) (account : Option ServiceAccount)
    (h : Carries lines values) : (serviceSection unit privileges account lines).map String.toList =
      Section.written ⟨"Service".toList, serviceDirectives unit privileges account values⟩ := by
  have hcapabilities : (privileges.capabilities.elim [] capabilityLines).map String.toList =
      (privileges.capabilities.elim [] capabilityDirectives).map writtenLine := by
    cases privileges.capabilities with
    | none => rfl
    | some capabilities => exact map_capabilityLines capabilities
  simp only [serviceSection, serviceDirectives, accountDirectives, commandDirectives, settingDirectives, Section.written,
    List.cons_append, List.nil_append, List.map_cons, List.map_append, List.append_assoc,
    map_spelled "User" (fun account => (constant_account account).percent), map_groupLines, hcapabilities,
    toList_directive h.execStart, map_directive _ h.execReload, map_directive _ h.workingDirectory,
    map_directive _ h.environment, toList_spelled _ (constant_restart _).percent,
    toList_spelled _ (constant_number _).percent,
    map_spelled "LimitNOFILE" (fun limit : UInt64 => (constant_number limit.toNat).percent),
    map_spelled "LimitMEMLOCK" (fun limit => (constant_memlock limit).percent), map_flag]
  rfl

theorem map_installSection (unit : UnitTemplate) : (installSection unit).map String.toList =
    Section.written ⟨"Install".toList, installDirectives unit⟩ := by
  rw [installSection, List.map_cons, map_spelled "WantedBy" fun target => (constant_target target).percent]
  rfl

/-- The lines of a unit are those of the canonical layout. -/
theorem map_unitLines (unit : UnitTemplate) (privileges : Privileges) (account : Option ServiceAccount)
    (h : Carries lines values) : (unitLines unit privileges account lines).map String.toList =
      writtenSections (canonical unit privileges account values) := by
  simp only [unitLines, canonical, writtenSections, List.map_append, map_unitSection, map_serviceSection _ _ _ h,
    map_installSection, List.map_cons, List.map_nil, List.intercalate_cons_cons, List.intercalate_singleton,
    List.append_assoc]
  rfl

/-! ### What keeps its place -/

/-- Directives whose lines are read back. -/
def Sound (directives : List Directive) : Prop := ∀ d ∈ directives, isName d.1 ∧ Stands d.2

theorem Sound.append {directives others : List Directive} (h : Sound directives) (hothers : Sound others) :
    Sound (directives ++ others) := List.forall_mem_append.mpr ⟨h, hothers⟩

theorem sound_map {α : Type} {name : String} {value : α → List Char} {xs : List α} (hname : isName name.toList)
    (h : ∀ x ∈ xs, Stands (value x)) : Sound (xs.map fun x => named name (value x)) := by
  intro d hd
  obtain ⟨x, hx, rfl⟩ := List.mem_map.mp hd
  exact ⟨hname, h x hx⟩

theorem sound_singleton {name : String} {value : List Char} (hname : isName name.toList) (h : Stands value) :
    Sound [named name value] := List.forall_mem_singleton.mpr ⟨hname, h⟩

theorem sound_nil : Sound [] := List.forall_mem_nil _

theorem sound_flag {name : String} (hname : isName name.toList) (set : Bool) : Sound (flagDirectives name set) := by
  cases set
  · exact sound_nil
  · exact sound_singleton hname constant_yes.stands

theorem sound_account (privileges : Privileges) (account : Option ServiceAccount) :
    Sound (accountDirectives privileges account) := by
  refine ((sound_map (by decide) fun account _ => (constant_account account).stands).append ?_).append ?_
  · unfold groupDirectives
    split
    · exact sound_nil
    · exact sound_singleton (by decide) (constant_groups _).stands
  · cases privileges.capabilities with
    | none => exact sound_nil
    | some capabilities =>
      refine Sound.append ?_ (sound_singleton (by decide) (constant_capabilities _).stands)
      split
      · exact sound_nil
      · exact sound_singleton (by decide) (constant_capabilities _).stands

/-- Values that all keep their place. -/
structure ArgumentValues.Standing (values : ArgumentValues) : Prop where
  execStart : Stands values.execStart
  execReload : ∀ value ∈ values.execReload.toList, Stands value
  workingDirectory : ∀ value ∈ values.workingDirectory.toList, Stands value
  environment : ∀ value ∈ values.environment, Stands value

theorem sound_settings (unit : UnitTemplate) (privileges : Privileges) (h : values.Standing) :
    Sound (settingDirectives unit privileges values) := by
  have hrestart : Sound
      [spelled "Restart" (restartStr unit.restart), spelled "RestartSec" (toString unit.restartSec.toNat)] :=
    (sound_singleton (by decide) (constant_restart _).stands).append
      (sound_singleton (by decide) (constant_number _).stands)
  refine Sound.append ?_ (sound_flag (by decide) _)
  refine Sound.append ?_ (sound_flag (by decide) _)
  refine Sound.append ?_ (sound_flag (by decide) _)
  refine Sound.append ?_ (sound_map (by decide) fun limit _ => (constant_memlock limit).stands)
  refine Sound.append ?_ (sound_map (by decide) fun limit _ => (constant_number _).stands)
  exact (sound_map (by decide) h.environment).append hrestart

theorem sound_service (unit : UnitTemplate) (privileges : Privileges) (account : Option ServiceAccount)
    (h : values.Standing) : Sound (serviceDirectives unit privileges account values) := by
  refine Sound.append ?_ (sound_settings unit privileges h)
  refine Sound.append ?_ (sound_map (by decide) h.workingDirectory)
  refine (sound_account privileges account).append ?_
  exact (sound_singleton (by decide) h.execStart).append (sound_map (by decide) h.execReload)

theorem sound_targets {name : String} (hname : isName name.toList) (targets : List SystemdTarget) :
    Sound (targets.map fun target => spelled name (targetStr target)) :=
  sound_map hname fun target _ => (constant_target target).stands

theorem sound_order (unit : UnitTemplate) : Sound (orderDirectives unit) :=
  (sound_targets (by decide) unit.after).append (sound_targets (by decide) unit.wants)

theorem clean_of_sound {name : String} {directives : List Directive} (hname : isName name.toList)
    (h : Sound directives) : Section.Clean ⟨name.toList, directives⟩ :=
  ⟨hname, fun d hd => (h d hd).1, fun d hd => (h d hd).2⟩

theorem clean_canonical (unit : UnitTemplate) (privileges : Privileges) (account : Option ServiceAccount)
    (hdescription : Stands unit.description.toList) (h : values.Standing) :
    ∀ s ∈ canonical unit privileges account values, s.Clean := by
  have hunit : Sound (unitDirectives unit) := (sound_singleton (by decide) hdescription).append (sound_order unit)
  refine List.forall_mem_cons.mpr ⟨clean_of_sound (by decide) hunit, List.forall_mem_cons.mpr ⟨?_, ?_⟩⟩
  · exact clean_of_sound (by decide) (sound_service unit privileges account h)
  · exact List.forall_mem_singleton.mpr (clean_of_sound (by decide) (sound_targets (by decide) unit.wantedBy))

/-! ### The rendered values -/

variable {arg : Arg} {args : List Arg} {allowed : Bool} {r : Resolved}

/-- The values that are rendered: the working directory is rendered as an element of a command line. -/
def renderedValues (unit : UnitTemplate) (context : RenderContext) : ArgumentValues :=
  { calledValues unit context with workingDirectory := unit.workingDirectory.map (element context) }

theorem rendered_element (hvalid : validateArg allowed arg = .ok ()) (hr : resolve arg context = .ok r) :
    r.rendered.toList = doubled '%' (element context arg) := by
  rcases resolve_ok hvalid hr with ⟨rfl, -, hgiven⟩ | ⟨raw, rfl, -, hgiven⟩
  · have hpid : element context arg = MAINPID := by rw [element, hgiven, Option.elim_none]
    rw [hpid, doubled_of_not_mem (by decide)]
    rfl
  · rw [element, hgiven, Option.elim_some, Resolved.rendered, render]
    split
    · rw [toList_double_dollars, doubled_comm (by decide)]
    · rw [toList_quote, toList_double_dollars, doubled_comm (by decide), quoted_doubled (by decide) (by decide)]

theorem firm_element (hvalid : validateArg allowed arg = .ok ()) (hr : resolve arg context = .ok r) :
    Firm (element context arg) := by
  rcases resolve_ok hvalid hr with ⟨rfl, -, hgiven⟩ | ⟨raw, rfl, hraw, hgiven⟩
  · rw [element, hgiven, Option.elim_none]
    exact firm_plain (by decide) (by simp [MAINPID, isPlain, isBlank, isQuote])
  · rw [element, hgiven, Option.elim_some]
    split
    · rename_i hsafe
      obtain ⟨hne, hchars⟩ := bareSafe_iff.mp hsafe
      refine firm_plain (fun hnil => hne ?_) fun c hc => isPlain_of_bareSafe (hchars c (mem_doubled.mp hc))
      rw [List.eq_nil_iff_forall_not_mem] at hnil ⊢
      exact fun c hc => hnil c (mem_doubled.mpr hc)
    · exact firm_quoted fun hmem => oneLine_of_representable hraw (mem_doubled.mp hmem)

theorem rendered_commandLine {line : String} (hvalid : ∀ arg ∈ args, validateArg allowed arg = .ok ())
    (h : renderArgs args context = .ok line) :
    line.toList = doubled '%' (commandLine context args) ∧ Stands (commandLine context args) := by
  obtain ⟨resolved, hresolved, rfl⟩ := renderArgs_ok h
  have helements : (resolved.map Resolved.rendered).map String.toList =
      (args.map (element context)).map (doubled '%') := by
    clear h
    induction hresolved with
    | nil => rfl
    | cons hr _ ih =>
      obtain ⟨hfirst, hrest⟩ := List.forall_mem_cons.mp hvalid
      simp only [List.map_cons, rendered_element hfirst hr, ih hrest]
  constructor
  · rw [join, String.toList_ofList, helements, commandLine, doubled_intercalate (by decide)]
    rfl
  · rcases args with _ | ⟨first, rest⟩
    · exact stands_nil
    · refine (firm_intercalate (by simp) fun piece hpiece => ?_).stands
      obtain ⟨arg, harg, rfl⟩ := List.mem_map.mp hpiece
      obtain ⟨r, -, hr⟩ := Checks.exists_rel_of_mem (List.Forall₂.flip hresolved) harg
      exact firm_element (hvalid arg harg) hr

theorem rendered_settingLine {entry : String × Arg} {line : String} (hvalid : validateEnvironment entry = .ok ())
    (h : renderEnvironment context entry = .ok line) :
    line.toList = doubled '%' (settingLine context entry) ∧ Stands (settingLine context entry) := by
  obtain ⟨raw, hraw, hrepresentable, rfl⟩ := renderEnvironment_ok hvalid h
  have hgiven : given entry.2 context = some raw := by
    rcases resolve_ok (environment_key hvalid).2 hraw with ⟨heq, -⟩ | ⟨raw', heq, -, hgiven⟩
    · cases heq
    · rw [hgiven, Resolved.text.inj heq]
  have hline : settingLine context entry = quoted (entry.1.toList ++ '=' :: raw.toList) := by
    rw [settingLine, resolvedText, hgiven, Option.elim_some]
  constructor
  · rw [hline, render, toList_quote, toList_double_percent, quoted_doubled (by decide) (by decide)]
    simp [String.toList_append]
  · have hkey : '\n' ∉ entry.1.toList := not_mem_key (environment_key hvalid).1 (by decide)
    have hvalue : '\n' ∉ raw.toList := oneLine_of_representable hrepresentable
    rw [hline]
    exact (firm_quoted (by simp [hkey, hvalue])).stands

theorem carries_rendered (hvalid : Admitted unit) (h : Arguments unit context lines) :
    Carries lines (renderedValues unit context) where
  execStart := (rendered_commandLine hvalid.execStart h.execStart).1
  execReload := by
    rcases optional_ok h.execReload with ⟨hnone, hline⟩ | ⟨args, line, hargs, hline, hrendered⟩
    · simp [renderedValues, calledValues, hnone, hline]
    · simp [renderedValues, calledValues, hargs, hline,
        (rendered_commandLine (hvalid.execReload args hargs) hrendered).1]
  workingDirectory := by
    rcases optional_ok h.workingDirectory with ⟨hnone, hline⟩ | ⟨arg, line, harg, hline, hrendered⟩
    · simp [renderedValues, hnone, hline]
    · obtain ⟨r, hr, rfl⟩ := Checks.map_ok hrendered
      simp [renderedValues, harg, hline, rendered_element (hvalid.workingDirectory arg harg) hr]
  environment := by
    have hentries := (List.forall₂_and_left _ _).mpr ⟨hvalid.environment, Checks.collect_ok h.environment⟩
    have hlines : List.Forall₂ (fun entry (line : String) => line.toList = doubled '%' (settingLine context entry))
        unit.environment lines.environment :=
      hentries.imp fun entry line hentry => (rendered_settingLine hentry.1 hentry.2).1
    rw [renderedValues, calledValues, List.map_map]
    rw [← List.forall₂_eq_eq_eq, List.forall₂_map_left_iff, List.forall₂_map_right_iff]
    exact List.Forall₂.flip hlines

theorem standing_rendered (hvalid : Admitted unit) (h : Arguments unit context lines) :
    (renderedValues unit context).Standing where
  execStart := (rendered_commandLine hvalid.execStart h.execStart).2
  execReload := by
    rcases optional_ok h.execReload with ⟨hnone, -⟩ | ⟨args, line, hargs, -, hrendered⟩
    · simp [renderedValues, calledValues, hnone]
    · simpa [renderedValues, calledValues, hargs] using
        (rendered_commandLine (hvalid.execReload args hargs) hrendered).2
  workingDirectory := by
    rcases optional_ok h.workingDirectory with ⟨hnone, -⟩ | ⟨arg, line, harg, -, hrendered⟩
    · simp [renderedValues, hnone]
    · obtain ⟨r, hr, rfl⟩ := Checks.map_ok hrendered
      simpa [renderedValues, harg] using (firm_element (hvalid.workingDirectory arg harg) hr).stands
  environment := by
    intro value hvalue
    obtain ⟨entry, hentry, rfl⟩ := List.mem_map.mp hvalue
    obtain ⟨line, -, hline⟩ := Checks.exists_rel_of_mem (List.Forall₂.flip (Checks.collect_ok h.environment)) hentry
    exact (rendered_settingLine (hvalid.environment entry hentry) hline).2

/-! ### The unit -/

/-- What keeps a description and a working directory as they are on their lines. -/
structure Survives (unit : UnitTemplate) (context : RenderContext) : Prop where
  /-- No blank at either end. -/
  trimmed : trim unit.description.toList = unit.description.toList
  /-- No odd number of backslashes at the end. -/
  ended : continues unit.description.toList = false
  /-- A working directory that needs neither quotes nor doubling. -/
  directory : ∀ arg path, unit.workingDirectory = some arg → given arg context = some path →
    isBareSafe path ∧ '$' ∉ path.toList

theorem Renders.text_canonical (h : Renders unit context privileges lines text) :
    text.toList = List.intercalate ['\n'] (writtenSections
      (canonical unit privileges (account privileges context) (renderedValues unit context))) ++ ['\n'] := by
  have hcarries := carries_rendered (admitted_of_validateUnit h.valid) (arguments_of_ok h.arguments)
  rw [h.text_eq, String.toList_append, join, String.toList_ofList, map_unitLines _ _ _ hcarries]
  rfl

theorem Renders.sections_eq (h : Renders unit context privileges lines text)
    (htrimmed : trim unit.description.toList = unit.description.toList)
    (hended : continues unit.description.toList = false) :
    readSections text.toList =
      some (canonical unit privileges (account privileges context) (renderedValues unit context)) := by
  have hvalid := admitted_of_validateUnit h.valid
  have hdescription : Stands unit.description.toList := ⟨oneLine_of_representable hvalid.description, htrimmed, hended⟩
  rw [h.text_canonical]
  exact readSections_written (by simp [canonical]) (clean_canonical unit privileges _ hdescription
    (standing_rendered hvalid (arguments_of_ok h.arguments)))

/-- An element is rendered as the text that it resolves to exactly when that needs neither quotes nor doubling. -/
theorem element_eq_iff {path : String} (hgiven : given arg context = some path) :
    element context arg = path.toList ↔ isBareSafe path ∧ '$' ∉ path.toList := by
  rw [element, hgiven, Option.elim_some]
  split
  · rename_i hsafe
    simp [hsafe, doubled_eq_self_iff]
  · rename_i hsafe
    have hlength : path.toList.length < (quoted (doubled '$' path.toList)).length :=
      Nat.lt_of_le_of_lt (length_le_doubled '$' path.toList) (length_lt_quoted _)
    refine ⟨fun heq => ?_, fun h => absurd h.1 hsafe⟩
    rw [heq] at hlength
    exact absurd hlength (Nat.lt_irrefl _)

theorem given_directory (h : Renders unit context privileges lines text) (harg : unit.workingDirectory = some arg) :
    ∃ path, given arg context = some path := by
  have harguments := arguments_of_ok h.arguments
  have hdirectory := harguments.workingDirectory
  rw [harg] at hdirectory
  obtain ⟨line, hline, -⟩ := Checks.map_ok hdirectory
  obtain ⟨r, hr, -⟩ := Checks.map_ok hline
  have hchecked := (admitted_of_validateUnit h.valid).workingDirectory arg harg
  rcases resolve_ok hchecked hr with ⟨-, hallowed, -⟩ | ⟨path, -, -, hgiven⟩
  · cases hallowed
  · exact ⟨path, hgiven⟩

/-- The rendered values are those called for exactly when the working directory is rendered as it stands. -/
theorem renderedValues_eq_iff (h : Renders unit context privileges lines text) :
    renderedValues unit context = calledValues unit context ↔
      ∀ arg path, unit.workingDirectory = some arg → given arg context = some path →
        isBareSafe path ∧ '$' ∉ path.toList := by
  have hiff : renderedValues unit context = calledValues unit context ↔
      unit.workingDirectory.map (element context) = unit.workingDirectory.map (resolvedText context) := by
    simp [renderedValues, calledValues]
  rw [hiff]
  rcases harg : unit.workingDirectory with _ | arg
  · simp
  · obtain ⟨path, hgiven⟩ := given_directory h harg
    have hresolved : resolvedText context arg = path.toList := by rw [resolvedText, hgiven, Option.elim_some]
    rw [Option.map_some, Option.map_some, Option.some.injEq, hresolved, element_eq_iff hgiven]
    constructor
    · intro hpath arg' path' harg' hgiven'
      obtain rfl := Option.some.inj harg'
      obtain rfl := Option.some.inj (hgiven.symm.trans hgiven')
      exact hpath
    · exact fun hall => hall arg path rfl hgiven

theorem named_injective (name : String) : Function.Injective (named name) := fun _ _ h => (Prod.mk.inj h).2

/-- The two layouts differ in the working directory only. -/
theorem canonical_inj {account : Option ServiceAccount}
    (h : canonical unit privileges account (renderedValues unit context) =
      canonical unit privileges account (calledValues unit context)) :
    renderedValues unit context = calledValues unit context := by
  have hcommands : commandDirectives (renderedValues unit context) = commandDirectives (calledValues unit context) := rfl
  have hsettings : settingDirectives unit privileges (renderedValues unit context) =
      settingDirectives unit privileges (calledValues unit context) := rfl
  simp only [canonical, List.cons.injEq, Section.mk.injEq, true_and, and_true] at h
  rw [serviceDirectives, serviceDirectives, hcommands, hsettings, List.append_left_inj, List.append_right_inj] at h
  have hlists := List.map_injective_iff.mpr (named_injective _) h
  have hdirectory : (renderedValues unit context).workingDirectory = (calledValues unit context).workingDirectory := by
    simpa using congrArg List.head? hlists
  calc renderedValues unit context
      = { calledValues unit context with workingDirectory := (renderedValues unit context).workingDirectory } := rfl
    _ = calledValues unit context := by rw [hdirectory]

/-- The line behind the description: a target's, or the blank one. -/
theorem canonical_lines (unit : UnitTemplate) (privileges : Privileges) (account : Option ServiceAccount)
    (values : ArgumentValues) : ∃ next rest, continues next = false ∧ '\\' ∉ (next.dropWhile isBlank).head? ∧
      writtenSections (canonical unit privileges account values) =
        ('[' :: "Unit".toList ++ [']']) :: writtenLine (spelled "Description" unit.description) :: next :: rest := by
  have hsound := sound_order unit
  rw [canonical, writtenSections_cons_cons, Section.written, unitDirectives, List.map_cons]
  rcases horder : orderDirectives unit with _ | ⟨d, directives⟩
  · exact ⟨[], _, rfl, by simp, rfl⟩
  · obtain ⟨hname, hvalue⟩ := hsound d (horder ▸ List.mem_cons_self)
    exact ⟨writtenLine d, _, (stays_writtenLine hname hvalue).ended, slash_not_mem_head hname, rfl⟩

/-- A text that reads as a canonical layout has a description that keeps its place. -/
theorem Renders.description_stands (h : Renders unit context privileges lines text)
    (hread : readSections text.toList = some (canonical unit privileges (account privileges context) values)) :
    trim unit.description.toList = unit.description.toList ∧ continues unit.description.toList = false := by
  have hvalid := admitted_of_validateUnit h.valid
  have harguments := arguments_of_ok h.arguments
  have hunbroken : ∀ line ∈ writtenSections (canonical unit privileges (account privileges context)
      (renderedValues unit context)), '\n' ∉ line := by
    rw [← map_unitLines _ _ _ (carries_rendered hvalid harguments)]
    intro line hline
    obtain ⟨s, hs, rfl⟩ := List.mem_map.mp hline
    exact oneLine_unitLines hvalid harguments privileges _ s hs
  obtain ⟨next, rest, hended, hslash, hlines⟩ :=
    canonical_lines unit privileges (account privileges context) (renderedValues unit context)
  rw [readSections_eq_some_iff, h.text_canonical, splitOn_lines hunbroken (by simp [hlines]), hlines] at hread
  exact trimmed_of_scanLines (by decide) (by decide) hended hslash hread

theorem Renders.sections_iff (h : Renders unit context privileges lines text) :
    readSections text.toList = some (calledFor unit context) ↔ Survives unit context := by
  rw [calledFor, calledPrivileges_eq h.resolved]
  constructor
  · intro hread
    obtain ⟨htrimmed, hended⟩ := h.description_stands hread
    have hsame := (h.sections_eq htrimmed hended).symm.trans hread
    exact ⟨htrimmed, hended, (renderedValues_eq_iff h).mp (canonical_inj (Option.some.inj hsame))⟩
  · intro hsurvives
    rw [h.sections_eq hsurvives.trimmed hsurvives.ended, (renderedValues_eq_iff h).mpr hsurvives.directory]

/-- A rendered unit reads as the sections and directives that its template, the selected profile and the context call
for exactly when its description and its working directory keep their places. -/
theorem renderUnit_sections_iff (h : renderUnit spec context = .ok (some rendered)) (hunit : spec.unit = some unit) :
    readSections rendered.text.toList = some (calledFor unit context) ↔ Survives unit context := by
  obtain ⟨privileges, lines, hrenders⟩ := renders_of_renderUnit h hunit
  exact hrenders.sections_iff

theorem renderUnit_sections_iff_capture :
    readSections captureRendered.text.toList = some (calledFor captureUnit captureContext) ↔
      Survives captureUnit captureContext :=
  renderUnit_sections_iff renderUnit_capture rfl

/-- A unit whose description ends in a backslash. -/
def slashUnit : UnitTemplate :=
  { semicolonUnit with description := "Sweeper\\", after := [.networkOnline], execStart := [.var .artifactPath] }

def slashSpec : ModuleSpec := { semicolonSpec with unit := some slashUnit }

def slashArguments : ArgumentLines := { semicolonArguments with execStart := "/opt/sweeper" }

def slashLines : List String :=
  ["[Unit]", "Description=Sweeper\\", "After=network-online.target", "", "[Service]", "ExecStart=/opt/sweeper",
    "Restart=always", "RestartSec=5", "", "[Install]", "WantedBy=multi-user.target"]

def slashRendered : RenderedUnit := ⟨"clumit-sweeper.service", join "\n" slashLines ++ "\n"⟩

theorem renderUnit_slash : renderUnit slashSpec sampleContext = .ok (some slashRendered) := by
  have hlines : unitLines slashUnit ⟨some .root, [], none, none⟩ none slashArguments = slashLines := by decide +kernel
  have hrenders : Renders slashUnit sampleContext ⟨some .root, [], none, none⟩ slashArguments slashRendered.text :=
    ⟨by decide +kernel, by decide +kernel, .inl rfl, by decide +kernel, by rw [slashRendered, ← hlines]; rfl⟩
  exact hrenders.renderUnit rfl (by decide +kernel) (by decide +kernel)

/-- The order directive behind the description becomes a part of it. -/
theorem description_takes_directive :
    ¬∀ (spec : ModuleSpec) (unit : UnitTemplate) (context : RenderContext) (rendered : RenderedUnit),
      renderUnit spec context = .ok (some rendered) → spec.unit = some unit →
        readSections rendered.text.toList = some (calledFor unit context) := by
  intro h
  have htext : slashRendered.text.toList = List.intercalate ['\n'] (slashLines.map String.toList) ++ ['\n'] := by
    rw [slashRendered, String.toList_append, join, String.toList_ofList]
    rfl
  have hread : (readSections slashRendered.text.toList).map (List.map Section.directives) =
      some [[named "Description" "Sweeper After=network-online.target".toList],
        [spelled "ExecStart" "/opt/sweeper", spelled "Restart" "always", spelled "RestartSec" "5"],
        [spelled "WantedBy" "multi-user.target"]] := by
    rw [htext]
    decide +kernel
  rw [h _ _ _ _ renderUnit_slash rfl] at hread
  revert hread
  decide +kernel

end UnitFile
end DeployCore
