import DeployCore.UnitLines

/-! # A unit's arguments, read back

Every element of an argument list reads as the word that it was resolved to, and every environment entry as its own
pair. What the serialization leaves open is the one word that means something to the reader: an element that is a lone
semicolon stands bare, and begins a further command. -/

namespace DeployCore
namespace UnitFile
open SystemdLine

/-! ### Serialization in the reader's terms -/

variable {raw : String} {c : Char} {pid : List Char}

theorem toList_replaceChar (s : String) (c : Char) (by' : String) :
    (replaceChar s c by').toList = s.toList.flatMap fun d => if d = c then by'.toList else [d] := by
  rw [replaceChar, String.toList_ofList]

theorem toList_double_dollars (s : String) :
    (double s true).toList = doubled '$' (doubled '%' s.toList) := by
  simp [double, toList_replaceChar, doubled]

theorem toList_double_percent (s : String) : (double s false).toList = doubled '%' s.toList := by
  simp [double, toList_replaceChar, doubled]

theorem toList_quote (s : String) : (quote s).toList = quoted s.toList := by
  have hescaped : (replaceChar (replaceChar s '\\' "\\\\") '"' "\\\"").toList = escaped s.toList := by
    rw [toList_replaceChar, toList_replaceChar, List.flatMap_assoc, escaped]
    congr 1
    funext c
    by_cases hslash : c = '\\'
    · simp [hslash]
    · by_cases hquote : c = '"' <;> simp [hslash, hquote]
  simp [quote, String.toList_append, hescaped, quoted]

theorem isPlain_of_bareSafe (h : isBareSafeChar c) : isPlain c := by
  simp only [isBareSafeChar, Bool.and_eq_true, decide_eq_true_eq, Bool.not_eq_true', Bool.or_eq_false_iff] at h
  obtain ⟨⟨hlow, -⟩, ⟨hdouble, hsingle⟩, hslash⟩ := h
  have hblank : isBlank c = false := by
    by_contra hc
    simp only [isBlank, Bool.not_eq_false, Bool.or_eq_true, beq_iff_eq] at hc
    rcases hc with ((rfl | rfl) | rfl) | rfl <;> exact absurd hlow (by decide)
  simp [isPlain, isQuote, hblank, hdouble, hsingle, bne_iff_ne, beq_eq_false_iff_ne.mp hslash]

theorem bareSafe_iff : isBareSafe raw ↔ raw.toList ≠ [] ∧ ∀ c ∈ raw.toList, isBareSafeChar c := by
  simp [isBareSafe]

/-- An argument is one word: bare where its text is bare-safe, and its doubled text either way. -/
theorem reads_argument (raw : String) :
    Reads (render (.argument raw)).toList ⟨isBareSafe raw, doubled '$' (doubled '%' raw.toList)⟩ := by
  rw [render]
  split
  · rename_i hsafe
    obtain ⟨hne, hchars⟩ := bareSafe_iff.mp hsafe
    rw [toList_double_dollars, hsafe]
    refine reads_plain (fun hnil => hne ?_) fun c hc => ?_
    · rw [List.eq_nil_iff_forall_not_mem] at hnil ⊢
      exact fun c hc => hnil c (mem_doubled.mpr (mem_doubled.mpr hc))
    · exact isPlain_of_bareSafe (hchars c (mem_doubled.mp (mem_doubled.mp hc)))
  · rename_i hsafe
    rw [Bool.not_eq_true] at hsafe
    rw [toList_quote, toList_double_dollars, hsafe]
    exact reads_quoted _

theorem reads_mainPid : Reads (render .mainPid).toList ⟨true, MAINPID⟩ := by
  have hpid : MAIN_PID.toList = MAINPID := rfl
  rw [render, hpid]
  exact reads_plain (by decide) (by simp [MAINPID, isPlain, isBlank, isQuote])

/-- What the program is handed for a resolved element. -/
def Resolved.handed (pid : List Char) : Resolved → List Char
  | .text raw => raw.toList
  | .mainPid => pid

variable {unit : UnitTemplate} {context : RenderContext} {arg : Arg} {args : List Arg} {allowed : Bool} {r : Resolved}
  {resolved : List Resolved}

/-- An element is one word, which reads as what it was resolved to, and separates where it is given as a semicolon. -/
theorem reads_element (hvalid : validateArg allowed arg = .ok ()) (hr : resolve arg context = .ok r) :
    ∃ w, Reads r.rendered.toList w ∧ (∀ pid, argument pid w = some (r.handed pid)) ∧
      (w.isSeparator = false ↔ given arg context ≠ some ";") := by
  rcases resolve_ok hvalid hr with ⟨rfl, -, hgiven⟩ | ⟨raw, rfl, -, hgiven⟩
  · refine ⟨⟨true, MAINPID⟩, reads_mainPid, fun pid => ?_, by simp [hgiven]; decide⟩
    rw [argument, show undouble '%' MAINPID = some MAINPID from rfl, Option.bind_some, if_pos rfl]
    rfl
  · refine ⟨_, reads_argument raw, fun pid => argument_doubled pid _ _, ?_⟩
    rw [isSeparator_doubled, hgiven]
    have hbare : raw.toList = [';'] → isBareSafe raw := by
      intro heq
      rw [isBareSafe, heq]
      decide
    have hsemicolon : raw = ";" ↔ raw.toList = [';'] := by
      rw [← String.toList_inj]
      rfl
    simp only [ne_eq, Option.some.injEq, hsemicolon, Bool.and_eq_false_iff, beq_eq_false_iff_ne]
    constructor
    · rintro (hquoted | hother) heq
      · rw [hbare heq] at hquoted
        cases hquoted
      · exact hother heq
    · exact .inr

theorem reads_elements (hvalid : ∀ arg ∈ args, validateArg allowed arg = .ok ())
    (h : List.Forall₂ (fun arg r => resolve arg context = .ok r) args resolved) :
    ∃ ws, List.Forall₂ Reads (resolved.map fun r => r.rendered.toList) ws ∧
      (∀ pid, List.Forall₂ (fun w arg => argument pid w = some arg) ws (resolved.map (Resolved.handed pid))) ∧
      ((∀ w ∈ ws, w.isSeparator = false) ↔ ∀ arg ∈ args, given arg context ≠ some ";") := by
  induction h with
  | nil => exact ⟨[], .nil, fun _ => .nil, by simp⟩
  | cons hr _ ih =>
    obtain ⟨hfirst, hrest⟩ := List.forall_mem_cons.mp hvalid
    obtain ⟨w, hread, hhanded, hsep⟩ := reads_element hfirst hr
    obtain ⟨ws, hreads, hargs, hseps⟩ := ih hrest
    refine ⟨w :: ws, .cons hread hreads, fun pid => .cons (hhanded pid) (hargs pid), ?_⟩
    rw [List.forall_mem_cons, List.forall_mem_cons, hsep, hseps]

/-! ### Lines -/

/-- A line is read as the one command that an argument list resolved to. -/
def ReadsCommand (context : RenderContext) (args : List Arg) (line : List Char) : Prop :=
  ∃ resolved, List.Forall₂ (fun arg r => resolve arg context = .ok r) args resolved ∧
    ∀ pid, commands pid line = some [resolved.map (Resolved.handed pid)]

/-- A line is read as the one variable that an entry sets. -/
def ReadsSetting (context : RenderContext) (entry : String × Arg) (line : List Char) : Prop :=
  ∃ raw, resolve entry.2 context = .ok (.text raw) ∧ settings line = some [(entry.1.toList, raw.toList)]

theorem readsCommand_iff {line : String} (hvalid : ∀ arg ∈ args, validateArg allowed arg = .ok ())
    (h : renderArgs args context = .ok line) :
    ReadsCommand context args line.toList ↔ ∀ arg ∈ args, given arg context ≠ some ";" := by
  obtain ⟨resolved, hresolved, rfl⟩ := renderArgs_ok h
  obtain ⟨ws, hreads, hargs, hseps⟩ := reads_elements hvalid hresolved
  have hwords : words (join " " (resolved.map Resolved.rendered)).toList = some ws := by
    rw [join, String.toList_ofList, List.map_map]
    exact words_intercalate hreads
  rw [← hseps]
  constructor
  · rintro ⟨resolved', hresolved', hcommand⟩
    obtain rfl := List.right_unique_forall₂' (fun _ _ _ h h' => Except.ok.inj (h.symm.trans h')) hresolved' hresolved
    exact (commands_eq_single_iff hwords (hargs [])).mp (hcommand [])
  · intro hnone
    exact ⟨resolved, hresolved, fun pid => (commands_eq_single_iff hwords (hargs pid)).mpr hnone⟩

theorem readsSetting {entry : String × Arg} {line : String} (hvalid : validateEnvironment entry = .ok ())
    (h : renderEnvironment context entry = .ok line) : ReadsSetting context entry line.toList := by
  obtain ⟨raw, hraw, -, rfl⟩ := renderEnvironment_ok hvalid h
  refine ⟨raw, hraw, ?_⟩
  have hkey : '=' ∉ entry.1.toList := not_mem_key (environment_key hvalid).1 (by decide)
  have hwords : words (render (.environment entry.1 raw)).toList =
      some [⟨false, doubled '%' (entry.1.toList ++ '=' :: raw.toList)⟩] := by
    rw [render, toList_quote, toList_double_percent, String.toList_append, String.toList_append]
    simpa using words_intercalate (.cons (reads_quoted _) .nil)
  exact settings_single hwords (undouble_doubled '%' _) hkey

/-! ### The unit -/

/-- A unit's argument lines and its environment lines read back as what its template resolves to. -/
structure ReadsBack (unit : UnitTemplate) (context : RenderContext) (text : String) : Prop where
  execStart : List.Forall₂ (ReadsCommand context) [unit.execStart] (assigned text "ExecStart")
  execReload : List.Forall₂ (ReadsCommand context) unit.execReload.toList (assigned text "ExecReload")
  environment : List.Forall₂ (ReadsSetting context) unit.environment (assigned text "Environment")

/-- No element of the argument lists is given as a lone semicolon. -/
def NoLoneSemicolon (unit : UnitTemplate) (context : RenderContext) : Prop :=
  ∀ args ∈ unit.execStart :: unit.execReload.toList, ∀ arg ∈ args, given arg context ≠ some ";"

variable {spec : ModuleSpec} {rendered : RenderedUnit} {privileges : Privileges} {lines : ArgumentLines} {text : String}

theorem execReload_iff (hvalid : Admitted unit) (h : Arguments unit context lines) :
    List.Forall₂ (ReadsCommand context) unit.execReload.toList (lines.execReload.toList.map String.toList) ↔
      ∀ args ∈ unit.execReload.toList, ∀ arg ∈ args, given arg context ≠ some ";" := by
  rcases optional_ok h.execReload with ⟨hnone, hline⟩ | ⟨args, line, hargs, hline, hrendered⟩
  · simp [hnone, hline]
  · simp [hargs, hline, readsCommand_iff (hvalid.execReload args hargs) hrendered]

theorem environment_readsSetting (hvalid : Admitted unit) (h : Arguments unit context lines) :
    List.Forall₂ (ReadsSetting context) unit.environment (lines.environment.map String.toList) := by
  refine List.forall₂_map_right_iff.mpr ?_
  refine ((List.forall₂_and_left _ _).mpr ⟨hvalid.environment, Checks.collect_ok h.environment⟩).imp ?_
  exact fun entry line hentry => readsSetting hentry.1 hentry.2

/-- A rendered unit reads back as its template's argument lists and environment exactly when no argument is given as a
lone semicolon. -/
theorem renderUnit_readsBack_iff (h : renderUnit spec context = .ok (some rendered)) (hunit : spec.unit = some unit) :
    ReadsBack unit context rendered.text ↔ NoLoneSemicolon unit context := by
  obtain ⟨privileges, lines, hrenders⟩ := renders_of_renderUnit h hunit
  have hvalid := admitted_of_validateUnit hrenders.valid
  have harguments := arguments_of_ok hrenders.arguments
  have hreads := hrenders.readsLines
  have hstart := readsCommand_iff hvalid.execStart harguments.execStart
  have hreload := execReload_iff hvalid harguments
  have henvironment := environment_readsSetting hvalid harguments
  rw [← hreads.execReload] at hreload
  rw [← hreads.environment] at henvironment
  rw [NoLoneSemicolon, List.forall_mem_cons, ← hstart, ← hreload]
  constructor
  · intro hback
    have hfirst := hback.execStart
    rw [hreads.execStart] at hfirst
    cases hfirst with
    | cons hcommand _ => exact ⟨hcommand, hback.execReload⟩
  · rintro ⟨hcommand, hreloads⟩
    refine ⟨?_, hreloads, henvironment⟩
    rw [hreads.execStart]
    exact .cons hcommand .nil

/-- A unit whose command is given a semicolon, as `find -exec` takes one. -/
def semicolonUnit : UnitTemplate where
  description := "Sweeper"
  after := []
  wants := []
  wantedBy := [.multiUser]
  execStart := [.var .artifactPath, .literal "-exec", .literal "reboot", .literal ";", .literal "-print"]
  execReload := none
  workingDirectory := none
  environment := []
  restart := .always
  restartSec := 5
  limitNofile := none
  runAs := some .root
  supplementaryGroups := []
  protectHome := false
  privateTmp := false
  noNewPrivileges := false
  privilegeProfiles := []

def semicolonSpec : ModuleSpec where
  unit := some semicolonUnit
  registration := ⟨"sweeper", "sweeper", .sighup "/opt/sweeper", none⟩
  placement := .moduleHosts

def sampleContext : RenderContext where
  artifactPath := "/opt/sweeper"
  configPath := "/etc/sweeper.toml"
  dataDir := "/var/lib/sweeper"
  instanceId := "1"
  hostname := "host"
  domain := "example"
  certPath := "/etc/cert.pem"
  keyPath := "/etc/key.pem"
  caBundlePath := "/etc/ca.pem"
  managerEndpoint := none
  serviceAccount := none
  privilegeProfile := none
  unitNamespace := "clumit"
  serviceName := "sweeper"
  unitInstance := none
  component := "sweeper"
  kind := .nativeBinary

def semicolonArguments : ArgumentLines where
  execStart := "/opt/sweeper -exec reboot ; -print"
  execReload := none
  workingDirectory := none
  environment := []

def semicolonLines : List String :=
  ["[Unit]", "Description=Sweeper", "", "[Service]", "ExecStart=/opt/sweeper -exec reboot ; -print", "Restart=always",
    "RestartSec=5", "", "[Install]", "WantedBy=multi-user.target"]

def semicolonRendered : RenderedUnit := ⟨"clumit-sweeper.service", join "\n" semicolonLines ++ "\n"⟩

theorem renders_semicolon : Renders semicolonUnit sampleContext ⟨some .root, [], none, none⟩ semicolonArguments
    semicolonRendered.text := by
  have hlines : unitLines semicolonUnit ⟨some .root, [], none, none⟩ none semicolonArguments = semicolonLines := by
    decide +kernel
  exact ⟨by decide +kernel, by decide +kernel, .inl rfl, by decide +kernel, by rw [semicolonRendered, ← hlines]; rfl⟩

theorem renderUnit_semicolon : renderUnit semicolonSpec sampleContext = .ok (some semicolonRendered) :=
  renders_semicolon.renderUnit rfl (by decide +kernel) (by decide +kernel)

theorem renderUnit_readsBack_iff_semicolon :
    ReadsBack semicolonUnit sampleContext semicolonRendered.text ↔ NoLoneSemicolon semicolonUnit sampleContext :=
  renderUnit_readsBack_iff renderUnit_semicolon rfl

/-- The semicolon ends the command, and what stands behind it is run as another one. -/
theorem semicolon_splits_command :
    ¬∀ (spec : ModuleSpec) (unit : UnitTemplate) (context : RenderContext) (rendered : RenderedUnit),
      renderUnit spec context = .ok (some rendered) → spec.unit = some unit → ReadsBack unit context rendered.text := by
  intro h
  have hback := (h _ _ _ _ renderUnit_semicolon rfl).execStart
  have htwo : commands [] "/opt/sweeper -exec reboot ; -print".toList =
      some [["/opt/sweeper".toList, "-exec".toList, "reboot".toList], ["-print".toList]] := by decide +kernel
  rw [renders_semicolon.readsLines.execStart] at hback
  cases hback with
  | cons hcommand _ =>
    obtain ⟨resolved, -, hone⟩ := hcommand
    exact absurd (htwo.symm.trans (hone [])) (by simp)

end UnitFile
end DeployCore
