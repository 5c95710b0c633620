import DeployCore.ImageDeclaration

/-! # The references the parser accepts

The grammar of a tagged reference, which part of a name is its registry, and the normal form that familiar and
qualified spellings have in common. -/

namespace DeployCore

/-! ### Cutting a text -/

section Cutting
variable {sep : Char} {cs before after : List Char}

theorem splitOnce_eq_some : splitOnce sep cs = some (before, after) ↔ cs = before ++ sep :: after ∧ sep ∉ before := by
  induction cs generalizing before with
  | nil =>
    refine ⟨fun h => (nomatch h), fun ⟨h, _⟩ => ?_⟩
    exact absurd h.symm (List.append_ne_nil_of_right_ne_nil _ (List.cons_ne_nil _ _))
  | cons c cs ih =>
    unfold splitOnce
    by_cases hc : c = sep
    · rw [if_pos hc]
      constructor
      · rintro ⟨⟩
        exact ⟨by rw [hc]; rfl, List.not_mem_nil⟩
      · rintro ⟨heq, hnot⟩
        rcases before with _ | ⟨b, before⟩
        · cases heq
          rfl
        · obtain ⟨rfl, -⟩ := List.cons.inj heq
          exact absurd (hc ▸ List.mem_cons_self) hnot
    · rw [if_neg hc]
      constructor
      · intro h
        obtain ⟨⟨before', after'⟩, hfound, heq⟩ := Option.map_eq_some_iff.mp h
        cases heq
        obtain ⟨rfl, hnot⟩ := ih.mp hfound
        exact ⟨rfl, fun hmem => (List.mem_cons.mp hmem).elim (fun h => hc h.symm) hnot⟩
      · rintro ⟨heq, hnot⟩
        rcases before with _ | ⟨b, before⟩
        · exact absurd (List.cons.inj heq).1 hc
        · obtain ⟨rfl, rfl⟩ := List.cons.inj heq
          rw [ih.mpr ⟨rfl, fun h => hnot (.tail _ h)⟩]
          rfl

theorem splitOnce_eq_none : splitOnce sep cs = none ↔ sep ∉ cs := by
  constructor
  · intro h hmem
    obtain ⟨before, after, rfl, hnot⟩ := List.eq_append_cons_of_mem hmem
    rw [splitOnce_eq_some.mpr ⟨rfl, hnot⟩] at h
    cases h
  · intro hnot
    rcases h : splitOnce sep cs with _ | ⟨before, after⟩
    · rfl
    · obtain ⟨rfl, -⟩ := splitOnce_eq_some.mp h
      exact absurd (List.mem_append_right _ List.mem_cons_self) hnot

theorem rsplitOnce_eq_some : rsplitOnce sep cs = some (before, after) ↔ cs = before ++ sep :: after ∧ sep ∉ after := by
  unfold rsplitOnce
  constructor
  · intro h
    obtain ⟨⟨after', before'⟩, hfound, heq⟩ := Option.map_eq_some_iff.mp h
    cases heq
    obtain ⟨hcs, hnot⟩ := splitOnce_eq_some.mp hfound
    refine ⟨?_, fun hmem => hnot (List.mem_reverse.mp hmem)⟩
    rw [← List.reverse_reverse cs, hcs]
    simp
  · rintro ⟨rfl, hnot⟩
    have hfound : splitOnce sep (before ++ sep :: after).reverse = some (after.reverse, before.reverse) :=
      splitOnce_eq_some.mpr ⟨by simp, fun hmem => hnot (List.mem_reverse.mp hmem)⟩
    rw [hfound]
    simp

theorem stripPrefix_cons {c : Char} : stripPrefix [c] cs = some after ↔ cs = c :: after := by
  rcases cs with _ | ⟨d, cs⟩
  · simp [stripPrefix]
  · by_cases h : c = d
    · simp [stripPrefix, h, List.isPrefixOf]
    · simp [stripPrefix, h, Ne.symm h, List.isPrefixOf]

end Cutting

/-! ### The grammar -/

/-- Items of one kind, joined by a separator. -/
inductive Joined (sep : Char) (Item : List Char → Prop) : List Char → Prop
  | one {item : List Char} (h : Item item) : Joined sep Item item
  | more {item rest : List Char} (h : Item item) (hrest : Joined sep Item rest) : Joined sep Item (item ++ sep :: rest)

/-- `[._]|__|[-]+`. -/
def PathSeparator (run : List Char) : Prop :=
  run = ['.'] ∨ run = ['_'] ∨ run = ['_', '_'] ∨ (run ≠ [] ∧ ∀ c ∈ run, c = '-')

/-- `[a-z0-9]+`. -/
def PathRun (run : List Char) : Prop :=
  run ≠ [] ∧ ∀ c ∈ run, isPathAlphanumeric c = true

/-- `[a-z0-9]+(?:(?:[._]|__|[-]+)[a-z0-9]+)*`. -/
inductive PathComponent : List Char → Prop
  | run {run : List Char} (h : PathRun run) : PathComponent run
  | join {run separator rest : List Char} (h : PathRun run) (hseparator : PathSeparator separator)
      (hrest : PathComponent rest) : PathComponent (run ++ separator ++ rest)

/-- `[a-zA-Z0-9]|[a-zA-Z0-9][a-zA-Z0-9-]*[a-zA-Z0-9]`. -/
inductive DomainComponent : List Char → Prop
  | one {c : Char} (h : isAsciiAlphanumeric c = true) : DomainComponent [c]
  | more {first last : Char} {inner : List Char} (hfirst : isAsciiAlphanumeric first = true)
      (hinner : ∀ c ∈ inner, isAsciiAlphanumeric c = true ∨ c = '-') (hlast : isAsciiAlphanumeric last = true) :
      DomainComponent (first :: inner ++ [last])

/-- A domain name, or an address in brackets. -/
inductive DomainHost : List Char → Prop
  | name {host : List Char} (h : Joined '.' DomainComponent host) : DomainHost host
  | address {address : List Char} (hne : address ≠ []) (h : ∀ c ∈ address, isAsciiHexDigit c = true ∨ c = ':') :
      DomainHost ('[' :: address ++ [']'])

/-- `(?:domainName|ipv6address)(?::[0-9]+)?`. -/
inductive Domain : List Char → Prop
  | host {host : List Char} (h : DomainHost host) : Domain host
  | port {host port : List Char} (h : DomainHost host) (hne : port ≠ []) (hport : ∀ c ∈ port, isAsciiDigit c = true) :
      Domain (host ++ ':' :: port)

/-- `[A-Za-z0-9_][A-Za-z0-9_.-]{0,127}`. -/
def Tag (tag : List Char) : Prop :=
  ∃ first rest, tag = first :: rest ∧ (isAsciiAlphanumeric first = true ∨ first = '_') ∧
    (∀ c ∈ rest, isAsciiAlphanumeric c = true ∨ c = '_' ∨ c = '.' ∨ c = '-') ∧ rest.length ≤ 127

/-- A first component is taken for a registry where no image's own name would have it. -/
def NamesRegistry (first : List Char) : Prop :=
  first = DOCKER_LOCALHOST.toList ∨ '.' ∈ first ∨ ':' ∈ first ∨ ∃ c ∈ first, isAsciiUpper c = true

/-- A path under the default registry; a single component is an official image. -/
def officialPath (path : List Char) : List Char :=
  if '/' ∈ path then path else DOCKER_OFFICIAL_REPO_PREFIX.toList ++ path

/-- The registry and the path that a name stands for. -/
inductive StandsFor : List Char → List Char → List Char → Prop
  | registry {first path : List Char} (hslash : '/' ∉ first) (h : NamesRegistry first)
      (hother : first ≠ DOCKER_DEFAULT_DOMAIN.toList ∧ first ≠ DOCKER_LEGACY_DEFAULT_DOMAIN.toList) :
      StandsFor (first ++ '/' :: path) first path
  | default {first path : List Char}
      (h : first = DOCKER_DEFAULT_DOMAIN.toList ∨ first = DOCKER_LEGACY_DEFAULT_DOMAIN.toList) :
      StandsFor (first ++ '/' :: path) DOCKER_DEFAULT_DOMAIN.toList (officialPath path)
  | familiar {name : List Char} (h : ∀ first rest, name = first ++ '/' :: rest → '/' ∉ first → ¬NamesRegistry first) :
      StandsFor name DOCKER_DEFAULT_DOMAIN.toList (officialPath name)

/-- A repository in normal form. -/
structure Repository (domain path : List Char) : Prop where
  validDomain : Domain domain
  validPath : Joined '/' PathComponent path
  shortPath : path.length ≤ MAX_REPOSITORY_PATH_BYTES

/-- A reference to a repository and a tag of it, in one of the spellings of the repository. -/
def Tagged (reference domain path tag : List Char) : Prop :=
  ∃ name, reference = name ++ ':' :: tag ∧ StandsFor name domain path ∧ Repository domain path ∧ Tag tag

/-! ### Characters -/

section Characters
variable {cs : List Char} {sep : Char} {Item : List Char → Prop}

theorem Joined.forall_mem {P : Char → Prop} (h : Joined sep Item cs) (hsep : P sep)
    (hitem : ∀ item, Item item → ∀ c ∈ item, P c) : ∀ c ∈ cs, P c := by
  induction h with
  | one h => exact hitem _ h
  | more h _ ih =>
    intro c hc
    rcases List.mem_append.mp hc with hc | hc
    · exact hitem _ h c hc
    · rcases List.mem_cons.mp hc with rfl | hc
      · exact hsep
      · exact ih c hc

theorem PathSeparator.forall_mem (h : PathSeparator cs) : ∀ c ∈ cs, c = '.' ∨ c = '_' ∨ c = '-' := by
  intro c hc
  rcases h with rfl | rfl | rfl | ⟨-, h⟩
  · exact .inl (List.mem_singleton.mp hc)
  · exact .inr (.inl (List.mem_singleton.mp hc))
  · exact .inr (.inl (by simpa using hc))
  · exact .inr (.inr (h c hc))

theorem PathComponent.forall_mem (h : PathComponent cs) :
    ∀ c ∈ cs, isPathAlphanumeric c = true ∨ c = '.' ∨ c = '_' ∨ c = '-' := by
  induction h with
  | run h => exact fun c hc => .inl (h.2 c hc)
  | join h hseparator _ ih =>
    intro c hc
    rcases List.mem_append.mp hc with hc | hc
    · rcases List.mem_append.mp hc with hc | hc
      · exact .inl (h.2 c hc)
      · exact .inr (hseparator.forall_mem c hc)
    · exact ih c hc

theorem DomainComponent.forall_mem (h : DomainComponent cs) : ∀ c ∈ cs, isAsciiAlphanumeric c = true ∨ c = '-' := by
  intro c hc
  rcases h with ⟨h⟩ | ⟨hfirst, hinner, hlast⟩
  · exact .inl (List.mem_singleton.mp hc ▸ h)
  · rcases List.mem_append.mp hc with hc | hc
    · rcases List.mem_cons.mp hc with rfl | hc
      · exact .inl hfirst
      · exact hinner c hc
    · exact .inl (List.mem_singleton.mp hc ▸ hlast)

/-- The characters a domain may hold. -/
def DomainChar (c : Char) : Prop :=
  isAsciiAlphanumeric c = true ∨ c = '-' ∨ c = '.' ∨ c = ':' ∨ c = '[' ∨ c = ']'

theorem isAsciiAlphanumeric_of_digit {c : Char} (h : isAsciiDigit c = true) : isAsciiAlphanumeric c = true := by
  simp [isAsciiAlphanumeric, h]

theorem isAsciiAlphanumeric_of_hex {c : Char} (h : isAsciiHexDigit c = true) : isAsciiAlphanumeric c = true := by
  simp only [isAsciiHexDigit, isAsciiAlphanumeric, isAsciiLower, isAsciiUpper, Bool.or_eq_true, Bool.and_eq_true,
    decide_eq_true_eq] at h ⊢
  rcases h with (h | h) | h
  · exact .inr h
  · exact .inl (.inl ⟨h.1, Char.le_trans h.2 (by decide : 'f' ≤ 'z')⟩)
  · exact .inl (.inr ⟨h.1, Char.le_trans h.2 (by decide : 'F' ≤ 'Z')⟩)

theorem DomainHost.forall_mem (h : DomainHost cs) : ∀ c ∈ cs, DomainChar c := by
  rcases h with ⟨h⟩ | ⟨-, h⟩
  · refine h.forall_mem (.inr (.inr (.inl rfl))) fun item hitem c hc => ?_
    rcases hitem.forall_mem c hc with h | h
    · exact .inl h
    · exact .inr (.inl h)
  · intro c hc
    rcases List.mem_append.mp hc with hc | hc
    · rcases List.mem_cons.mp hc with rfl | hc
      · exact .inr (.inr (.inr (.inr (.inl rfl))))
      · rcases h c hc with h | h
        · exact .inl (isAsciiAlphanumeric_of_hex h)
        · exact .inr (.inr (.inr (.inl h)))
    · exact .inr (.inr (.inr (.inr (.inr (List.mem_singleton.mp hc)))))

theorem Domain.forall_mem (h : Domain cs) : ∀ c ∈ cs, DomainChar c := by
  rcases h with ⟨h⟩ | ⟨h, -, hport⟩
  · exact h.forall_mem
  · intro c hc
    rcases List.mem_append.mp hc with hc | hc
    · exact h.forall_mem c hc
    · rcases List.mem_cons.mp hc with rfl | hc
      · exact .inr (.inr (.inr (.inl rfl)))
      · exact .inl (isAsciiAlphanumeric_of_digit (hport c hc))

theorem Tag.forall_mem (h : Tag cs) : ∀ c ∈ cs, isAsciiAlphanumeric c = true ∨ c = '_' ∨ c = '.' ∨ c = '-' := by
  obtain ⟨first, rest, rfl, hfirst, hrest, -⟩ := h
  intro c hc
  rcases List.mem_cons.mp hc with rfl | hc
  · exact hfirst.imp_right .inl
  · exact hrest c hc

theorem toNat_lt_of_alphanumeric {c : Char} (h : isAsciiAlphanumeric c = true) : c.toNat < 0x80 := by
  simp only [isAsciiAlphanumeric, isAsciiLower, isAsciiUpper, isAsciiDigit, Bool.or_eq_true, Bool.and_eq_true,
    decide_eq_true_eq] at h
  rcases h with (h | h) | h
  · exact Nat.lt_of_le_of_lt (show c.toNat ≤ 'z'.toNat from h.2) (by decide)
  · exact Nat.lt_of_le_of_lt (show c.toNat ≤ 'Z'.toNat from h.2) (by decide)
  · exact Nat.lt_of_le_of_lt (show c.toNat ≤ '9'.toNat from h.2) (by decide)

theorem isAsciiAlphanumeric_of_path {c : Char} (h : isPathAlphanumeric c = true) : isAsciiAlphanumeric c = true := by
  simp only [isPathAlphanumeric, Bool.or_eq_true] at h
  rcases h with h | h <;> simp [isAsciiAlphanumeric, h]

/-- ASCII text has a byte for every character. -/
theorem byteLen_of_ascii (h : ∀ c ∈ cs, c.toNat < 0x80) : byteLen (.ofList cs) = cs.length := by
  unfold byteLen
  rw [asBytes_eq_encode, String.toList_ofList]
  induction cs with
  | nil => rfl
  | cons c cs ih =>
    have hc : String.utf8EncodeChar c = [UInt8.ofNat c.toNat] := Utf8.encodeChar_ascii (h c List.mem_cons_self)
    have hcs := ih fun d hd => h d (.tail _ hd)
    rw [Utf8.encode, List.flatMap_cons, hc, List.singleton_append, List.length_cons, List.length_cons]
    exact congrArg Nat.succ hcs

end Characters

/-! ### The scanners read the grammar -/

section Scanners
variable {cs name tag : List Char} {sep : Char} {Item : List Char → Prop} {p : List Char → Bool}

theorem splitTag_eq_some : splitTag cs = some (name, tag) ↔ cs = name ++ ':' :: tag ∧ ':' ∉ tag ∧ '/' ∉ tag := by
  unfold splitTag
  constructor
  · intro h
    rcases hcut : rsplitOnce ':' cs with _ | ⟨before, after⟩
    · rw [hcut] at h
      cases h
    · rw [hcut] at h
      dsimp only at h
      split at h
      · cases h
      · next hslash =>
        cases h
        obtain ⟨rfl, hnot⟩ := rsplitOnce_eq_some.mp hcut
        exact ⟨rfl, hnot, fun hmem => hslash (List.contains_iff_mem.mpr hmem)⟩
  · rintro ⟨rfl, hcolon, hslash⟩
    rw [rsplitOnce_eq_some.mpr ⟨rfl, hcolon⟩]
    dsimp only
    rw [if_neg fun h => hslash (List.contains_iff_mem.mp h)]

theorem headTail_iff {first rest : Char → Bool} :
    headTail first rest cs = true ↔ ∃ c tail, cs = c :: tail ∧ first c = true ∧ ∀ d ∈ tail, rest d = true := by
  rcases cs with _ | ⟨c, cs⟩
  · simp [headTail]
  · simp [headTail]

theorem isValidTag_iff : isValidTag (.ofList tag) = true ↔ Tag tag := by
  unfold isValidTag
  rw [Bool.and_eq_true, decide_eq_true_eq, String.toList_ofList, headTail_iff]
  simp only [Bool.or_eq_true, beq_iff_eq]
  have hlen (h : ∀ c ∈ tag, isAsciiAlphanumeric c = true ∨ c = '_' ∨ c = '.' ∨ c = '-') :
      byteLen (.ofList tag) = tag.length := by
    refine byteLen_of_ascii fun c hc => ?_
    rcases h c hc with h | rfl | rfl | rfl
    · exact toNat_lt_of_alphanumeric h
    all_goals decide
  constructor
  · rintro ⟨hmax, first, rest, rfl, hfirst, hrest⟩
    have hrest' : ∀ c ∈ rest, isAsciiAlphanumeric c = true ∨ c = '_' ∨ c = '.' ∨ c = '-' := by
      intro c hc
      rcases hrest c hc with ((h | h) | h) | h
      · exact .inl h
      · exact .inr (.inl h)
      · exact .inr (.inr (.inl h))
      · exact .inr (.inr (.inr h))
    refine ⟨first, rest, rfl, hfirst, hrest', ?_⟩
    have := hlen fun c hc => (List.mem_cons.mp hc).elim (fun h => h ▸ hfirst.imp_right .inl) (hrest' c)
    rw [this] at hmax
    exact Nat.le_of_succ_le_succ hmax
  · intro h
    rw [hlen h.forall_mem]
    obtain ⟨first, rest, rfl, hfirst, hrest, hmax⟩ := h
    refine ⟨Nat.succ_le_succ hmax, first, rest, rfl, hfirst, fun c hc => ?_⟩
    rcases hrest c hc with h | h | h | h
    · exact .inl (.inl (.inl h))
    · exact .inl (.inl (.inr h))
    · exact .inl (.inr h)
    · exact .inr h

theorem isPathSeparator_iff : isPathSeparator cs = true ↔ PathSeparator cs := by
  simp [isPathSeparator, PathSeparator, or_assoc]

/-- What is left behind the first run of a class. -/
theorem takeWhile_run (q : Char → Bool) {run : List Char} (rest : List Char) (hrun : ∀ c ∈ run, q c = true)
    (hrest : ∀ c tail, rest = c :: tail → q c = false) :
    (run ++ rest).takeWhile q = run ∧ (run ++ rest).dropWhile q = rest := by
  induction run with
  | nil =>
    rcases rest with _ | ⟨c, rest⟩
    · exact ⟨rfl, rfl⟩
    · simp [hrest c rest rfl]
  | cons c run ih =>
    obtain ⟨htake, hdrop⟩ := ih fun d hd => hrun d (.tail _ hd)
    simp [hrun c List.mem_cons_self, htake, hdrop]

theorem isValidPathComponentFrom_sound {fuel : Nat} (h : isValidPathComponentFrom fuel cs = true) : PathComponent cs := by
  induction fuel generalizing cs with
  | zero => cases h
  | succ fuel ih =>
    unfold isValidPathComponentFrom at h
    dsimp only at h
    have hcut := List.takeWhile_append_dropWhile (p := isPathAlphanumeric) (l := cs)
    have hrun : ∀ c ∈ cs.takeWhile isPathAlphanumeric, isPathAlphanumeric c = true := fun c hc =>
      List.all_eq_true.mp List.all_takeWhile c hc
    split at h
    · cases h
    next hne =>
    rw [List.isEmpty_iff] at hne
    split at h
    next hrest =>
      rw [List.isEmpty_iff.mp hrest, List.append_nil] at hcut
      rw [← hcut]
      exact .run ⟨hne, hrun⟩
    next hrest =>
      rw [Bool.and_eq_true] at h
      rw [← hcut, ← List.takeWhile_append_dropWhile (p := (!isPathAlphanumeric ·)) (l := cs.dropWhile isPathAlphanumeric),
        ← List.append_assoc]
      exact .join ⟨hne, hrun⟩ (isPathSeparator_iff.mp h.1) (ih h.2)

theorem PathSeparator.not_alphanumeric (h : PathSeparator cs) : ∀ c ∈ cs, isPathAlphanumeric c = false := by
  intro c hc
  rcases h.forall_mem c hc with rfl | rfl | rfl <;> decide

theorem PathSeparator.ne_nil (h : PathSeparator cs) : cs ≠ [] := by
  rcases h with rfl | rfl | rfl | ⟨h, -⟩
  · exact List.cons_ne_nil _ _
  · exact List.cons_ne_nil _ _
  · exact List.cons_ne_nil _ _
  · exact h

/-- A component begins with its first run. -/
theorem PathComponent.head (h : PathComponent cs) : ∃ c rest, cs = c :: rest ∧ isPathAlphanumeric c = true := by
  have hhead {run : List Char} (rest : List Char) (hrun : PathRun run) : ∃ c tail, run ++ rest = c :: tail ∧ isPathAlphanumeric c = true := by
    obtain ⟨c, run', rfl⟩ := List.exists_cons_of_ne_nil hrun.1
    exact ⟨c, run' ++ rest, rfl, hrun.2 c List.mem_cons_self⟩
  rcases h with hrun | ⟨hrun, -, -⟩
  · simpa using hhead [] hrun
  · rw [List.append_assoc]
    exact hhead _ hrun

theorem isValidPathComponentFrom_complete {fuel : Nat} (h : PathComponent cs) (hfuel : cs.length < fuel) :
    isValidPathComponentFrom fuel cs = true := by
  induction h generalizing fuel with
  | @run run hrun =>
    obtain ⟨fuel, rfl⟩ := Nat.exists_eq_succ_of_ne_zero (Nat.ne_zero_of_lt hfuel)
    obtain ⟨htake, hdrop⟩ := takeWhile_run isPathAlphanumeric [] hrun.2 (by simp)
    rw [List.append_nil] at htake hdrop
    unfold isValidPathComponentFrom
    simp [htake, hdrop, hrun.1]
  | @join run separator rest hrun hseparator hrest ih =>
    obtain ⟨fuel, rfl⟩ := Nat.exists_eq_succ_of_ne_zero (Nat.ne_zero_of_lt hfuel)
    obtain ⟨c, separator', hsep⟩ := List.exists_cons_of_ne_nil hseparator.ne_nil
    obtain ⟨d, rest', hd, halpha⟩ := hrest.head
    -- the run ends where the separator begins, the separator where the next run begins
    obtain ⟨htake, hdrop⟩ := takeWhile_run isPathAlphanumeric (separator ++ rest) hrun.2 fun e tail he => by
      rw [hsep] at he
      obtain ⟨rfl, -⟩ := List.cons.inj he
      exact hseparator.not_alphanumeric _ (hsep ▸ List.mem_cons_self)
    obtain ⟨htake', hdrop'⟩ := takeWhile_run (!isPathAlphanumeric ·) rest
      (fun e (he : e ∈ separator) => by simp [hseparator.not_alphanumeric e he]) fun e tail he => by
        rw [hd] at he
        obtain ⟨rfl, -⟩ := List.cons.inj he
        simp [halpha]
    have hshorter : rest.length < fuel := by
      simp only [List.length_append] at hfuel
      have := List.length_pos_iff.mpr hrun.1
      omega
    unfold isValidPathComponentFrom
    dsimp only
    rw [List.append_assoc, htake, hdrop, htake', hdrop', ih hshorter, isPathSeparator_iff.mpr hseparator]
    simp [hrun.1, hsep]

theorem isValidPathComponent_iff : isValidPathComponent cs = true ↔ PathComponent cs :=
  ⟨isValidPathComponentFrom_sound, fun h => isValidPathComponentFrom_complete h (Nat.lt_succ_self _)⟩

theorem isValidDomainComponent_iff : isValidDomainComponent cs = true ↔ DomainComponent cs := by
  unfold isValidDomainComponent
  constructor
  · intro h
    rcases cs with _ | ⟨first, rest⟩
    · cases h
    rcases rest.eq_nil_or_concat with rfl | ⟨inner, last, rfl⟩
    · simp only [List.head?_cons, List.getLast?_singleton, Bool.and_eq_true] at h
      exact .one h.1.1
    · rw [List.concat_eq_append] at h ⊢
      simp only [List.head?_cons, List.getLast?_cons, List.getLast?_concat, Option.getD_some,
        Bool.and_eq_true, List.all_cons, List.all_append, Bool.or_eq_true, beq_iff_eq, List.all_eq_true] at h
      exact .more h.1.1 h.2.2.1 h.1.2
  · rintro (h | ⟨hfirst, hinner, hlast⟩)
    · simp [h]
    · simp [List.getLast?_cons, hfirst, hlast]
      exact hinner

theorem isValidPort_iff {port : List Char} :
    isValidPort (some port) = true ↔ port ≠ [] ∧ ∀ c ∈ port, isAsciiDigit c = true := by
  simp [isValidPort]

/-- Every piece is an item exactly when the whole is items joined by the separator, for items without it. -/
theorem splitOn_all_iff (hitem : ∀ item, p item = true ↔ Item item) (hfree : ∀ item, Item item → sep ∉ item) :
    (cs.splitOn sep).all p = true ↔ Joined sep Item cs := by
  constructor
  · intro h
    induction hlen : cs.length using Nat.strong_induction_on generalizing cs with
    | _ n ih =>
      by_cases hmem : sep ∈ cs
      · obtain ⟨item, rest, rfl, hnot⟩ := List.eq_append_cons_of_mem hmem
        rw [List.splitOn_append_cons_self_of_not_mem hnot, List.all_cons, Bool.and_eq_true] at h
        refine .more ((hitem _).mp h.1) (ih rest.length ?_ h.2 rfl)
        rw [← hlen, List.length_append, List.length_cons]
        omega
      · rw [List.splitOn_eq_singleton hmem, List.all_cons, Bool.and_eq_true] at h
        exact .one ((hitem _).mp h.1)
  · intro h
    induction h with
    | @one item h => simp [List.splitOn_eq_singleton (hfree item h), (hitem item).mpr h]
    | @more item rest h _ ih =>
      rw [List.splitOn_append_cons_self_of_not_mem (hfree item h), List.all_cons, (hitem item).mpr h, ih]
      rfl

theorem dot_not_mem {component : List Char} (h : DomainComponent component) : '.' ∉ component := by
  intro hmem
  rcases h.forall_mem _ hmem with h | h
  · exact absurd h (by decide)
  · exact absurd h (by decide)

theorem slash_not_mem {component : List Char} (h : PathComponent component) : '/' ∉ component := by
  intro hmem
  rcases h.forall_mem _ hmem with h | h | h | h <;> exact absurd h (by decide)

/-- A host's name begins with a character of a component, and has no colon. -/
theorem hostName_shape {host : List Char} (h : Joined '.' DomainComponent host) :
    (∃ c rest, host = c :: rest ∧ isAsciiAlphanumeric c = true) ∧ ':' ∉ host := by
  have hhead {item : List Char} (hitem : DomainComponent item) : ∃ c rest, item = c :: rest ∧ isAsciiAlphanumeric c = true := by
    rcases hitem with ⟨h⟩ | ⟨hfirst, -, -⟩
    · exact ⟨_, [], rfl, h⟩
    · exact ⟨_, _, rfl, hfirst⟩
  constructor
  · rcases h with hitem | ⟨hitem, -⟩
    · exact hhead hitem
    · obtain ⟨c, rest, rfl, hc⟩ := hhead hitem
      exact ⟨c, _, rfl, hc⟩
  · intro hmem
    have hnot := h.forall_mem (P := (· ≠ ':')) (by decide) fun item hitem c hc => by
      rcases hitem.forall_mem c hc with h | rfl
      · rintro rfl
        exact absurd h (by decide)
      · decide
    exact hnot _ hmem rfl

theorem isValidDomainAndPort_sound (h : isValidDomainAndPort cs = true) : Domain cs := by
  unfold isValidDomainAndPort at h
  rcases hbracket : stripPrefix ['['] cs with _ | bracketed
  · rw [hbracket] at h
    rcases hcolon : splitOnce ':' cs with _ | ⟨host, port⟩
    · rw [hcolon] at h
      simp only [Bool.and_eq_true] at h
      exact .host (.name ((splitOn_all_iff (fun _ => isValidDomainComponent_iff) fun _ => dot_not_mem).mp h.1))
    · rw [hcolon] at h
      simp only [Bool.and_eq_true] at h
      obtain ⟨rfl, -⟩ := splitOnce_eq_some.mp hcolon
      obtain ⟨hne, hport⟩ := isValidPort_iff.mp h.2
      exact .port (.name ((splitOn_all_iff (fun _ => isValidDomainComponent_iff) fun _ => dot_not_mem).mp h.1)) hne hport
  · rw [hbracket] at h
    obtain rfl := stripPrefix_cons.mp hbracket
    dsimp only at h
    rcases hclose : splitOnce ']' bracketed with _ | ⟨address, rest⟩
    · rw [hclose] at h
      cases h
    rw [hclose] at h
    obtain ⟨rfl, -⟩ := splitOnce_eq_some.mp hclose
    have haddress (hv : (!address.isEmpty && address.all fun c => isAsciiHexDigit c || c == ':') = true) :
        DomainHost ('[' :: address ++ [']']) := by
      simp only [Bool.and_eq_true, Bool.not_eq_true', List.all_eq_true, Bool.or_eq_true, beq_iff_eq] at hv
      exact .address (List.isEmpty_eq_false_iff.mp hv.1) hv.2
    dsimp only at h
    split at h
    next hrest =>
      rw [Bool.and_eq_true] at h
      rw [List.isEmpty_iff.mp hrest]
      exact .host (haddress h.1)
    next hrest =>
      rcases hcolon : stripPrefix [':'] rest with _ | port
      · rw [hcolon] at h
        cases h
      · rw [hcolon] at h
        rw [Bool.and_eq_true] at h
        obtain rfl := stripPrefix_cons.mp hcolon
        obtain ⟨hne, hport⟩ := isValidPort_iff.mp h.2
        simpa using Domain.port (haddress h.1) hne hport

theorem stripPrefix_bracket_none {c : Char} (h : isAsciiAlphanumeric c = true) : stripPrefix ['['] (c :: cs) = none := by
  rcases hstrip : stripPrefix ['['] (c :: cs) with _ | after
  · rfl
  · obtain ⟨rfl, -⟩ := List.cons.inj (stripPrefix_cons.mp hstrip)
    exact absurd h (by decide)

theorem isValidDomainAndPort_complete (h : Domain cs) : isValidDomainAndPort cs = true := by
  have hname {host : List Char} (hhost : Joined '.' DomainComponent host) :
      (host.splitOn '.').all isValidDomainComponent = true :=
    (splitOn_all_iff (fun _ => isValidDomainComponent_iff) fun _ => dot_not_mem).mpr hhost
  have hclose {address : List Char} (hall : ∀ c ∈ address, isAsciiHexDigit c = true ∨ c = ':') : ']' ∉ address := by
    intro hmem
    rcases hall _ hmem with h | h <;> exact absurd h (by decide)
  have haddress {address : List Char} (hne : address ≠ []) (hall : ∀ c ∈ address, isAsciiHexDigit c = true ∨ c = ':') :
      (!address.isEmpty && address.all fun c => isAsciiHexDigit c || c == ':') = true := by
    simp only [Bool.and_eq_true, Bool.not_eq_true', List.all_eq_true, Bool.or_eq_true, beq_iff_eq]
    exact ⟨List.isEmpty_eq_false_iff.mpr hne, hall⟩
  unfold isValidDomainAndPort
  rcases h with @⟨host, hhost⟩ | @⟨host, port, hhost, hport, hdigits⟩
  · rcases hhost with hhost | ⟨hne, hall⟩
    · obtain ⟨⟨c, rest, rfl, hc⟩, hcolon⟩ := hostName_shape hhost
      rw [stripPrefix_bracket_none hc, splitOnce_eq_none.mpr hcolon]
      dsimp only
      rw [hname hhost]
      rfl
    · rw [List.cons_append, stripPrefix_cons.mpr rfl]
      dsimp only
      rw [splitOnce_eq_some.mpr ⟨rfl, hclose hall⟩]
      dsimp only
      rw [haddress hne hall]
      rfl
  · rcases hhost with hhost | ⟨hne', hall⟩
    · obtain ⟨⟨c, rest, rfl, hc⟩, hcolon⟩ := hostName_shape hhost
      rw [List.cons_append, stripPrefix_bracket_none hc, ← List.cons_append, splitOnce_eq_some.mpr ⟨rfl, hcolon⟩]
      dsimp only
      rw [hname hhost, isValidPort_iff.mpr ⟨hport, hdigits⟩]
      rfl
    · rw [List.append_assoc, List.cons_append, stripPrefix_cons.mpr rfl]
      dsimp only
      rw [List.singleton_append, splitOnce_eq_some.mpr ⟨rfl, hclose hall⟩]
      dsimp only
      rw [haddress hne' hall, if_neg (by simp), stripPrefix_cons.mpr rfl]
      dsimp only
      rw [isValidPort_iff.mpr ⟨hport, hdigits⟩]
      rfl

theorem isValidDomainAndPort_iff : isValidDomainAndPort cs = true ↔ Domain cs :=
  ⟨isValidDomainAndPort_sound, isValidDomainAndPort_complete⟩

end Scanners

/-! ### What a name stands for -/

section StandsFor
variable {name first rest domain path : List Char}

theorem namesRegistry_iff : (first.contains '.' || first.contains ':' || first.any isAsciiUpper) = true ↔
    '.' ∈ first ∨ ':' ∈ first ∨ ∃ c ∈ first, isAsciiUpper c = true := by
  simp [or_assoc]

theorem officialPath_eq :
    (if DOCKER_DEFAULT_DOMAIN.toList = DOCKER_DEFAULT_DOMAIN.toList && !path.contains '/' then
      (DOCKER_DEFAULT_DOMAIN.toList, DOCKER_OFFICIAL_REPO_PREFIX.toList ++ path)
    else (DOCKER_DEFAULT_DOMAIN.toList, path)) = (DOCKER_DEFAULT_DOMAIN.toList, officialPath path) := by
  unfold officialPath
  by_cases h : '/' ∈ path <;> simp [h]

/-- The registry names that stand for themselves are none of the default's. -/
theorem default_names : DOCKER_LOCALHOST.toList ≠ DOCKER_DEFAULT_DOMAIN.toList ∧
    DOCKER_LOCALHOST.toList ≠ DOCKER_LEGACY_DEFAULT_DOMAIN.toList ∧
    DOCKER_DEFAULT_DOMAIN.toList ≠ DOCKER_LEGACY_DEFAULT_DOMAIN.toList ∧ '.' ∈ DOCKER_DEFAULT_DOMAIN.toList ∧
    '/' ∉ DOCKER_DEFAULT_DOMAIN.toList ∧ '/' ∉ DOCKER_LEGACY_DEFAULT_DOMAIN.toList ∧
    '/' ∈ DOCKER_OFFICIAL_REPO_PREFIX.toList := by
  decide

theorem splitDockerDomain_registry (hslash : '/' ∉ first) (h : NamesRegistry first)
    (hother : first ≠ DOCKER_DEFAULT_DOMAIN.toList ∧ first ≠ DOCKER_LEGACY_DEFAULT_DOMAIN.toList) :
    splitDockerDomain (first ++ '/' :: rest) = (first, rest) := by
  unfold splitDockerDomain
  rw [splitOnce_eq_some.mpr ⟨rfl, hslash⟩]
  dsimp only
  rcases h with h | h
  · rw [if_pos h]
    simp [hother.1]
  · rw [if_neg hother.2, namesRegistry_iff.mpr h]
    simp [hother.1]

theorem splitDockerDomain_default
    (h : first = DOCKER_DEFAULT_DOMAIN.toList ∨ first = DOCKER_LEGACY_DEFAULT_DOMAIN.toList) :
    splitDockerDomain (first ++ '/' :: rest) = (DOCKER_DEFAULT_DOMAIN.toList, officialPath rest) := by
  obtain ⟨hlocal, hlocal', hlegacy, hdot, hslash, hslash', -⟩ := default_names
  unfold splitDockerDomain
  rcases h with rfl | rfl
  · rw [splitOnce_eq_some.mpr ⟨rfl, hslash⟩]
    dsimp only
    rw [if_neg hlocal.symm, if_neg hlegacy, namesRegistry_iff.mpr (.inl hdot)]
    exact officialPath_eq
  · rw [splitOnce_eq_some.mpr ⟨rfl, hslash'⟩]
    dsimp only
    rw [if_neg hlocal'.symm, if_pos rfl]
    exact officialPath_eq

theorem splitDockerDomain_familiar
    (h : ∀ first rest, name = first ++ '/' :: rest → '/' ∉ first → ¬NamesRegistry first) :
    splitDockerDomain name = (DOCKER_DEFAULT_DOMAIN.toList, officialPath name) := by
  unfold splitDockerDomain
  rcases hcut : splitOnce '/' name with _ | ⟨first, rest⟩
  · exact officialPath_eq
  · obtain ⟨hname, hslash⟩ := splitOnce_eq_some.mp hcut
    have hnot := h first rest hname hslash
    have hlocal : ¬first = DOCKER_LOCALHOST.toList := fun heq => hnot (.inl heq)
    have hlegacy : ¬first = DOCKER_LEGACY_DEFAULT_DOMAIN.toList := by
      rintro rfl
      exact hnot (.inr (.inl (by decide)))
    dsimp only
    rw [if_neg hlocal, if_neg hlegacy, if_neg fun hreg => hnot (.inr (namesRegistry_iff.mp hreg))]
    exact officialPath_eq

/-- What a name stands for is what it is split into. -/
theorem standsFor_iff : StandsFor name domain path ↔ splitDockerDomain name = (domain, path) := by
  constructor
  · rintro (⟨hslash, h, hother⟩ | h | h)
    · exact splitDockerDomain_registry hslash h hother
    · exact splitDockerDomain_default h
    · exact splitDockerDomain_familiar h
  · intro hsplit
    by_cases h : ∀ first rest, name = first ++ '/' :: rest → '/' ∉ first → ¬NamesRegistry first
    · rw [splitDockerDomain_familiar h] at hsplit
      cases hsplit
      exact .familiar h
    · push Not at h
      obtain ⟨first, rest, rfl, hslash, hnames⟩ := h
      by_cases hdefault : first = DOCKER_DEFAULT_DOMAIN.toList ∨ first = DOCKER_LEGACY_DEFAULT_DOMAIN.toList
      · rw [splitDockerDomain_default hdefault] at hsplit
        cases hsplit
        exact .default hdefault
      · rw [not_or] at hdefault
        rw [splitDockerDomain_registry hslash hnames hdefault] at hsplit
        cases hsplit
        exact .registry hslash hnames hdefault

theorem officialPath_idem : officialPath (officialPath path) = officialPath path := by
  have hslash : '/' ∈ officialPath path := by
    unfold officialPath
    split_ifs with h
    · exact h
    · exact List.mem_append_left _ default_names.2.2.2.2.2.2
  rw [officialPath, if_pos hslash]

/-- The normal form stands for itself. -/
theorem StandsFor.normal (h : StandsFor name domain path) : StandsFor (domain ++ '/' :: path) domain path := by
  rcases h with ⟨hslash, h, hother⟩ | ⟨h⟩ | ⟨h⟩
  · exact .registry hslash h hother
  · exact standsFor_iff.mpr ((splitDockerDomain_default (.inl rfl)).trans (by rw [officialPath_idem]))
  · exact standsFor_iff.mpr ((splitDockerDomain_default (.inl rfl)).trans (by rw [officialPath_idem]))

/-- The characters of a name are those of what it stands for. -/
theorem StandsFor.forall_mem {P : Char → Prop} (h : StandsFor name domain path) (hslash : P '/')
    (hdefault : ∀ c ∈ DOCKER_LEGACY_DEFAULT_DOMAIN.toList, P c) (hdomain : ∀ c ∈ domain, P c) (hpath : ∀ c ∈ path, P c) :
    ∀ c ∈ name, P c := by
  have hofficial {path : List Char} : ∀ c ∈ path, c ∈ officialPath path := by
    intro c hc
    unfold officialPath
    split_ifs
    · exact hc
    · exact List.mem_append_right _ hc
  have hjoin {first rest : List Char} (hfirst : ∀ c ∈ first, P c) (hrest : ∀ c ∈ rest, P c) :
      ∀ c ∈ first ++ '/' :: rest, P c := by
    intro c hc
    rcases List.mem_append.mp hc with hc | hc
    · exact hfirst c hc
    · rcases List.mem_cons.mp hc with rfl | hc
      · exact hslash
      · exact hrest c hc
  rcases h with ⟨-, -, -⟩ | ⟨rfl | rfl⟩ | -
  · exact hjoin hdomain hpath
  · exact hjoin hdomain fun c hc => hpath c (hofficial c hc)
  · exact hjoin hdefault fun c hc => hpath c (hofficial c hc)
  · exact fun c hc => hpath c (hofficial c hc)

end StandsFor

/-! ### Parsing -/

/-- The spelling every other comes down to. -/
def NormalizedReference.render (reference : NormalizedReference) : String :=
  reference.domain ++ "/" ++ reference.path ++ ":" ++ reference.tag

section Parsing
variable {whole : String} {reference name domain path tag : List Char} {text : String} {n : NormalizedReference}

theorem path_chars (h : Joined '/' PathComponent path) :
    ∀ c ∈ path, isPathAlphanumeric c = true ∨ c = '.' ∨ c = '_' ∨ c = '-' ∨ c = '/' := by
  refine h.forall_mem (by decide) fun item hitem c hc => ?_
  rcases hitem.forall_mem c hc with h | h | h | h
  · exact .inl h
  · exact .inr (.inl h)
  · exact .inr (.inr (.inl h))
  · exact .inr (.inr (.inr (.inl h)))

theorem path_byteLen (h : Joined '/' PathComponent path) : byteLen (.ofList path) = path.length := by
  refine byteLen_of_ascii fun c hc => ?_
  rcases path_chars h c hc with h | rfl | rfl | rfl | rfl
  · exact toNat_lt_of_alphanumeric (isAsciiAlphanumeric_of_path h)
  all_goals decide

theorem not_upper_of_path {c : Char} (h : isPathAlphanumeric c = true) : isAsciiUpper c = false := by
  simp only [isPathAlphanumeric, isAsciiLower, isAsciiDigit, isAsciiUpper, Bool.or_eq_true, Bool.and_eq_true,
    Bool.and_eq_false_iff, decide_eq_true_eq, decide_eq_false_iff_not] at h ⊢
  rcases h with h | h
  · exact .inr fun hle => absurd (Char.le_trans h.1 hle) (by decide)
  · exact .inl fun hle => absurd (Char.le_trans hle h.2) (by decide)

theorem path_not_upper (h : Joined '/' PathComponent path) : path.any isAsciiUpper = false := by
  rw [List.any_eq_false]
  intro c hc
  rcases path_chars h c hc with h | rfl | rfl | rfl | rfl
  · rw [not_upper_of_path h]
    decide
  all_goals decide

/-- A text with a colon in it is no bare identifier. -/
theorem not_hex_of_colon (h : ':' ∈ whole.toList) : ¬(byteLen whole = IMAGE_DIGEST_HEX_LEN ∧ isLowerHex whole) := by
  rintro ⟨-, hhex⟩
  exact absurd (List.all_eq_true.mp hhex ':' h) (by decide)

theorem normalizeName_ok_iff (hcolon : ':' ∈ whole.toList) :
    normalizeName whole name = .ok (.ofList domain, .ofList path) ↔ StandsFor name domain path ∧ Repository domain path := by
  unfold normalizeName
  rw [if_neg (not_hex_of_colon hcolon), standsFor_iff]
  rcases hsplit : splitDockerDomain name with ⟨domain', path'⟩
  dsimp only
  constructor
  · intro h
    split_ifs at h with hupper hdomain hpath hlen
    rw [Bool.not_eq_true', Bool.not_eq_false] at hdomain hpath
    have hpath' := (splitOn_all_iff (fun _ => isValidPathComponent_iff) fun _ => slash_not_mem).mp hpath
    rw [path_byteLen hpath', Nat.not_lt] at hlen
    have heq := Prod.mk.inj (Except.ok.inj h)
    obtain rfl := String.ofList_injective heq.1
    obtain rfl := String.ofList_injective heq.2
    exact ⟨rfl, isValidDomainAndPort_iff.mp hdomain, hpath', hlen⟩
  · rintro ⟨heq, hdomain, hpath, hlen⟩
    obtain ⟨rfl, rfl⟩ := Prod.mk.inj heq
    rw [path_not_upper hpath, isValidDomainAndPort_iff.mpr hdomain,
      (splitOn_all_iff (fun _ => isValidPathComponent_iff) fun _ => slash_not_mem).mpr hpath, path_byteLen hpath,
      if_neg (Nat.not_lt.mpr hlen)]
    rfl

theorem Tag.not_mem (h : Tag tag) : ':' ∉ tag ∧ '/' ∉ tag := by
  constructor <;> intro hmem <;> rcases h.forall_mem _ hmem with h | h | h | h <;> exact absurd h (by decide)

theorem Tagged.at_not_mem (h : Tagged reference domain path tag) : '@' ∉ reference := by
  obtain ⟨name, rfl, hstands, hrepository, htag⟩ := h
  have hdomain : ∀ c ∈ domain, c ≠ '@' := by
    rintro c hc rfl
    rcases hrepository.validDomain.forall_mem _ hc with h | h | h | h | h | h <;> exact absurd h (by decide)
  have hpath : ∀ c ∈ path, c ≠ '@' := by
    rintro c hc rfl
    rcases path_chars hrepository.validPath _ hc with h | h | h | h | h <;> exact absurd h (by decide)
  have hname := hstands.forall_mem (P := (· ≠ '@')) (by decide) (forall_mem_of_all (by decide)) hdomain hpath
  intro hmem
  rcases List.mem_append.mp hmem with hmem | hmem
  · exact hname _ hmem rfl
  · rcases List.mem_cons.mp hmem with h | hmem
    · exact absurd h (by decide)
    · rcases htag.forall_mem _ hmem with h | h | h | h <;> exact absurd h (by decide)

theorem parse_of_splitTag (hat : '@' ∉ text.toList) (h : splitTag text.toList = some (name, tag)) :
    parseTaggedReference text = (if !isValidTag (.ofList tag) then .error (.invalidTag (.ofList tag))
      else do
        let (domain, path) ← normalizeName text name
        .ok ⟨domain, path, .ofList tag⟩) := by
  have hne : text.toList.isEmpty = false := by
    rw [List.isEmpty_eq_false_iff, (splitTag_eq_some.mp h).1]
    exact List.append_ne_nil_of_right_ne_nil _ (List.cons_ne_nil _ _)
  unfold parseTaggedReference
  rw [hne, if_neg Bool.false_ne_true, if_neg fun h => hat (List.contains_iff_mem.mp h), h]

theorem parseTaggedReference_ok_iff : parseTaggedReference text = .ok n ↔
    Tagged text.toList n.domain.toList n.path.toList n.tag.toList := by
  constructor
  · intro h
    have h' := h
    unfold parseTaggedReference at h'
    split at h'
    · cases h'
    split at h'
    · cases h'
    next hat =>
    rcases hsplit : splitTag text.toList with _ | ⟨name, tag⟩
    · rw [hsplit] at h'
      cases h'
    clear h'
    rw [parse_of_splitTag (fun hmem => hat (List.contains_iff_mem.mpr hmem)) hsplit] at h
    obtain ⟨htext, -⟩ := splitTag_eq_some.mp hsplit
    split at h
    · cases h
    next htag =>
    rw [Bool.not_eq_true', Bool.not_eq_false] at htag
    obtain ⟨⟨domain, path⟩, hname, hn⟩ := Checks.bind_ok h
    cases hn
    rw [← domain.ofList_toList, ← path.ofList_toList] at hname
    have hcolon : ':' ∈ text.toList := htext ▸ List.mem_append_right _ List.mem_cons_self
    obtain ⟨hstands, hrepository⟩ := (normalizeName_ok_iff hcolon).mp hname
    exact ⟨name, by rw [String.toList_ofList]; exact htext, hstands, hrepository, by
      rw [String.toList_ofList]; exact isValidTag_iff.mp htag⟩
  · intro h
    have hat := h.at_not_mem
    obtain ⟨name, htext, hstands, hrepository, htag⟩ := h
    have hcolon : ':' ∈ text.toList := htext ▸ List.mem_append_right _ List.mem_cons_self
    rw [parse_of_splitTag hat (splitTag_eq_some.mpr ⟨htext, htag.not_mem⟩), isValidTag_iff.mpr htag,
      (normalizeName_ok_iff hcolon).mpr ⟨hstands, hrepository⟩]
    simp only [String.ofList_toList]
    rfl

theorem toList_render (n : NormalizedReference) :
    n.render.toList = (n.domain.toList ++ '/' :: n.path.toList) ++ ':' :: n.tag.toList := by
  simp [NormalizedReference.render, String.toList_append]

theorem parse_render (h : parseTaggedReference text = .ok n) : parseTaggedReference n.render = .ok n := by
  obtain ⟨name, -, hstands, hrepository, htag⟩ := parseTaggedReference_ok_iff.mp h
  exact parseTaggedReference_ok_iff.mpr ⟨_, toList_render n, hstands.normal, hrepository, htag⟩

/-! ### Spellings -/

/-- Behind a text without a colon or an at sign, a reference has its tag where it had it. -/
theorem splitTag_append {before : List Char} (hcolon : ':' ∉ before) :
    splitTag (before ++ reference) = (splitTag reference).map fun (name, tag) => (before ++ name, tag) := by
  rcases h : splitTag reference with _ | ⟨name, tag⟩
  · rcases h' : splitTag (before ++ reference) with _ | ⟨name, tag⟩
    · rfl
    · obtain ⟨heq, htag⟩ := splitTag_eq_some.mp h'
      rcases List.append_eq_append_iff.mp heq with ⟨inner, rfl, hinner⟩ | ⟨inner, hbefore, hinner⟩
      · rw [splitTag_eq_some.mpr ⟨hinner, htag⟩] at h
        cases h
      · rcases inner with _ | ⟨c, inner⟩
        · rw [splitTag_eq_some.mpr ⟨show reference = [] ++ ':' :: tag from hinner.symm, htag⟩] at h
          cases h
        · obtain ⟨rfl, -⟩ := List.cons.inj hinner
          exact absurd (hbefore ▸ List.mem_append_right _ List.mem_cons_self) hcolon
  · obtain ⟨rfl, htag⟩ := splitTag_eq_some.mp h
    exact splitTag_eq_some.mpr ⟨(List.append_assoc ..).symm, htag⟩

/-- References whose names split alike parse alike, refusals included. -/
theorem parse_congr {before before' : String} (hfree : ∀ c ∈ before.toList, c ≠ ':' ∧ c ≠ '@')
    (hfree' : ∀ c ∈ before'.toList, c ≠ ':' ∧ c ≠ '@') (hne : before ++ text ≠ "") (hne' : before' ++ text ≠ "")
    (h : ∀ name tag, text.toList = name ++ ':' :: tag → '/' ∉ tag →
      splitDockerDomain (before.toList ++ name) = splitDockerDomain (before'.toList ++ name)) :
    parseTaggedReference (before ++ text) = parseTaggedReference (before' ++ text) := by
  have hat {before : String} (hfree : ∀ c ∈ before.toList, c ≠ ':' ∧ c ≠ '@') :
      (before ++ text).toList.contains '@' = text.toList.contains '@' := by
    rw [String.toList_append, Bool.eq_iff_iff, List.contains_iff_mem, List.contains_iff_mem, List.mem_append]
    exact or_iff_right fun hmem => (hfree _ hmem).2 rfl
  have hcut {before : String} (hfree : ∀ c ∈ before.toList, c ≠ ':' ∧ c ≠ '@') :
      splitTag (before ++ text).toList = (splitTag text.toList).map fun (name, tag) => (before.toList ++ name, tag) := by
    rw [String.toList_append]
    exact splitTag_append fun hmem => (hfree _ hmem).1 rfl
  have hempty {s : String} (hs : s ≠ "") : s.toList.isEmpty = false :=
    List.isEmpty_eq_false_iff.mpr fun h => hs (String.toList_inj.mp h)
  unfold parseTaggedReference
  rw [hempty hne, hempty hne', hat hfree, hat hfree', hcut hfree, hcut hfree']
  rcases hsplit : splitTag text.toList with _ | ⟨name, tag⟩
  · rfl
  · obtain ⟨htext, -, hslash⟩ := splitTag_eq_some.mp hsplit
    have hcolon {before : String} : ':' ∈ (before ++ text).toList := by
      rw [String.toList_append, htext]
      exact List.mem_append_right _ (List.mem_append_right _ List.mem_cons_self)
    have hname : normalizeName (before ++ text) (before.toList ++ name) =
        normalizeName (before' ++ text) (before'.toList ++ name) := by
      unfold normalizeName
      rw [if_neg (not_hex_of_colon hcolon), if_neg (not_hex_of_colon hcolon), h name tag htext hslash]
    simp only [Option.map_some, hname]

/-- No registry is named in front of the image's own name. -/
def Familiar (text : String) : Prop :=
  ∀ first rest, text.toList = first ++ '/' :: rest → '/' ∉ first → ¬NamesRegistry first

theorem append_ne_empty {before : String} (h : text ≠ "") : before ++ text ≠ "" := by
  intro heq
  have hnil := congrArg String.toList heq
  rw [String.toList_append] at hnil
  exact h (String.toList_inj.mp (List.append_eq_nil_iff.mp hnil).2)

/-- The default registry has two names. -/
theorem parse_legacy : parseTaggedReference ("index.docker.io/" ++ text) = parseTaggedReference ("docker.io/" ++ text) := by
  have hne {before : String} (h : before ≠ "") : before ++ text ≠ "" := by
    intro heq
    have hnil := congrArg String.toList heq
    rw [String.toList_append] at hnil
    exact h (String.toList_inj.mp (List.append_eq_nil_iff.mp hnil).1)
  refine parse_congr (forall_mem_of_all (by decide)) (forall_mem_of_all (by decide)) (hne (by decide)) (hne (by decide)) fun name tag _ _ => ?_
  have hlegacy : splitDockerDomain ("index.docker.io".toList ++ '/' :: name) = _ := splitDockerDomain_default (.inr rfl)
  have hdefault : splitDockerDomain ("docker.io".toList ++ '/' :: name) = _ := splitDockerDomain_default (.inl rfl)
  exact hlegacy.trans hdefault.symm

/-- The default registry need not be named. -/
theorem parse_default (hne : text ≠ "") (h : Familiar text) :
    parseTaggedReference ("docker.io/" ++ text) = parseTaggedReference text := by
  have hsplit := @parse_congr text "docker.io/" "" (forall_mem_of_all (by decide)) (forall_mem_of_all (by decide))
    (append_ne_empty hne) (append_ne_empty hne) fun name tag htext _ => ?_
  · rwa [String.empty_append] at hsplit
  · have hfamiliar : splitDockerDomain name = (DOCKER_DEFAULT_DOMAIN.toList, officialPath name) := by
      refine splitDockerDomain_familiar fun first rest hname hslash => ?_
      exact h first (rest ++ ':' :: tag) (by rw [htext, hname, List.append_assoc, List.cons_append]) hslash
    have hdefault : splitDockerDomain ("docker.io".toList ++ '/' :: name) = _ := splitDockerDomain_default (.inl rfl)
    exact hdefault.trans hfamiliar.symm

/-- The official images' own part of the path need not be. -/
theorem parse_official (hne : text ≠ "") (h : '/' ∉ text.toList) :
    parseTaggedReference ("library/" ++ text) = parseTaggedReference text := by
  have hsplit := @parse_congr text "library/" "" (forall_mem_of_all (by decide)) (forall_mem_of_all (by decide))
    (append_ne_empty hne) (append_ne_empty hne) fun name tag htext _ => ?_
  · rwa [String.empty_append] at hsplit
  · have hname : '/' ∉ name := fun hmem => h (htext ▸ List.mem_append_left _ hmem)
    have hshort : splitDockerDomain name = (DOCKER_DEFAULT_DOMAIN.toList, officialPath name) :=
      splitDockerDomain_familiar fun first rest heq _ =>
        absurd (heq ▸ List.mem_append_right _ List.mem_cons_self) hname
    have hlong : splitDockerDomain ("library/".toList ++ name) =
        (DOCKER_DEFAULT_DOMAIN.toList, officialPath ("library/".toList ++ name)) := by
      refine splitDockerDomain_familiar fun first rest heq hslash => ?_
      have hcut := splitOnce_eq_some.mpr ⟨heq, hslash⟩
      have hlibrary : splitOnce '/' ("library/".toList ++ name) = some ("library".toList, name) :=
        splitOnce_eq_some.mpr ⟨rfl, by decide⟩
      obtain ⟨rfl, -⟩ := Prod.mk.inj (Option.some.inj (hcut.symm.trans hlibrary))
      rintro (h | h | h | ⟨c, hc, hupper⟩)
      · exact absurd h (by decide)
      · exact absurd h (by decide)
      · exact absurd h (by decide)
      · exact forall_mem_of_all (P := (isAsciiUpper · ≠ true)) (by decide) c hc hupper
    have hpath : officialPath ("library/".toList ++ name) = officialPath name := by
      rw [officialPath, if_pos (List.mem_append_left _ (by decide)), officialPath, if_neg hname]
      rfl
    rw [hlong, hpath]
    exact hshort.symm

end Parsing

/-- The parser accepts the tagged references of the grammar and no others, each as the registry, path and tag it
stands for. What it accepts parses again, in its normal form, to itself. The default registry under either of its
names, or unnamed, and the official images with or without their own part of the path, are parsed alike. -/
theorem parseTaggedReference_spec :
    (∀ text n, parseTaggedReference text = .ok n ↔
      Tagged text.toList n.domain.toList n.path.toList n.tag.toList) ∧
    (∀ text n, parseTaggedReference text = .ok n → parseTaggedReference n.render = .ok n) ∧
    (∀ text, parseTaggedReference ("index.docker.io/" ++ text) = parseTaggedReference ("docker.io/" ++ text)) ∧
    (∀ text, text ≠ "" → Familiar text → parseTaggedReference ("docker.io/" ++ text) = parseTaggedReference text) ∧
    (∀ text, text ≠ "" → '/' ∉ text.toList → parseTaggedReference ("library/" ++ text) = parseTaggedReference text) :=
  ⟨fun _ _ => parseTaggedReference_ok_iff, fun _ _ => parse_render, fun _ => parse_legacy, fun _ => parse_default,
    fun _ => parse_official⟩

end DeployCore
