import DeployCore.ImageDocuments
import DeployCore.ImageStatements

/-! # The tags of an image archive

The references an archive stores its image under, against the declared ones: the stored tags literally, the index's
annotations by normalized identity. Both checks judge alike, which is what is proved of them. -/

namespace DeployCore

def CONTAINERD_NAME_ANNOTATION : String := "io.containerd.image.name"
def OCI_REF_NAME_ANNOTATION : String := "org.opencontainers.image.ref.name"

/-- The order of strings: that of their bytes. -/
def bytesBefore : Bytes → Bytes → Bool
  | _, [] => false
  | [], _ :: _ => true
  | a :: as, b :: bs => a < b || (a == b && bytesBefore as bs)

def strBefore (s t : String) : Bool :=
  bytesBefore (asBytes s) (asBytes t)

/-- `Iterator::min`. -/
def smallest : List String → Option String
  | [] => none
  | s :: rest => some (rest.foldl (fun least s => if strBefore s least then s else least) s)

/-- The smallest of the references that are only on one side. -/
def firstDifference (missing extra : List String) (source : ReferenceSource) : Except ArchiveVerdict Unit :=
  match smallest missing, smallest extra with
  | some missing, some extra =>
    if strBefore extra missing then .error (.undeclared extra source) else .error (.missing missing source)
  | some missing, none => .error (.missing missing source)
  | none, some extra => .error (.undeclared extra source)
  | none, none => .ok ()

def parses (reference : String) : Bool :=
  (parseTaggedReference reference).toOption.isSome

/-- The stored tags, literally. -/
def repoTags (tags : List String) (declaration : ImageDeclaration) : Except ArchiveVerdict Unit :=
  match tags.findIdx? (!parses ·) with
  | some index => .error (.invalid (.invalidRepoTag index))
  | none =>
    if !tags.Nodup then .error (.invalid (.duplicateTag .repoTags))
    else
      firstDifference (declaration.publicRefs.filter (!tags.contains ·)) (tags.filter (!declaration.publicRefs.contains ·))
        .repoTags

/-- The name an index descriptor carries, with its normal form. -/
def readAnnotation (position : Nat) (descriptor : Descriptor) : Except ArchiveVerdict (NormalizedReference × String) :=
  let invalidAnnotation : ArchiveVerdict := .invalid ( InvalidArchiveReason.invalidAnnotation position)
  let annotation (key : String) := descriptor.annotations.bind fun annotations => (annotations.lookup key).bind Json.Value.asStr
  if descriptor.annotations.any fun annotations =>
      annotations.any fun member => member.1 != CONTAINERD_NAME_ANNOTATION && member.1 != OCI_REF_NAME_ANNOTATION then
    .error (.unsupported UnsupportedArchiveFeature.descriptorAnnotation)
  else
    match annotation CONTAINERD_NAME_ANNOTATION with
    | none => .error invalidAnnotation
    | some name =>
      match parseTaggedReference name with
      | .error _ => .error invalidAnnotation
      | .ok normalized =>
        if ( annotation OCI_REF_NAME_ANNOTATION).any fun refName =>
            refName != normalized.tag && (parseTaggedReference refName).toOption != some normalized then
          .error invalidAnnotation
        else .ok (normalized, name)

def readAnnotations : Nat → List Descriptor → Except ArchiveVerdict (List (NormalizedReference × String))
  | _, [] => .ok []
  | position, descriptor :: descriptors => do
    let name ← readAnnotation position descriptor
    let names ← readAnnotations (position + 1) descriptors
    .ok (name :: names)

/-- The references of the index's descriptors, by normalized identity. -/
def indexAnnotations (index : List Descriptor) (declaration : ImageDeclaration) : Except ArchiveVerdict Unit := do
  let named ← readAnnotations 0 index
  if !(named.map Prod.fst).Nodup then .error (.invalid (.duplicateTag ReferenceSource.indexAnnotation))
  else
    let declared := declaration.publicRefs.filterMap fun reference =>
      (parseTaggedReference reference).toOption.map fun normalized => (normalized, reference)
    firstDifference ((declared.filter fun name => !(named.map Prod.fst).contains name.1).map Prod.snd)
      ((named.filter fun name => !(declared.map Prod.fst).contains name.1).map Prod.snd) ReferenceSource.indexAnnotation

/-! ### What the checks are for -/

section Sides
variable {κ ι : Type} (key : String → Option κ)

/-- What the references of one side name. -/
def identities (references : List String) : Set κ :=
  {k | ∃ reference ∈ references, key reference = some k}

/-- A reference of one side that names what none of the other side does. -/
def OnlyIn (mine others : List String) (reference : String) : Prop :=
  reference ∈ mine ∧ ∃ k, key reference = some k ∧ k ∉ identities key others

/-- The two sides compared: they name the same, or the smallest reference they differ in is named with its side. -/
inductive Compared (source : ReferenceSource) (declared stored : List String) : Except ArchiveVerdict Unit → Prop
  | same (h : identities key declared = identities key stored) : Compared source declared stored (.ok ())
  | missing {reference : String} (h : OnlyIn key declared stored reference)
      (hleast : ∀ other, OnlyIn key declared stored other ∨ OnlyIn key stored declared other → ¬strBefore other reference) :
      Compared source declared stored (.error (.missing reference source))
  | undeclared {reference : String} (h : OnlyIn key stored declared reference)
      (hleast : ∀ other, OnlyIn key declared stored other ∨ OnlyIn key stored declared other → ¬strBefore other reference) :
      Compared source declared stored (.error (.undeclared reference source))

/-- An item is a reference, wherever it stands. -/
def Reads (read : Nat → ι → Except ArchiveVerdict String) (item : ι) (name : String) : Prop :=
  ∀ position, read position item = .ok name

/-- What is stored, judged: the first item that is no reference, else a repeated reference, else the comparison with
what is declared. -/
inductive TagsJudged (read : Nat → ι → Except ArchiveVerdict String) (source : ReferenceSource) (declared : List String)
    (items : List ι) : Except ArchiveVerdict Unit → Prop
  | unreadable {before after : List ι} {item : ι} {verdict : ArchiveVerdict} (h : items = before ++ item :: after)
      (hbefore : ∃ names, List.Forall₂ (Reads read) before names) (hitem : read before.length item = .error verdict) :
      TagsJudged read source declared items (.error verdict)
  | repeated {names : List String} (hread : List.Forall₂ (Reads read) items names) (h : ¬(names.map key).Nodup) :
      TagsJudged read source declared items (.error (.invalid (.duplicateTag source)))
  | compared {names : List String} {verdict : Except ArchiveVerdict Unit} (hread : List.Forall₂ (Reads read) items names)
      (hnodup : (names.map key).Nodup) (h : Compared key source declared names verdict) :
      TagsJudged read source declared items verdict

end Sides

/-! ### The order of strings -/

theorem bytesBefore_self (a : Bytes) : bytesBefore a a = false := by
  induction a with
  | nil => rfl
  | cons x a ih => simp [bytesBefore, ih]

theorem bytesBefore_trans {a b c : Bytes} (hab : bytesBefore a b = true) (hbc : bytesBefore b c = true) :
    bytesBefore a c = true := by
  induction a generalizing b c with
  | nil =>
    rcases c with _ | ⟨z, c⟩
    · rcases b with _ | ⟨y, b⟩ <;> simp [bytesBefore] at hbc
    · rfl
  | cons x a ih =>
    rcases b with _ | ⟨y, b⟩
    · simp [bytesBefore] at hab
    rcases c with _ | ⟨z, c⟩
    · simp [bytesBefore] at hbc
    simp only [bytesBefore, Bool.or_eq_true, Bool.and_eq_true, decide_eq_true_eq, beq_iff_eq] at hab hbc ⊢
    rcases hab with hxy | ⟨rfl, hab⟩
    · rcases hbc with hyz | ⟨rfl, -⟩
      · exact .inl (UInt8.lt_trans hxy hyz)
      · exact .inl hxy
    · rcases hbc with hyz | ⟨rfl, hbc⟩
      · exact .inl hyz
      · exact .inr ⟨rfl, ih hab hbc⟩

theorem bytesBefore_total {a b : Bytes} (hab : bytesBefore a b = false) (hba : bytesBefore b a = false) : a = b := by
  induction a generalizing b with
  | nil =>
    rcases b with _ | ⟨y, b⟩
    · rfl
    · simp [bytesBefore] at hab
  | cons x a ih =>
    rcases b with _ | ⟨y, b⟩
    · simp [bytesBefore] at hba
    simp only [bytesBefore, Bool.or_eq_false_iff, Bool.and_eq_false_iff, decide_eq_false_iff_not, beq_eq_false_iff_ne] at hab hba
    obtain rfl : x = y := UInt8.le_antisymm (UInt8.not_lt.mp hba.1) (UInt8.not_lt.mp hab.1)
    rw [ih (hab.2.resolve_left (absurd rfl)) (hba.2.resolve_left (absurd rfl))]

section Order
variable {s t u : String} {list : List String}

theorem strBefore_trans (hst : strBefore s t = true) (htu : strBefore t u = true) : strBefore s u = true :=
  bytesBefore_trans hst htu

theorem strBefore_total (hst : ¬strBefore s t) (hts : ¬strBefore t s) : s = t :=
  asBytes_inj (bytesBefore_total (Bool.not_eq_true _ ▸ hst) (Bool.not_eq_true _ ▸ hts))

/-- What is not behind another is before all that the other is before. -/
theorem strBefore_of_not (hts : ¬strBefore t s) (htu : strBefore t u = true) : strBefore s u = true := by
  by_cases hst : strBefore s t
  · exact strBefore_trans hst htu
  · exact strBefore_total hst hts ▸ htu

/-- One of the list that none of it is before. -/
def Least (list : List String) (least : String) : Prop :=
  least ∈ list ∧ ∀ other ∈ list, ¬strBefore other least

theorem least_foldl {least : String} {seen : List String} (h : Least seen least) :
    Least (seen ++ list) (list.foldl (fun least s => if strBefore s least then s else least) least) := by
  induction list generalizing seen least with
  | nil => simpa using h
  | cons s list ih =>
    have hnext : Least (seen ++ [s]) (if strBefore s least then s else least) := by
      split
      next hbefore =>
        refine ⟨List.mem_append_right _ List.mem_cons_self, fun other hother hlt => ?_⟩
        rcases List.mem_append.mp hother with hother | hother
        · exact h.2 other hother (strBefore_trans hlt hbefore)
        · rw [List.mem_singleton.mp hother] at hlt
          exact absurd hlt (by rw [strBefore, bytesBefore_self]; exact Bool.false_ne_true)
      next hbefore =>
        refine ⟨List.mem_append_left _ h.1, fun other hother => ?_⟩
        rcases List.mem_append.mp hother with hother | hother
        · exact h.2 other hother
        · exact List.mem_singleton.mp hother ▸ hbefore
    simpa using ih hnext

theorem smallest_some {least : String} (h : smallest list = some least) : Least list least := by
  rcases list with _ | ⟨s, list⟩
  · cases h
  · cases h
    refine @least_foldl list s [s] ⟨List.mem_cons_self, fun other hother => ?_⟩
    rw [List.mem_singleton.mp hother, strBefore, bytesBefore_self]
    exact Bool.false_ne_true

theorem smallest_none (h : smallest list = none) : list = [] := by
  rcases list with _ | ⟨s, list⟩
  · rfl
  · cases h

end Order

/-! ### Comparison -/

section Comparison
variable {κ : Type} {key : String → Option κ} {source : ReferenceSource} {declared declared' stored stored' : List String}
  {verdict verdict' : Except ArchiveVerdict Unit} {missing extra : List String}

theorem OnlyIn.not_both {reference : String} (h : OnlyIn key declared stored reference)
    (h' : OnlyIn key stored declared reference) : False := by
  obtain ⟨-, k, hk, hnot⟩ := h
  exact hnot ⟨reference, h'.1, hk⟩

theorem identities_eq_iff : identities key declared = identities key stored ↔
    ∀ reference, ¬(OnlyIn key declared stored reference ∨ OnlyIn key stored declared reference) := by
  constructor
  · rintro h reference (⟨hmem, k, hk, hnot⟩ | ⟨hmem, k, hk, hnot⟩)
    · exact hnot (h ▸ ⟨reference, hmem, hk⟩)
    · exact hnot (h.symm ▸ ⟨reference, hmem, hk⟩)
  · intro h
    ext k
    constructor
    · rintro ⟨reference, hmem, hk⟩
      by_contra hnot
      exact h reference (.inl ⟨hmem, k, hk, hnot⟩)
    · rintro ⟨reference, hmem, hk⟩
      by_contra hnot
      exact h reference (.inr ⟨hmem, k, hk, hnot⟩)

theorem Compared.ok_iff (h : Compared key source declared stored verdict) :
    verdict = .ok () ↔ identities key declared = identities key stored := by
  rcases h with h | ⟨h, -⟩ | ⟨h, -⟩
  · exact iff_of_true rfl h
  · exact iff_of_false nofun fun heq => identities_eq_iff.mp heq _ (.inl h)
  · exact iff_of_false nofun fun heq => identities_eq_iff.mp heq _ (.inr h)

/-- The comparison sees which references there are on each side, and no more. -/
theorem Compared.congr (h : Compared key source declared stored verdict) (hdeclared : ∀ r, r ∈ declared ↔ r ∈ declared')
    (hstored : ∀ r, r ∈ stored ↔ r ∈ stored') : Compared key source declared' stored' verdict := by
  have hd : identities key declared = identities key declared' := by simp only [identities, hdeclared]
  have hs : identities key stored = identities key stored' := by simp only [identities, hstored]
  have hmissing (r : String) : OnlyIn key declared stored r ↔ OnlyIn key declared' stored' r := by
    simp only [OnlyIn, hdeclared, hs]
  have hextra (r : String) : OnlyIn key stored declared r ↔ OnlyIn key stored' declared' r := by
    simp only [OnlyIn, hstored, hd]
  rcases h with h | ⟨h, hleast⟩ | ⟨h, hleast⟩
  · exact .same (hd ▸ hs ▸ h)
  · exact .missing ((hmissing _).mp h) fun other hother => hleast other (by rwa [hmissing, hextra])
  · exact .undeclared ((hextra _).mp h) fun other hother => hleast other (by rwa [hmissing, hextra])

theorem Compared.unique (h : Compared key source declared stored verdict)
    (h' : Compared key source declared stored verdict') : verdict = verdict' := by
  rcases h with h | ⟨h, hleast⟩ | ⟨h, hleast⟩ <;> rcases h' with h' | ⟨h', hleast'⟩ | ⟨h', hleast'⟩
  · rfl
  · exact absurd (.inl h') (identities_eq_iff.mp h _)
  · exact absurd (.inr h') (identities_eq_iff.mp h _)
  · exact absurd (.inl h) (identities_eq_iff.mp h' _)
  · rw [strBefore_total (hleast' _ (.inl h)) (hleast _ (.inl h'))]
  · obtain rfl := strBefore_total (hleast' _ (.inl h)) (hleast _ (.inr h'))
    exact (h.not_both h').elim
  · exact absurd (.inr h) (identities_eq_iff.mp h' _)
  · obtain rfl := strBefore_total (hleast' _ (.inr h)) (hleast _ (.inl h'))
    exact (h'.not_both h).elim
  · rw [strBefore_total (hleast' _ (.inr h)) (hleast _ (.inr h'))]

theorem compared_firstDifference (hmissing : ∀ r, r ∈ missing ↔ OnlyIn key declared stored r)
    (hextra : ∀ r, r ∈ extra ↔ OnlyIn key stored declared r) :
    Compared key source declared stored (firstDifference missing extra source) := by
  unfold firstDifference
  rcases hm : smallest missing with _ | m <;> rcases he : smallest extra with _ | e
  · refine .same (identities_eq_iff.mpr fun reference => ?_)
    rw [← hmissing, ← hextra, smallest_none hm, smallest_none he]
    simp
  · obtain ⟨hmem, hleast⟩ := smallest_some he
    refine .undeclared ((hextra e).mp hmem) fun other hother => ?_
    rw [← hmissing, ← hextra, smallest_none hm] at hother
    exact hleast other (hother.resolve_left List.not_mem_nil)
  · obtain ⟨hmem, hleast⟩ := smallest_some hm
    refine .missing ((hmissing m).mp hmem) fun other hother => ?_
    rw [← hmissing, ← hextra, smallest_none he] at hother
    exact hleast other (hother.resolve_right List.not_mem_nil)
  · obtain ⟨hm, hleast⟩ := smallest_some hm
    obtain ⟨he, hleast'⟩ := smallest_some he
    dsimp only
    split
    next hbefore =>
      refine .undeclared ((hextra e).mp he) fun other hother => ?_
      rw [← hmissing, ← hextra] at hother
      rcases hother with hother | hother
      · exact fun hlt => hleast other hother (strBefore_trans hlt hbefore)
      · exact hleast' other hother
    next hbefore =>
      refine .missing ((hmissing m).mp hm) fun other hother => ?_
      rw [← hmissing, ← hextra] at hother
      rcases hother with hother | hother
      · exact hleast other hother
      · exact fun hlt => hbefore (strBefore_of_not (hleast' other hother) hlt)

end Comparison

/-! ### Judgement -/

section Judgement
variable {κ ι : Type} {key : String → Option κ} {read : Nat → ι → Except ArchiveVerdict String} {source : ReferenceSource}
  {declared declared' : List String} {items items' : List ι} {names names' : List String}
  {verdict verdict' : Except ArchiveVerdict Unit}

theorem reads_unique (h : List.Forall₂ (Reads read) items names) (h' : List.Forall₂ (Reads read) items names') :
    names = names' := by
  induction h generalizing names' with
  | nil =>
    cases h'
    rfl
  | cons hitem _ ih =>
    rcases h' with - | ⟨hitem', hrest'⟩
    rw [Except.ok.inj ((hitem 0).symm.trans (hitem' 0)), ih hrest']

/-- The references of reordered items are the references reordered. -/
theorem reads_perm (hperm : items.Perm items') (h : List.Forall₂ (Reads read) items names) :
    ∃ names', names.Perm names' ∧ List.Forall₂ (Reads read) items' names' := by
  obtain ⟨names', hnames, hread⟩ := List.perm_comp_forall₂ hperm.symm h
  exact ⟨names', hread.symm, hnames⟩

theorem not_reads_of_error {before after : List ι} {item : ι} {error : ArchiveVerdict} (h : items = before ++ item :: after)
    (hitem : read before.length item = .error error) : ¬List.Forall₂ (Reads read) items names := by
  intro hread
  subst h
  obtain ⟨name, -, hname⟩ := Checks.exists_rel_of_mem hread.flip (List.mem_append_right before List.mem_cons_self)
  have hok : read before.length item = .ok name := hname _
  rw [hitem] at hok
  cases hok

theorem TagsJudged.ok_iff (h : TagsJudged key read source declared items verdict) :
    verdict = .ok () ↔ ∃ names, List.Forall₂ (Reads read) items names ∧ (names.map key).Nodup ∧
      identities key declared = identities key names := by
  rcases h with ⟨h, -, hitem⟩ | ⟨hread, h⟩ | ⟨hread, hnodup, h⟩
  · exact iff_of_false nofun fun ⟨_, hread, _⟩ => not_reads_of_error h hitem hread
  · exact iff_of_false nofun fun ⟨_, hread', hnodup, _⟩ => h (reads_unique hread hread' ▸ hnodup)
  · rw [h.ok_iff]
    constructor
    · exact fun heq => ⟨_, hread, hnodup, heq⟩
    · rintro ⟨_, hread', -, heq⟩
      exact reads_unique hread hread' ▸ heq

/-- Where every item is a reference, no order matters. -/
theorem TagsJudged.perm (h : TagsJudged key read source declared items verdict) (h' : TagsJudged key read source declared' items' verdict')
    (hdeclared : declared.Perm declared') (hitems : items.Perm items') (hread : List.Forall₂ (Reads read) items names) :
    verdict = verdict' := by
  obtain ⟨names', hnames, hread'⟩ := reads_perm hitems hread
  have hnodup : (names.map key).Nodup ↔ (names'.map key).Nodup := (hnames.map key).nodup_iff
  rcases h with ⟨h, -, hitem⟩ | ⟨hreads, h⟩ | ⟨hreads, hdistinct, h⟩
  · exact absurd hread (not_reads_of_error h hitem)
  · obtain rfl := reads_unique hread hreads
    rcases h' with ⟨h', -, hitem⟩ | ⟨hreads', h'⟩ | ⟨hreads', hdistinct', -⟩
    · exact absurd hread' (not_reads_of_error h' hitem)
    · rfl
    · obtain rfl := reads_unique hread' hreads'
      exact absurd (hnodup.mpr hdistinct') h
  · obtain rfl := reads_unique hread hreads
    rcases h' with ⟨h', -, hitem⟩ | ⟨hreads', h'⟩ | ⟨hreads', -, h'⟩
    · exact absurd hread' (not_reads_of_error h' hitem)
    · obtain rfl := reads_unique hread' hreads'
      exact absurd (hnodup.mp hdistinct) h'
    · obtain rfl := reads_unique hread' hreads'
      exact (h.congr (fun _ => hdeclared.mem_iff) fun _ => hnames.mem_iff).unique h'

/-- The order of what is declared does not matter. -/
theorem TagsJudged.unique (h : TagsJudged key read source declared items verdict) (h' : TagsJudged key read source declared' items verdict')
    (hdeclared : declared.Perm declared') : verdict = verdict' := by
  rcases h with ⟨hitems, ⟨names, hbefore⟩, hitem⟩ | ⟨hread, hrepeated⟩ | ⟨hread, hnodup, hcompared⟩
  · rcases h' with ⟨hitems', ⟨names', hbefore'⟩, hitem'⟩ | ⟨hread', -⟩ | ⟨hread', -⟩
    · -- both name the first item that is no reference
      rcases List.append_eq_append_iff.mp (hitems.symm.trans hitems') with ⟨inner, rfl, hinner⟩ | ⟨inner, rfl, hinner⟩
      · rcases inner with _ | ⟨c, inner⟩
        · obtain ⟨rfl, -⟩ := List.cons.inj hinner
          rw [List.append_nil] at hitem'
          rw [Except.error.inj (hitem.symm.trans hitem')]
        · obtain ⟨rfl, -⟩ := List.cons.inj hinner
          exact absurd hbefore' (not_reads_of_error rfl hitem)
      · rcases inner with _ | ⟨c, inner⟩
        · obtain ⟨rfl, -⟩ := List.cons.inj hinner
          rw [List.append_nil] at hitem
          rw [Except.error.inj (hitem.symm.trans hitem')]
        · obtain ⟨rfl, -⟩ := List.cons.inj hinner
          exact absurd hbefore (not_reads_of_error rfl hitem')
    all_goals exact absurd hread' (not_reads_of_error hitems hitem)
  · exact TagsJudged.perm (.repeated hread hrepeated) h' hdeclared (.refl _) hread
  · exact TagsJudged.perm (.compared hread hnodup hcompared) h' hdeclared (.refl _) hread

end Judgement

/-! ### The two checks -/

section Checks
variable {tags : List String} {index : List Descriptor} {declaration : ImageDeclaration}

/-- A stored tag is the reference it spells. -/
def readTag (position : Nat) (tag : String) : Except ArchiveVerdict String :=
  if parses tag then .ok tag else .error (.invalid (.invalidRepoTag position))

theorem exists_of_findIdx? {α : Type} {p : α → Bool} {xs : List α} {i : Nat} (h : xs.findIdx? p = some i) :
    ∃ before x after, xs = before ++ x :: after ∧ before.length = i ∧ p x = true ∧ ∀ y ∈ before, p y = false := by
  induction xs generalizing i with
  | nil => simp at h
  | cons x xs ih =>
    rw [List.findIdx?_cons] at h
    split at h
    next hx =>
      cases h
      exact ⟨[], x, xs, rfl, rfl, hx, by simp⟩
    next hx =>
      obtain ⟨j, hj, rfl⟩ := Option.map_eq_some_iff.mp h
      obtain ⟨before, y, after, rfl, rfl, hy, hbefore⟩ := ih hj
      exact ⟨x :: before, y, after, rfl, rfl, hy, List.forall_mem_cons.mpr ⟨Bool.not_eq_true _ ▸ hx, hbefore⟩⟩

theorem reads_tags {list : List String} (h : ∀ tag ∈ list, parses tag = true) : List.Forall₂ (Reads readTag) list list :=
  List.forall₂_same.mpr fun tag hmem _ => if_pos (h tag hmem)

theorem onlyIn_literal {mine others : List String} {reference : String} :
    OnlyIn some mine others reference ↔ reference ∈ mine ∧ reference ∉ others := by
  simp [OnlyIn, identities]

theorem repoTags_judged : TagsJudged some readTag .repoTags declaration.publicRefs tags (repoTags tags declaration) := by
  unfold repoTags
  rcases hfind : tags.findIdx? (!parses ·) with _ | i
  · have hall : ∀ tag ∈ tags, parses tag = true := by simpa using hfind
    dsimp only
    split
    next hrepeated =>
      refine .repeated (reads_tags hall) fun hnodup => ?_
      simp [List.Nodup.of_map _ hnodup] at hrepeated
    next hnodup =>
      have hnodup : tags.Nodup := by simpa using hnodup
      refine .compared (reads_tags hall) (hnodup.map (Option.some_injective _)) (compared_firstDifference ?_ ?_)
      all_goals
        intro r
        simp [onlyIn_literal]
  · obtain ⟨before, tag, after, rfl, rfl, htag, hbefore⟩ := exists_of_findIdx? hfind
    rw [Bool.not_eq_true'] at htag
    refine .unreadable rfl ⟨before, reads_tags fun other hother => ?_⟩ ?_
    · simpa using hbefore other hother
    · rw [readTag, if_neg (by simp [htag])]

/-- What the references of the index's descriptors name. -/
def parsedKey (reference : String) : Option NormalizedReference :=
  (parseTaggedReference reference).toOption

/-- A descriptor's name is the reference it carries. -/
def readName (position : Nat) (descriptor : Descriptor) : Except ArchiveVerdict String :=
  ( readAnnotation position descriptor).map Prod.snd

theorem readAnnotation_ok {position : Nat} {descriptor : Descriptor} {name : NormalizedReference × String}
    (h : readAnnotation position descriptor = .ok name) :
    parsedKey name.2 = some name.1 ∧ ∀ position, readAnnotation position descriptor = .ok name := by
  unfold readAnnotation at h
  dsimp only at h
  split at h
  · cases h
  next hkeys =>
  split at h
  · cases h
  next literal hliteral =>
  split at h
  · cases h
  next normalized hparse =>
  split at h
  · cases h
  next hname =>
  cases h
  refine ⟨by rw [parsedKey, hparse]; rfl, fun position => ?_⟩
  unfold readAnnotation
  dsimp only
  rw [if_neg hkeys, hliteral]
  dsimp only
  rw [hparse]
  exact if_neg hname

/-- The names of descriptors, read at whatever positions. -/
abbrev Named (index : List Descriptor) (named : List (NormalizedReference × String)) : Prop :=
  List.Forall₂ (fun descriptor name => ∀ position, readAnnotation position descriptor = .ok name) index named

theorem Named.reads {named : List (NormalizedReference × String)} (h : Named index named) :
    List.Forall₂ (Reads readName) index (named.map Prod.snd) :=
  List.forall₂_map_right_iff.mpr (h.imp fun _ _ hread position => by rw [readName, hread position]; rfl)

theorem Named.keys {named : List (NormalizedReference × String)} (h : Named index named) :
    ∀ name ∈ named, parsedKey name.2 = some name.1 := by
  intro name hmem
  obtain ⟨descriptor, -, hread⟩ := Checks.exists_rel_of_mem h hmem
  exact (readAnnotation_ok (hread 0)).1

theorem Named.mem_iff {named : List (NormalizedReference × String)} (h : Named index named) (n : NormalizedReference)
    (r : String) : (n, r) ∈ named ↔ r ∈ named.map Prod.snd ∧ parsedKey r = some n := by
  constructor
  · exact fun hmem => ⟨List.mem_map_of_mem hmem, h.keys _ hmem⟩
  · rintro ⟨hmem, hkey⟩
    obtain ⟨name, hname, rfl⟩ := List.mem_map.mp hmem
    obtain rfl := Option.some.inj ((h.keys name hname).symm.trans hkey)
    exact hname

/-- The names of one side that the other side does not have. -/
theorem mem_filter_names {κ : Type} [DecidableEq κ] {key : String → Option κ} {mine others : List (κ × String)}
    {mineRefs othersRefs : List String} {reference : String} (hmine : ∀ n r, (n, r) ∈ mine ↔ r ∈ mineRefs ∧ key r = some n)
    (hothers : ∀ n r, (n, r) ∈ others ↔ r ∈ othersRefs ∧ key r = some n) :
    reference ∈ (mine.filter fun name => !(others.map Prod.fst).contains name.1).map Prod.snd ↔
      OnlyIn key mineRefs othersRefs reference := by
  have hidentity (n : κ) : n ∈ others.map Prod.fst ↔ n ∈ identities key othersRefs := by
    constructor
    · intro hmem
      obtain ⟨⟨_, r⟩, hname, rfl⟩ := List.mem_map.mp hmem
      exact ⟨r, (hothers _ _).mp hname⟩
    · rintro ⟨r, hr⟩
      exact List.mem_map.mpr ⟨(n, r), (hothers _ _).mpr hr, rfl⟩
  constructor
  · intro hmem
    obtain ⟨⟨n, r⟩, hname, rfl⟩ := List.mem_map.mp hmem
    obtain ⟨hname, hnot⟩ := List.mem_filter.mp hname
    obtain ⟨hmem, hkey⟩ := (hmine _ _).mp hname
    exact ⟨hmem, n, hkey, fun hin => by simp [(hidentity n).mpr hin] at hnot⟩
  · rintro ⟨hmem, n, hkey, hnot⟩
    refine List.mem_map.mpr ⟨(n, reference), List.mem_filter.mpr ⟨(hmine _ _).mpr ⟨hmem, hkey⟩, ?_⟩, rfl⟩
    rw [Bool.not_eq_true', ← Bool.not_eq_true, List.contains_iff_mem, hidentity]
    exact hnot

theorem readAnnotations_ok {position : Nat} {named : List (NormalizedReference × String)}
    (h : readAnnotations position index = .ok named) : Named index named := by
  induction index generalizing position named with
  | nil =>
    cases h
    exact .nil
  | cons descriptor index ih =>
    obtain ⟨name, hname, h⟩ := Checks.bind_ok h
    obtain ⟨names, hnames, h⟩ := Checks.bind_ok h
    cases h
    exact .cons (readAnnotation_ok hname).2 (ih hnames)

theorem readAnnotations_error {position : Nat} {verdict : ArchiveVerdict}
    (h : readAnnotations position index = .error verdict) :
    ∃ before descriptor after, index = before ++ descriptor :: after ∧ (∃ named, Named before named) ∧
      readAnnotation (position + before.length) descriptor = .error verdict := by
  induction index generalizing position with
  | nil => cases h
  | cons descriptor index ih =>
    rcases Checks.bind_error h with hname | ⟨name, hname, h⟩
    · exact ⟨[], descriptor, index, rfl, ⟨[], .nil⟩, hname⟩
    · rcases Checks.bind_error h with hnames | ⟨names, -, h⟩
      · obtain ⟨before, item, after, rfl, ⟨named, hnamed⟩, hitem⟩ := ih hnames
        refine ⟨descriptor :: before, item, after, rfl, ⟨name :: named, .cons (readAnnotation_ok hname).2 hnamed⟩, ?_⟩
        rw [List.length_cons, Nat.add_comm before.length, ← Nat.add_assoc]
        exact hitem
      · cases h

theorem indexAnnotations_judged :
    TagsJudged parsedKey readName ReferenceSource.indexAnnotation declaration.publicRefs index (indexAnnotations index declaration) := by
  unfold indexAnnotations
  rcases hread : readAnnotations 0 index with verdict | named
  · obtain ⟨before, descriptor, after, rfl, ⟨named, hnamed⟩, hitem⟩ := readAnnotations_error hread
    rw [Nat.zero_add] at hitem
    exact .unreadable rfl ⟨_, hnamed.reads⟩ (by rw [readName, hitem]; rfl)
  have hnamed := readAnnotations_ok hread
  have hkeys : (named.map Prod.snd).map parsedKey = (named.map Prod.fst).map some := by
    rw [List.map_map, List.map_map]
    exact List.map_congr_left hnamed.keys
  have hnodupIff : ((named.map Prod.snd).map parsedKey).Nodup ↔ (named.map Prod.fst).Nodup := by
    rw [hkeys, List.nodup_map_iff (Option.some_injective _)]
  rw [Checks.ok_bind]
  split
  next hrepeated =>
    refine .repeated hnamed.reads fun hnodup => ?_
    simp [hnodupIff.mp hnodup] at hrepeated
  next hnodup =>
    have hdeclared (n : NormalizedReference) (r : String) : (n, r) ∈ declaration.publicRefs.filterMap (fun reference =>
        (parseTaggedReference reference).toOption.map fun normalized => (normalized, reference)) ↔
          r ∈ declaration.publicRefs ∧ parsedKey r = some n := by
      rw [List.mem_filterMap]
      constructor
      · rintro ⟨reference, hmem, hparse⟩
        obtain ⟨normalized, hkey, heq⟩ := Option.map_eq_some_iff.mp hparse
        cases heq
        exact ⟨hmem, hkey⟩
      · exact fun ⟨hmem, hkey⟩ => ⟨r, hmem, Option.map_eq_some_iff.mpr ⟨n, hkey, rfl⟩⟩
    refine .compared hnamed.reads (hnodupIff.mpr (by simpa using hnodup))
      (compared_firstDifference (fun _ => mem_filter_names hdeclared hnamed.mem_iff)
        fun _ => mem_filter_names hnamed.mem_iff hdeclared)

end Checks

/-! ### Order -/

section Order
variable {κ ι : Type} {key : String → Option κ} {read : Nat → ι → Except ArchiveVerdict String} {source : ReferenceSource}
  {declared declared' : List String} {items items' : List ι} {verdict verdict' : Except ArchiveVerdict Unit}

theorem identities_perm (h : declared.Perm declared') : identities key declared = identities key declared' := by
  simp only [identities, h.mem_iff]

theorem TagsJudged.accepts_perm (h : TagsJudged key read source declared items verdict)
    (h' : TagsJudged key read source declared' items' verdict') (hdeclared : declared.Perm declared') (hitems : items.Perm items') :
    verdict = .ok () → verdict' = .ok () := by
  rw [h.ok_iff, h'.ok_iff]
  rintro ⟨names, hread, hnodup, heq⟩
  obtain ⟨names', hnames, hread'⟩ := reads_perm hitems hread
  refine ⟨names', hread', (hnames.map key).nodup_iff.mp hnodup, ?_⟩
  rw [← identities_perm hdeclared, ← identities_perm hnames, heq]

theorem TagsJudged.orders (h : TagsJudged key read source declared items verdict)
    (h' : TagsJudged key read source declared' items' verdict') (hdeclared : declared.Perm declared') (hitems : items.Perm items') :
    (verdict = .ok () ↔ verdict' = .ok ()) ∧
      (items = items' ∨ (∃ names, List.Forall₂ (Reads read) items names) → verdict = verdict') := by
  refine ⟨⟨h.accepts_perm h' hdeclared hitems, h'.accepts_perm h hdeclared.symm hitems.symm⟩, ?_⟩
  rintro (rfl | ⟨names, hread⟩)
  · exact h.unique h' hdeclared
  · exact h.perm h' hdeclared hitems hread

end Order

/-- Both checks judge what is stored against what is declared: the first item that is no reference is refused, then a
repeated reference, and otherwise they accept exactly when both sides name the same, and name the smallest reference
in which they differ with its side. What is accepted depends on no order, and no verdict on that of the declaration;
nor on that of what is stored, where all of it is references. -/
theorem tagChecks_judged (declaration : ImageDeclaration) :
    (∀ tags, TagsJudged some readTag .repoTags declaration.publicRefs tags (repoTags tags declaration) ∧
      (repoTags tags declaration = .ok () ↔ (∀ tag ∈ tags, parses tag = true) ∧ tags.Nodup ∧
        ∀ reference, reference ∈ declaration.publicRefs ↔ reference ∈ tags)) ∧
    (∀ index, TagsJudged parsedKey readName ReferenceSource.indexAnnotation declaration.publicRefs index (indexAnnotations index declaration) ∧
      (indexAnnotations index declaration = .ok () ↔ ∃ names, List.Forall₂ (Reads readName) index names ∧
        (names.map parsedKey).Nodup ∧ identities parsedKey declaration.publicRefs = identities parsedKey names)) ∧
    ∀ declaration' : ImageDeclaration, declaration.publicRefs.Perm declaration'.publicRefs →
      (∀ tags tags', tags.Perm tags' →
        (repoTags tags declaration = .ok () ↔ repoTags tags' declaration' = .ok ()) ∧
        (tags = tags' ∨ (∀ tag ∈ tags, parses tag = true) → repoTags tags declaration = repoTags tags' declaration')) ∧
      ∀ index index', index.Perm index' →
        (indexAnnotations index declaration = .ok () ↔ indexAnnotations index' declaration' = .ok ()) ∧
        (index = index' ∨ (∃ names, List.Forall₂ (Reads readName) index names) →
          indexAnnotations index declaration = indexAnnotations index' declaration') := by
  refine ⟨fun tags => ⟨repoTags_judged, ?_⟩, fun index => ⟨indexAnnotations_judged, indexAnnotations_judged.ok_iff⟩,
    fun declaration' hdeclared => ⟨fun tags tags' htags => ?_, fun index index' hindex =>
      indexAnnotations_judged.orders indexAnnotations_judged hdeclared hindex⟩⟩
  · rw [repoTags_judged.ok_iff]
    constructor
    · rintro ⟨names, hread, hnodup, heq⟩
      have hparses : ∀ tag ∈ tags, parses tag = true := by
        intro tag hmem
        obtain ⟨name, -, hname⟩ := Checks.exists_rel_of_mem hread.flip hmem
        by_contra hnot
        have hok : readTag 0 tag = .ok name := hname 0
        rw [readTag, if_neg hnot] at hok
        cases hok
      obtain rfl := reads_unique hread (reads_tags hparses)
      refine ⟨hparses, List.Nodup.of_map _ hnodup, fun reference => ?_⟩
      simpa [identities] using Set.ext_iff.mp heq reference
    · rintro ⟨hparses, hnodup, heq⟩
      refine ⟨tags, reads_tags hparses, hnodup.map (Option.some_injective _), ?_⟩
      simp only [identities, heq]
  · obtain ⟨haccepts, horders⟩ := repoTags_judged.orders repoTags_judged hdeclared htags
    exact ⟨haccepts, fun h => horders (h.imp_right fun hparses => ⟨tags, reads_tags hparses⟩)⟩

/-- A tag stored twice is refused though both sides are the one declared reference, and a tag that is no reference is
refused by where it stands. -/
theorem repoTags_repeated :
    repoTags ["postgres:16", "postgres:16"] { databaseImage with publicRefs := ["postgres:16"] } =
        .error (.invalid (.duplicateTag .repoTags)) ∧
      repoTags ["?", "postgres:16"] databaseImage = .error (.invalid (.invalidRepoTag 0)) ∧
      repoTags ["postgres:16", "?"] databaseImage = .error (.invalid (.invalidRepoTag 1)) := by
  decide +kernel

end DeployCore
