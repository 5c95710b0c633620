import DeployCore.ImageReferences
import DeployCore.Statements

/-! # What the passes over the image declarations establish

One image under one reference, whatever its spelling, and the reserved registry's names only for the declarations
they are made from. -/

namespace DeployCore

/-! ### Conflicts -/

/-- What two declarations that assign one reference must agree on. -/
def ImageDeclaration.facets (image : ImageDeclaration) : String × ImagePlatform × ImageOwner × ReferenceLifecycle :=
  (image.configDigest, image.platform, image.owner, image.referenceLifecycle)

/-- The uses of one reference agree on the image it names. -/
def Agree (a b : PayloadArtifact × ImageDeclaration × String) : Prop :=
  ∀ key, parseTaggedReference a.2.2 = .ok key → parseTaggedReference b.2.2 = .ok key → a.2.1.facets = b.2.1.facets

/-- The declaration with its references in another order. -/
def ImageDeclaration.Reordered (image image' : ImageDeclaration) : Prop :=
  image.publicRefs.Perm image'.publicRefs ∧ image' = { image with publicRefs := image'.publicRefs }

/-- The artifact with the references of its declaration in another order. -/
def PayloadArtifact.Reordered (artifact artifact' : PayloadArtifact) : Prop :=
  Option.Rel ImageDeclaration.Reordered artifact.image artifact'.image ∧
    artifact' = { artifact with image := artifact'.image }

/-- The artifacts in another order, the references of each declaration in another order. -/
def PayloadManifest.Reordered (manifest manifest' : PayloadManifest) : Prop :=
  ∃ artifacts, manifest.artifacts.Perm artifacts ∧ List.Forall₂ PayloadArtifact.Reordered artifacts manifest'.artifacts

section Conflicts
variable {first later image image' : ImageDeclaration} {manifest manifest' : PayloadManifest} {artifact : PayloadArtifact}
  {reference : String}

theorem conflictBetween_eq_none : conflictBetween first later = none ↔ first.facets = later.facets := by
  unfold conflictBetween ImageDeclaration.facets
  split_ifs <;> simp_all

theorem agree_of_unparsed {a b : PayloadArtifact × ImageDeclaration × String} {error : ReferenceError}
    (h : parseTaggedReference a.2.2 = .error error) : Agree a b ∧ Agree b a := by
  constructor
  · intro key hkey
    rw [h] at hkey
    cases hkey
  · intro key _ hkey
    rw [h] at hkey
    cases hkey

theorem Agree.symm {a b : PayloadArtifact × ImageDeclaration × String} (h : Agree a b) : Agree b a :=
  fun key ha hb => (h key hb ha).symm

/-- What holds a reference already agrees with its later use. -/
def HeldAlike (assigned : List (NormalizedReference × PayloadArtifact × ImageDeclaration × String))
    (use : PayloadArtifact × ImageDeclaration × String) : Prop :=
  ∀ key, parseTaggedReference use.2.2 = .ok key → ∀ held, assigned.lookup key = some held → held.2.1.facets = use.2.1.facets

/-- The uses agree with one another and with what holds their references already. -/
def Consistent (assigned : List (NormalizedReference × PayloadArtifact × ImageDeclaration × String))
    (uses : List (PayloadArtifact × ImageDeclaration × String)) : Prop :=
  (∀ use ∈ uses, HeldAlike assigned use) ∧ ∀ a ∈ uses, ∀ b ∈ uses, Agree a b

section Pass
variable {assigned : List (NormalizedReference × PayloadArtifact × ImageDeclaration × String)}
  {use held : PayloadArtifact × ImageDeclaration × String} {uses : List (PayloadArtifact × ImageDeclaration × String)}
  {key : NormalizedReference}

theorem Consistent.tail (h : Consistent assigned (use :: uses)) : Consistent assigned uses :=
  ⟨fun b hb => h.1 b (.tail _ hb), fun a ha b hb => h.2 a (.tail _ ha) b (.tail _ hb)⟩

/-- A use that agrees with all the later ones is added to them. -/
theorem pairs_cons (hhead : ∀ b ∈ uses, Agree use b) (hpairs : ∀ a ∈ uses, ∀ b ∈ uses, Agree a b) :
    ∀ a ∈ use :: uses, ∀ b ∈ use :: uses, Agree a b :=
  List.forall_mem_cons.mpr ⟨List.forall_mem_cons.mpr ⟨fun _ _ _ => rfl, hhead⟩,
    fun a ha => List.forall_mem_cons.mpr ⟨(hhead a ha).symm, hpairs a ha⟩⟩

theorem consistent_cons_unparsed {error : ReferenceError} (hparse : parseTaggedReference use.2.2 = .error error) :
    Consistent assigned (use :: uses) ↔ Consistent assigned uses := by
  refine ⟨Consistent.tail, fun ⟨hheld, hpairs⟩ => ⟨List.forall_mem_cons.mpr ⟨fun key hkey => ?_, hheld⟩,
    pairs_cons (fun b _ => (agree_of_unparsed hparse).1) hpairs⟩⟩
  rw [hparse] at hkey
  cases hkey

/-- The first use of a reference holds it from then on. -/
theorem consistent_cons_first (hparse : parseTaggedReference use.2.2 = .ok key) (hfree : assigned.lookup key = none) :
    Consistent assigned (use :: uses) ↔ Consistent ((key, use) :: assigned) uses := by
  constructor
  · rintro ⟨hheld, hpairs⟩
    refine ⟨fun b hb key' hkey' held hfound => ?_, (Consistent.tail ⟨hheld, hpairs⟩).2⟩
    rw [List.lookup_cons] at hfound
    split at hfound
    · next heq =>
      obtain rfl : key' = key := eq_of_beq heq
      cases hfound
      exact hpairs _ (.head _) b (.tail _ hb) key' hparse hkey'
    · exact hheld b (.tail _ hb) key' hkey' held hfound
  · rintro ⟨hheld, hpairs⟩
    have hhead : ∀ b ∈ uses, Agree use b := by
      intro b hb key' hkey' hbkey
      obtain rfl : key = key' := Except.ok.inj (hparse.symm.trans hkey')
      exact hheld b hb key hbkey _ List.lookup_cons_self
    refine ⟨List.forall_mem_cons.mpr ⟨fun key' hkey' held hfound => ?_, fun b hb key' hkey' held hfound => ?_⟩,
      pairs_cons hhead hpairs⟩
    · obtain rfl : key = key' := Except.ok.inj (hparse.symm.trans hkey')
      rw [hfree] at hfound
      cases hfound
    · have hne : key' ≠ key := fun heq => by
        rw [heq, hfree] at hfound
        cases hfound
      refine hheld b hb key' hkey' held ?_
      rw [List.lookup_cons, beq_false_of_ne hne]
      exact hfound

/-- A later use agrees with all the uses that agree with the holder of its reference. -/
theorem consistent_cons_held (hparse : parseTaggedReference use.2.2 = .ok key) (hheld : assigned.lookup key = some held)
    (hsame : held.2.1.facets = use.2.1.facets) : Consistent assigned (use :: uses) ↔ Consistent assigned uses := by
  refine ⟨Consistent.tail, fun ⟨halike, hpairs⟩ => ⟨List.forall_mem_cons.mpr ⟨fun key' hkey' held' hfound => ?_, halike⟩,
    pairs_cons (fun b hb key' hkey' hbkey => ?_) hpairs⟩⟩
  · obtain rfl : key = key' := Except.ok.inj (hparse.symm.trans hkey')
    obtain rfl : held = held' := Option.some.inj (hheld.symm.trans hfound)
    exact hsame
  · obtain rfl : key = key' := Except.ok.inj (hparse.symm.trans hkey')
    exact hsame.symm.trans (halike b hb key hbkey held hheld)

theorem checkReferenceConflictsFrom_ok_iff : checkReferenceConflictsFrom assigned uses = .ok () ↔ Consistent assigned uses := by
  induction uses generalizing assigned with
  | nil =>
    rw [checkReferenceConflictsFrom]
    exact ⟨fun _ => ⟨fun _ h => absurd h List.not_mem_nil, fun _ h => absurd h List.not_mem_nil⟩, fun _ => rfl⟩
  | cons use uses ih =>
    obtain ⟨artifact, image, reference⟩ := use
    rw [checkReferenceConflictsFrom]
    rcases hparse : parseTaggedReference reference with error | key
    · exact ih.trans (consistent_cons_unparsed hparse).symm
    dsimp only
    rcases hheld : assigned.lookup key with _ | ⟨firstArtifact, firstImage, firstReference⟩
    · exact ih.trans (consistent_cons_first hparse hheld).symm
    dsimp only
    rcases hconflict : conflictBetween firstImage image with _ | conflict
    · exact ih.trans (consistent_cons_held hparse hheld (conflictBetween_eq_none.mp hconflict)).symm
    · refine ⟨fun h => (nomatch h), fun h => ?_⟩
      have hsame := conflictBetween_eq_none.mpr (h.1 _ (.head _) key hparse _ hheld)
      cases hconflict.symm.trans hsame

end Pass

theorem mem_declaredReferences : (artifact, image, reference) ∈ declaredReferences manifest ↔
    (artifact ∈ manifest.artifacts ∧ artifact.image = some image) ∧ reference ∈ image.publicRefs := by
  rw [← mem_declaredImages, declaredReferences, List.mem_flatMap]
  constructor
  · rintro ⟨⟨artifact', image'⟩, himage, hreference⟩
    obtain ⟨reference', hmem, heq⟩ := List.mem_map.mp hreference
    cases heq
    exact ⟨himage, hmem⟩
  · rintro ⟨himage, hmem⟩
    exact ⟨_, himage, List.mem_map_of_mem hmem⟩

theorem ImageDeclaration.Reordered.facets (h : image.Reordered image') : image'.facets = image.facets := by
  rw [h.2]
  rfl

/-- Each use in a rearranged manifest is one of the manifest's. -/
theorem exists_use_of_reordered (h : manifest.Reordered manifest') {use : PayloadArtifact × ImageDeclaration × String}
    (huse : use ∈ declaredReferences manifest') :
    ∃ use₀ ∈ declaredReferences manifest, use₀.2.2 = use.2.2 ∧ use₀.2.1.facets = use.2.1.facets := by
  obtain ⟨artifact', image', reference⟩ := use
  obtain ⟨⟨hartifact, himage⟩, hreference⟩ := mem_declaredReferences.mp huse
  obtain ⟨artifacts, hperm, hartifacts⟩ := h
  obtain ⟨artifact, hmem, hreordered, -⟩ := Checks.exists_rel_of_mem hartifacts hartifact
  rw [himage] at hreordered
  rcases hsome : artifact.image with _ | image
  · rw [hsome] at hreordered
    cases hreordered
  · rw [hsome] at hreordered
    obtain ⟨hrefs⟩ := hreordered
    exact ⟨(artifact, image, reference), mem_declaredReferences.mpr ⟨⟨hperm.mem_iff.mpr hmem, hsome⟩,
      hrefs.1.mem_iff.mpr hreference⟩, rfl, hrefs.facets.symm⟩

theorem exists_use_reordered (h : manifest.Reordered manifest') {use : PayloadArtifact × ImageDeclaration × String}
    (huse : use ∈ declaredReferences manifest) :
    ∃ use' ∈ declaredReferences manifest', use'.2.2 = use.2.2 ∧ use'.2.1.facets = use.2.1.facets := by
  obtain ⟨artifact, image, reference⟩ := use
  obtain ⟨⟨hartifact, himage⟩, hreference⟩ := mem_declaredReferences.mp huse
  obtain ⟨artifacts, hperm, hartifacts⟩ := h
  obtain ⟨artifact', hmem, hreordered, -⟩ := Checks.exists_rel_of_mem hartifacts.flip (hperm.mem_iff.mp hartifact)
  rw [himage] at hreordered
  rcases hsome : artifact'.image with _ | image'
  · rw [hsome] at hreordered
    cases hreordered
  · rw [hsome] at hreordered
    obtain ⟨hrefs⟩ := hreordered
    exact ⟨(artifact', image', reference), mem_declaredReferences.mpr ⟨⟨hmem, hsome⟩, hrefs.1.mem_iff.mp hreference⟩,
      rfl, hrefs.facets⟩

/-- The pass succeeds when every two uses of one reference agree on the image, in whatever order they stand. -/
theorem checkReferenceConflicts_iff (manifest : PayloadManifest) :
    (checkReferenceConflicts manifest = .ok () ↔
      ∀ a ∈ declaredReferences manifest, ∀ b ∈ declaredReferences manifest, Agree a b) ∧
    ∀ manifest', manifest.Reordered manifest' →
      (checkReferenceConflicts manifest' = .ok () ↔ checkReferenceConflicts manifest = .ok ()) := by
  have hiff (manifest : PayloadManifest) : checkReferenceConflicts manifest = .ok () ↔
      ∀ a ∈ declaredReferences manifest, ∀ b ∈ declaredReferences manifest, Agree a b := by
    rw [checkReferenceConflicts, checkReferenceConflictsFrom_ok_iff]
    exact and_iff_right fun _ _ _ _ _ h => (nomatch h)
  refine ⟨hiff manifest, fun manifest' h => ?_⟩
  rw [hiff, hiff]
  constructor
  · intro hagree a ha b hb key hkey hkey'
    obtain ⟨a', ha', harefs, hafacets⟩ := exists_use_reordered h ha
    obtain ⟨b', hb', hbrefs, hbfacets⟩ := exists_use_reordered h hb
    rw [← hafacets, ← hbfacets]
    exact hagree a' ha' b' hb' key (harefs ▸ hkey) (hbrefs ▸ hkey')
  · intro hagree a ha b hb key hkey hkey'
    obtain ⟨a', ha', harefs, hafacets⟩ := exists_use_of_reordered h ha
    obtain ⟨b', hb', hbrefs, hbfacets⟩ := exists_use_of_reordered h hb
    rw [← hafacets, ← hbfacets]
    exact hagree a' ha' b' hb' key (harefs ▸ hkey) (hbrefs ▸ hkey')

end Conflicts

/-! ### Reserved aliases -/

/-- A reference, in any spelling, to a repository of the reserved registry, whatever its port. -/
def Reserved (reference : String) : Prop :=
  ∃ host port domain path tag, Tagged reference.toList domain path tag ∧ (domain = host ∨ domain = host ++ ':' :: port) ∧
    host.map toAsciiLower = RUNTIME_ALIAS_REGISTRY.toList

/-- What a runtime alias is made from. -/
def ImageDeclaration.identity (image : ImageDeclaration) : String × String × String × String :=
  (image.owner.namespaceName, image.owner.component, image.dependency, image.configDigest)

section Aliases
variable {image image' : ImageDeclaration} {manifest : PayloadManifest} {artifact artifact' : PayloadArtifact}
  {reference runtimeAlias hex : String} {n : NormalizedReference} {request : VerifyRequest}

/-- The parser's host is the domain up to its port, for a host without colons that is not in brackets. -/
theorem host_eq {host port : List Char} (hdomain : n.domain.toList = host ∨ n.domain.toList = host ++ ':' :: port)
    (hhost : host.map toAsciiLower = RUNTIME_ALIAS_REGISTRY.toList) : n.host = host := by
  have hcolon : ':' ∉ host := by
    intro hmem
    have hlower : ':' ∈ host.map toAsciiLower := List.mem_map.mpr ⟨_, hmem, by decide⟩
    rw [hhost] at hlower
    exact absurd hlower (by decide)
  have hbracket : ∀ rest, host ++ rest ≠ [] ∧ (host ++ rest).head? ≠ some '[' := by
    intro rest
    rcases host with _ | ⟨c, host⟩
    · exact absurd hhost (by decide)
    · refine ⟨List.cons_ne_nil _ _, fun h => ?_⟩
      obtain rfl := Option.some.inj h
      exact absurd (List.cons.inj hhost).1 (by decide)
  unfold NormalizedReference.host
  rcases hdomain with hdomain | hdomain
  · rw [hdomain]
    dsimp only
    rw [if_neg (by simpa using (hbracket []).2), splitOnce_eq_none.mpr hcolon]
  · rw [hdomain]
    dsimp only
    rw [if_neg (hbracket _).2, splitOnce_eq_some.mpr ⟨rfl, hcolon⟩]

theorem Reserved.parsed (h : Reserved reference) :
    ∃ n, parseTaggedReference reference = .ok n ∧ n.host.map toAsciiLower = RUNTIME_ALIAS_REGISTRY.toList := by
  obtain ⟨host, port, domain, path, tag, htagged, hdomain, hhost⟩ := h
  refine ⟨⟨.ofList domain, .ofList path, .ofList tag⟩, parseTaggedReference_ok_iff.mpr ?_, ?_⟩
  · simpa only [String.toList_ofList] using htagged
  · rw [host_eq (by simpa only [String.toList_ofList] using hdomain) hhost]
    exact hhost

theorem checkReservedAliases_ok (h : checkReservedAliases manifest = .ok ())
    (hmem : (artifact, image, reference) ∈ declaredReferences manifest) (hreserved : Reserved reference) :
    image.canonicalRuntimeAlias = .ok reference ∧ image.referenceLifecycle = .managedRuntime := by
  obtain ⟨n, hparse, hhost⟩ := hreserved.parsed
  have hcheck := Checks.each_ok_iff.mp h _ hmem
  dsimp only at hcheck
  rw [hparse] at hcheck
  dsimp only at hcheck
  rw [if_neg (not_not.mpr hhost)] at hcheck
  split_ifs at hcheck with halias hlifecycle
  rw [not_not] at halias hlifecycle
  refine ⟨?_, hlifecycle⟩
  rcases hexpected : image.canonicalRuntimeAlias with error | expected
  · rw [hexpected] at halias
    cases halias
  · rw [hexpected] at halias
    rw [Option.some.inj halias]

/-- A part of an alias between two of its separators. -/
def Part (value : String) : Prop :=
  ':' ∉ value.toList ∧ '/' ∉ value.toList

theorem validateSegment_ok {field : SegmentField} {value : String} (h : validateSegment field value = .ok ()) :
    Part value := by
  unfold validateSegment at h
  split at h
  next hvalid =>
    obtain ⟨c, rest, heq, hc, hrest⟩ := headTail_iff.mp hvalid
    rw [Part, heq]
    constructor
    all_goals
      intro hmem
      rcases List.mem_cons.mp hmem with rfl | hmem
      · exact absurd hc (by decide)
      · exact absurd (hrest _ hmem) (by decide)
  · cases h

theorem eq_append_of_stripPrefix {before cs after : List Char} (h : stripPrefix before cs = some after) :
    cs = before ++ after := by
  unfold stripPrefix at h
  split at h
  next hpre =>
    cases h
    exact (List.prefix_iff_eq_append.mp (List.isPrefixOf_iff_prefix.mp hpre)).symm
  · cases h

theorem validateDigest_ok {field : DigestField} {value : String} (h : validateDigest field value = .ok hex) :
    value = SHA256_DIGEST_PREFIX ++ hex ∧ Part hex := by
  unfold validateDigest at h
  rcases hstrip : stripPrefix SHA256_DIGEST_PREFIX.toList value.toList with _ | digits
  · rw [hstrip] at h
    cases h
  · rw [hstrip] at h
    dsimp only at h
    split at h
    next hvalid =>
      cases h
      have hhex : ∀ c ∈ digits, isLowerHexDigit c = true := by
        have hall := List.all_eq_true.mp hvalid.2
        rwa [String.toList_ofList] at hall
      refine ⟨String.toList_inj.mp ?_, ?_⟩
      · rw [String.toList_append, String.toList_ofList]
        exact eq_append_of_stripPrefix hstrip
      rw [Part, String.toList_ofList]
      constructor
      all_goals exact fun hmem => absurd (hhex _ hmem) (by decide)
    · cases h

/-- The path of an alias, and its tag. -/
def ImageDeclaration.aliasPath (image : ImageDeclaration) : List Char :=
  image.owner.namespaceName.toList ++ '/' :: (image.owner.component.toList ++ '/' :: image.dependency.toList)

def aliasTag (hex : String) : List Char :=
  RUNTIME_ALIAS_TAG_PREFIX.toList ++ hex.toList

/-- What an alias is made of. -/
theorem canonicalRuntimeAlias_ok (h : image.canonicalRuntimeAlias = .ok runtimeAlias) :
    (Part image.owner.namespaceName ∧ Part image.owner.component ∧ Part image.dependency) ∧
    ∃ hex, image.configDigest = SHA256_DIGEST_PREFIX ++ hex ∧ Part hex ∧
      runtimeAlias.toList = (RUNTIME_ALIAS_REGISTRY.toList ++ '/' :: image.aliasPath) ++ ':' :: aliasTag hex ∧
      ∃ n, parseTaggedReference runtimeAlias = .ok n := by
  obtain ⟨⟨⟩, hnamespace, h⟩ := Checks.bind_ok h
  obtain ⟨⟨⟩, hcomponent, h⟩ := Checks.bind_ok h
  obtain ⟨⟨⟩, hdependency, h⟩ := Checks.bind_ok h
  obtain ⟨hex, hdigest, h⟩ := Checks.bind_ok h
  obtain ⟨hconfig, hhex⟩ := validateDigest_ok hdigest
  refine ⟨⟨validateSegment_ok hnamespace, validateSegment_ok hcomponent, validateSegment_ok hdependency⟩, hex, hconfig,
    hhex, ?_⟩
  dsimp only at h
  split at h
  next n hparse =>
    cases h
    refine ⟨?_, n, hparse⟩
    simp [String.toList_append, ImageDeclaration.aliasPath, aliasTag]
  · cases h

/-- An alias is its own normal form. -/
theorem parse_canonicalRuntimeAlias (h : image.canonicalRuntimeAlias = .ok runtimeAlias) :
    ∃ n, parseTaggedReference runtimeAlias = .ok n ∧ n.render = runtimeAlias ∧ n.domain = RUNTIME_ALIAS_REGISTRY := by
  obtain ⟨-, hex, -, ⟨hcolon, -⟩, halias, n, hparse⟩ := canonicalRuntimeAlias_ok h
  obtain ⟨name, hname, hstands, -, htag⟩ := parseTaggedReference_ok_iff.mp hparse
  have htag' : ':' ∉ aliasTag hex := fun hmem => (List.mem_append.mp hmem).elim (fun h => absurd h (by decide)) hcolon
  have hcut := (rsplitOnce_eq_some.mpr ⟨hname, htag.not_mem.1⟩).symm.trans (rsplitOnce_eq_some.mpr ⟨halias, htag'⟩)
  obtain ⟨rfl, htagEq⟩ := Prod.mk.inj (Option.some.inj hcut)
  have hregistry : splitDockerDomain (RUNTIME_ALIAS_REGISTRY.toList ++ '/' :: image.aliasPath) =
      (RUNTIME_ALIAS_REGISTRY.toList, image.aliasPath) :=
    splitDockerDomain_registry (by decide) (.inr (.inl (by decide))) (by decide)
  obtain ⟨hdomain, hpath⟩ := Prod.mk.inj ((standsFor_iff.mp hstands).symm.trans hregistry)
  refine ⟨n, hparse, String.toList_inj.mp ?_, String.toList_inj.mp hdomain⟩
  rw [toList_render, halias, hdomain, hpath, htagEq]

/-- Both sides of the first separator are determined by the whole. -/
theorem cut_inj {sep : Char} {before before' after after' : List Char} (h : before ++ sep :: after = before' ++ sep :: after')
    (hnot : sep ∉ before) (hnot' : sep ∉ before') : before = before' ∧ after = after' :=
  Prod.mk.inj (Option.some.inj ((splitOnce_eq_some.mpr ⟨rfl, hnot⟩).symm.trans (splitOnce_eq_some.mpr ⟨h, hnot'⟩)))

theorem colon_not_mem_alias (hnamespace : Part image.owner.namespaceName) (hcomponent : Part image.owner.component)
    (hdependency : Part image.dependency) : ':' ∉ RUNTIME_ALIAS_REGISTRY.toList ++ '/' :: image.aliasPath := by
  intro hmem
  simp only [ImageDeclaration.aliasPath, List.mem_append, List.mem_cons] at hmem
  rcases hmem with hmem | hmem | hmem | hmem | hmem | hmem | hmem
  · exact absurd hmem (by decide)
  · exact absurd hmem (by decide)
  · exact hnamespace.1 hmem
  · exact absurd hmem (by decide)
  · exact hcomponent.1 hmem
  · exact absurd hmem (by decide)
  · exact hdependency.1 hmem

/-- The aliases of two declarations differ where their identities do: no part holds a separator. -/
theorem canonicalRuntimeAlias_inj (h : image.canonicalRuntimeAlias = .ok runtimeAlias)
    (h' : image'.canonicalRuntimeAlias = .ok runtimeAlias) : image.identity = image'.identity := by
  obtain ⟨⟨hn, hc, hd⟩, hex, hconfig, -, halias, -⟩ := canonicalRuntimeAlias_ok h
  obtain ⟨⟨hn', hc', hd'⟩, hex', hconfig', -, halias', -⟩ := canonicalRuntimeAlias_ok h'
  obtain ⟨hname, htag⟩ := cut_inj (halias.symm.trans halias') (colon_not_mem_alias hn hc hd) (colon_not_mem_alias hn' hc' hd')
  obtain ⟨hnamespace, hrest⟩ := cut_inj (List.cons.inj (List.append_cancel_left hname)).2 hn.2 hn'.2
  obtain ⟨hcomponent, hdependency⟩ := cut_inj hrest hc.2 hc'.2
  have hhex : hex = hex' := String.toList_inj.mp (List.append_cancel_left htag)
  simp only [ImageDeclaration.identity, Prod.mk.injEq]
  exact ⟨String.toList_inj.mp hnamespace, String.toList_inj.mp hcomponent, String.toList_inj.mp hdependency,
    by rw [hconfig, hconfig', hhex]⟩

/-- References that parse alike are one reference where the registry is reserved. -/
theorem reserved_unique (h : checkReservedAliases manifest = .ok ()) {reference' : String}
    (hmem : (artifact, image, reference) ∈ declaredReferences manifest)
    (hmem' : (artifact', image', reference') ∈ declaredReferences manifest)
    (hreserved : Reserved reference) (hreserved' : Reserved reference')
    (hparse : parseTaggedReference reference = parseTaggedReference reference') :
    reference = reference' ∧ image.identity = image'.identity := by
  obtain ⟨halias, -⟩ := checkReservedAliases_ok h hmem hreserved
  obtain ⟨halias', -⟩ := checkReservedAliases_ok h hmem' hreserved'
  obtain ⟨n, hn, hrender, -⟩ := parse_canonicalRuntimeAlias halias
  obtain ⟨n', hn', hrender', -⟩ := parse_canonicalRuntimeAlias halias'
  rw [hn, hn'] at hparse
  obtain rfl := Except.ok.inj hparse
  obtain rfl := hrender.symm.trans hrender'
  exact ⟨rfl, canonicalRuntimeAlias_inj halias halias'⟩

/-- In an accepted manifest every reference into the reserved registry, however it is spelled, is the alias of its
own declaration, under a managed lifecycle. Declarations with one such reference have one identity, aliases tell
identities apart, and an alias parses to itself. -/
theorem checkImages_reserved (h : checkImages manifest request = .ok ()) :
    (∀ artifact image reference, (artifact, image, reference) ∈ declaredReferences manifest → Reserved reference →
      image.canonicalRuntimeAlias = .ok reference ∧ image.referenceLifecycle = .managedRuntime) ∧
    (∀ artifact image reference artifact' image' reference', (artifact, image, reference) ∈ declaredReferences manifest →
      (artifact', image', reference') ∈ declaredReferences manifest → Reserved reference → Reserved reference' →
      parseTaggedReference reference = parseTaggedReference reference' →
        reference = reference' ∧ image.identity = image'.identity) ∧
    (∀ image image' : ImageDeclaration, ∀ runtimeAlias, image.canonicalRuntimeAlias = .ok runtimeAlias →
      image'.canonicalRuntimeAlias = .ok runtimeAlias → image.identity = image'.identity) ∧
    ∀ (image : ImageDeclaration) runtimeAlias, image.canonicalRuntimeAlias = .ok runtimeAlias →
      ∃ n, parseTaggedReference runtimeAlias = .ok n ∧ n.render = runtimeAlias ∧ n.domain = RUNTIME_ALIAS_REGISTRY := by
  obtain ⟨⟨⟩, -, h⟩ := Checks.bind_ok h
  obtain ⟨⟨⟩, hreserved, -⟩ := Checks.bind_ok h
  exact ⟨fun _ _ _ => checkReservedAliases_ok hreserved, fun _ _ _ _ _ _ => reserved_unique hreserved,
    fun _ _ _ => canonicalRuntimeAlias_inj, fun _ _ => parse_canonicalRuntimeAlias⟩

end Aliases

def databaseAlias : String :=
  "runtime.invalid/acme/app/db:cfg-" ++ .ofList (List.replicate 64 'a')

/-- A database under the name it is published by and the name its application runs it by. -/
def databaseImage : ImageDeclaration :=
  { schema := IMAGE_DECLARATION_SCHEMA
    owner := ⟨"acme", "app"⟩
    dependency := "db"
    publicRefs := ["postgres:16", databaseAlias]
    platform := ⟨.linux, .amd64, none⟩
    configDigest := "sha256:" ++ .ofList (List.replicate 64 'a')
    referenceLifecycle := .managedRuntime
    provenance := .productBuild ⟨"https://git.example/app", .ofList (List.replicate 40 '0')⟩ }

def databaseArtifact : PayloadArtifact :=
  ⟨"app", "1.0.0", none, .x86_64, .containerImage, {.install}, "db.tar", "", none, some databaseImage⟩

def databaseManifest : PayloadManifest :=
  ⟨some 9, none, true, none, some [⟨"db.tar", 1⟩], [databaseArtifact]⟩

theorem checkImages_reserved_database : databaseImage.canonicalRuntimeAlias = .ok databaseAlias := by
  have hmem : (databaseArtifact, databaseImage, databaseAlias) ∈ declaredReferences databaseManifest :=
    mem_declaredReferences.mpr ⟨⟨List.mem_cons_self, rfl⟩, .tail _ List.mem_cons_self⟩
  have hparse : parseTaggedReference databaseAlias =
      .ok ⟨"runtime.invalid", "acme/app/db", "cfg-" ++ .ofList (List.replicate 64 'a')⟩ := by decide +kernel
  have haccepted : checkImages databaseManifest ⟨"app", "1.0.0", "", none, some "acme", by decide, by decide⟩ = .ok () := by
    decide +kernel
  exact ((checkImages_reserved haccepted).1 _ _ _ hmem
    ⟨_, [], _, _, _, parseTaggedReference_ok_iff.mp hparse, .inl rfl, by decide⟩).1

end DeployCore
