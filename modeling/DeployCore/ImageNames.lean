import DeployCore.TarTiling

/-! # The names of an image archive

The names that an image archive's walk has admitted are distinct plain paths, none below a regular file, and an entry
is refused for its name exactly when admitting it would break that. -/

namespace DeployCore
open Fallible CountingReader LittleEndian TarWalker

/-- A relative path of plain segments. -/
def PlainPath (name : Bytes) : Prop :=
  name.head? ≠ some SLASH ∧
    ∀ segment ∈ name.splitOn SLASH, segment ≠ [] ∧ segment ≠ [DOT] ∧ segment ≠ [DOT, DOT]

def ProperAncestor (a b : Bytes) : Prop :=
  ∃ rest, b = a ++ SLASH :: rest

/-- Distinct plain paths, and no regular file above another of them. -/
structure Separate (names : List (Bytes × EntryKind)) : Prop where
  plain : ∀ entry ∈ names, PlainPath entry.1
  distinct : (names.map Prod.fst).Nodup
  apart : ∀ a ∈ names, ∀ b ∈ names, a.2 = .regular → ¬ProperAncestor a.1 b.1

/-- The faults of an entry whose name is taken, above a file's or below one. -/
def Collision (fault : ContentFault) : Prop :=
  fault = .malformed .duplicatePath ∨ fault = .malformed .pathConflict

section Names
variable {a b name : Bytes}

theorem properAncestor_iff_append : ProperAncestor a b ↔ a ++ [SLASH] <+: b := by
  constructor
  · rintro ⟨rest, rfl⟩
    exact ⟨rest, by simp⟩
  · rintro ⟨rest, rfl⟩
    exact ⟨rest, by simp⟩

theorem properAncestor_iff_take : ProperAncestor a b ↔ ∃ offset, b[offset]? = some SLASH ∧ a = b.take offset := by
  constructor
  · rintro ⟨rest, rfl⟩
    exact ⟨a.length, by simp, by simp⟩
  · rintro ⟨offset, hslash, rfl⟩
    obtain ⟨hlt, heq⟩ := List.getElem?_eq_some_iff.mp hslash
    refine ⟨b.drop (offset + 1), ?_⟩
    rw [← heq, ← List.drop_eq_getElem_cons hlt, List.take_append_drop]

theorem not_properAncestor_self : ¬ProperAncestor a a := by
  rintro ⟨rest, h⟩
  have := congrArg List.length h
  simp at this

theorem mem_slashOffsets {offset : Nat} : offset ∈ slashOffsets name ↔ name[offset]? = some SLASH := by
  unfold slashOffsets
  rw [List.mem_filterMap]
  constructor
  · rintro ⟨⟨byte, index⟩, hmem, hsome⟩
    have hbyte := List.mem_zipIdx_iff_getElem?.mp hmem
    dsimp only at hsome hbyte
    split at hsome
    next heq =>
      cases hsome
      rw [hbyte, heq]
    · cases hsome
  · intro h
    exact ⟨(SLASH, offset), List.mem_zipIdx_iff_getElem?.mpr h, if_pos rfl⟩

theorem plainPath_of_segments (h : segmentsArePlain name) : PlainPath name := by
  have hall : ∀ segment ∈ name.splitOn SLASH, segment ≠ [] ∧ segment ≠ [DOT] ∧ segment ≠ [DOT, DOT] := by
    intro segment hmem
    have := List.all_eq_true.mp h segment hmem
    simpa [and_assoc] using this
  refine ⟨fun hslash => ?_, hall⟩
  obtain ⟨rest, rfl⟩ : ∃ rest, name = SLASH :: rest := by
    rcases name with _ | ⟨byte, rest⟩
    · cases hslash
    · exact ⟨rest, by rw [Option.some.inj hslash]⟩
  refine (hall [] ?_).1 rfl
  rw [List.splitOn_eq_splitOnP, List.splitOnP_cons_eq_if_modifyHead, if_pos (beq_self_eq_true SLASH)]
  exact List.mem_cons_self

theorem plainPath_of_canonical {directory : Bool} {canonical : Bytes} (h : imageCanonical name directory = some canonical) :
    PlainPath canonical := by
  unfold imageCanonical at h
  split at h
  · cases h
  split at h
  · cases h
  split at h
  · cases h
  next hplain =>
  cases h
  rw [Bool.or_eq_true, not_or, Bool.not_eq_true', Bool.not_eq_false] at hplain
  exact plainPath_of_segments hplain.2

end Names

theorem nodup_keys {β : Type} (m : SortedMap Bytes β) : (m.entries.map Prod.fst).Nodup := by
  rw [List.Nodup, List.pairwise_map]
  exact m.sorted.imp fun h => h.ne

namespace ImageRules
variable {rules rules' : ImageRules} {canonical : Bytes} {kind : EntryKind} {header : HeaderFields} {fault : ContentFault}

theorem below_iff : ((slashOffsets canonical).any fun offset => rules.seen.get (canonical.take offset) = some .regular) ↔
    ∃ a ∈ rules.seen.entries, a.2 = .regular ∧ ProperAncestor a.1 canonical := by
  rw [List.any_eq_true]
  constructor
  · rintro ⟨offset, hoffset, hget⟩
    refine ⟨_, SortedMap.get_eq_some.mp (of_decide_eq_true hget), rfl, ?_⟩
    exact properAncestor_iff_take.mpr ⟨offset, mem_slashOffsets.mp hoffset, rfl⟩
  · rintro ⟨⟨a, _⟩, hmem, rfl, hancestor⟩
    obtain ⟨offset, hslash, rfl⟩ := properAncestor_iff_take.mp hancestor
    exact ⟨offset, mem_slashOffsets.mpr hslash, decide_eq_true (SortedMap.get_eq_some.mpr hmem)⟩

theorem above_iff : ((rules.seen.firstFrom (canonical ++ [SLASH])).any fun entry =>
    (canonical ++ [SLASH]).isPrefixOf entry.1) ↔ ∃ b ∈ rules.seen.entries, ProperAncestor canonical b.1 := by
  simp only [properAncestor_iff_append, SortedMap.exists_prefix_iff, Option.any_eq_true, List.isPrefixOf_iff_prefix]

/-- A name is refused exactly when it would break what holds of the names admitted so far. -/
theorem record_cases (kind : EntryKind) (h : Separate rules.seen.entries) (hplain : PlainPath canonical) :
    (rules.record canonical kind = .ok { rules with seen := rules.seen.insert canonical kind } ∧
        Separate ((canonical, kind) :: rules.seen.entries)) ∨
      ∃ fault, rules.record canonical kind = .error fault ∧ Collision fault ∧
        ¬Separate ((canonical, kind) :: rules.seen.entries) := by
  unfold record
  rcases hget : rules.seen.get canonical with _ | existing
  · have hfresh := SortedMap.get_eq_none.mp hget
    dsimp only
    split_ifs with hbelow habove
    · obtain ⟨a, hmem, hregular, hancestor⟩ := below_iff.mp hbelow
      refine .inr ⟨_, rfl, .inr rfl, fun hsep => ?_⟩
      exact hsep.apart a (List.mem_cons_of_mem _ hmem) _ List.mem_cons_self hregular hancestor
    · obtain ⟨b, hmem, hancestor⟩ := above_iff.mp habove.2
      refine .inr ⟨_, rfl, .inr rfl, fun hsep => ?_⟩
      exact hsep.apart _ List.mem_cons_self b (List.mem_cons_of_mem _ hmem) habove.1 hancestor
    · refine .inl ⟨rfl, List.forall_mem_cons.mpr ⟨hplain, h.plain⟩, ?_, ?_⟩
      · refine List.nodup_cons.mpr ⟨fun hmem => ?_, h.distinct⟩
        obtain ⟨entry, hentry, hkey⟩ := List.mem_map.mp hmem
        exact hfresh entry hentry hkey
      · refine List.forall_mem_cons.mpr ⟨List.forall_mem_cons.mpr ⟨fun _ => not_properAncestor_self, ?_⟩, ?_⟩
        · exact fun b hmem hregular hancestor => habove ⟨hregular, above_iff.mpr ⟨b, hmem, hancestor⟩⟩
        · refine fun a hmem => List.forall_mem_cons.mpr ⟨fun hregular hancestor => ?_, h.apart a hmem⟩
          exact hbelow (below_iff.mpr ⟨a, hmem, hregular, hancestor⟩)
  · have hmem := SortedMap.get_eq_some.mp hget
    refine .inr ⟨_, rfl, ?_, fun hsep => ?_⟩
    · by_cases hkind : existing = kind
      · exact .inl (by rw [if_pos hkind])
      · exact .inr (by rw [if_neg hkind])
    · exact (List.nodup_cons.mp hsep.distinct).1 (List.mem_map.mpr ⟨_, hmem, rfl⟩)

theorem separate_insert (hfresh : Separate ((canonical, kind) :: rules.seen.entries)) :
    Separate (rules.seen.insert canonical kind).entries := by
  have hsub : ∀ entry ∈ (rules.seen.insert canonical kind).entries, entry ∈ (canonical, kind) :: rules.seen.entries := by
    intro entry hmem
    rcases SortedMap.mem_insert.mp hmem with rfl | ⟨hmem, -⟩
    · exact List.mem_cons_self
    · exact List.mem_cons_of_mem _ hmem
  exact ⟨fun entry hmem => hfresh.plain entry (hsub entry hmem), nodup_keys _,
    fun a ha b hb => hfresh.apart a (hsub a ha) b (hsub b hb)⟩

/-- What the other rules ask of an entry: a name of bounded length that is a canonical one, and no data of a
directory's. -/
structure Acceptable (rules : ImageRules) (kind : EntryKind) (header : HeaderFields) (canonical : Bytes) : Prop where
  length : header.name.length ≤ rules.path.max
  canonical : imageCanonical header.name (kind = .directory) = some canonical
  data : ¬(kind = .directory ∧ header.size ≠ 0)

theorem admitHeader_collision_iff (rules : ImageRules) (h : Separate rules.seen.entries) :
    (∃ fault, rules.admitHeader kind header = .error fault ∧ Collision fault) ↔
      ∃ canonical, Acceptable rules kind header canonical ∧ ¬Separate ((canonical, kind) :: rules.seen.entries) := by
  constructor
  · rintro ⟨fault, hadmitted, hcollision⟩
    unfold admitHeader at hadmitted
    split at hadmitted
    · cases hadmitted
      rcases hcollision with h | h <;> cases h
    next hlength =>
    split at hadmitted
    · cases hadmitted
      rcases hcollision with h | h <;> cases h
    next canonical hcanonical =>
    split at hadmitted
    · cases hadmitted
      rcases hcollision with h | h <;> cases h
    next hdata =>
    refine ⟨canonical, ⟨Nat.not_lt.mp hlength, hcanonical, hdata⟩, ?_⟩
    rcases record_cases kind h (plainPath_of_canonical hcanonical) with ⟨hrecord, -⟩ | ⟨_, -, -, hnot⟩
    · rw [hrecord] at hadmitted
      cases hadmitted
    · exact hnot
  · rintro ⟨canonical, hacceptable, hnot⟩
    rcases record_cases kind h (plainPath_of_canonical hacceptable.canonical) with ⟨-, hsep⟩ |
      ⟨fault, hrecord, hcollision, -⟩
    · exact absurd hsep hnot
    · refine ⟨fault, ?_, hcollision⟩
      unfold admitHeader
      rw [if_neg (Nat.not_lt.mpr hacceptable.length), hacceptable.canonical]
      dsimp only
      rw [if_neg hacceptable.data, hrecord]
      rfl

end ImageRules

/-! ### Over a walk -/

namespace TarWalker
variable {w w₁ w₂ : TarWalker} {kind : EntryKind} {header : HeaderFields} {entry : TarEntry} {fault : ContentFault}
  {records : List Record} {r : ImageRules}

/-- The canonical names admitted so far, under the image policy. -/
def admittedNames (w : TarWalker) : List (Bytes × EntryKind) :=
  match w.rules with
  | .image rules => rules.seen.entries
  | .layer _ => []

/-- The next header is an entry's, and reads so: what `advance` does up to the policy's verdict. -/
def Presents (w : TarWalker) (kind : EntryKind) (header : HeaderFields) : Prop :=
  ∃ w₁ block w₂ dataOffset w₃, skipUnread w = .ok () w₁ ∧
    onSource (fun source => source.readFull BLOCK) w₁ = .ok block w₂ ∧ isZero block = false ∧
    readHeader block w₁.source.position w₂ = .ok (.entry kind, header, dataOffset) w₃

/-- The canonical name under which the policy would admitHeader this entry, names aside. -/
def Admissible (w : TarWalker) (kind : EntryKind) (header : HeaderFields) (canonical : Bytes) : Prop :=
  ∃ rules, w.rules = .image rules ∧ rules.Acceptable kind header canonical

/-- An image walker that has not come to an end, whose names are separate. -/
structure Named (w : TarWalker) (r : ImageRules) : Prop where
  live : Steady w ∨ Doomed w
  rules : w.rules = .image r
  separate : Separate r.seen.entries

theorem Passes.image (h : Passes w records w₁) (hrules : w.rules = .image r) : records = [] ∧ w₁ = w := by
  rcases h with _ | ⟨hsteady, h, _⟩
  · exact ⟨rfl, rfl⟩
  · obtain ⟨layer, _, hlayer, -⟩ := h.rules_eq
    cases hrules.symm.trans hlayer

theorem countHeader_image {counted : Rules} (h : Rules.countHeader (.image r) = .ok () counted) :
    counted = .image { r with entries := r.entries.after 1 } := by
  rcases countHeader_ok h with ⟨_, heq, -, rfl⟩ | ⟨_, heq, -⟩
  · cases heq
    rfl
  · cases heq

theorem record_separate {r' : ImageRules} {canonical : Bytes} (h : Separate r.seen.entries)
    (hplain : PlainPath canonical) (hrecord : r.record canonical kind = .ok r') :
    Separate r'.seen.entries ∧ (canonical, kind) ∈ r'.seen.entries ∧ ∀ e ∈ r.seen.entries, e ∈ r'.seen.entries := by
  rcases ImageRules.record_cases kind h hplain with ⟨hok, hsep⟩ | ⟨fault, herror, -⟩
  · cases hok.symm.trans hrecord
    refine ⟨ImageRules.separate_insert hsep, SortedMap.mem_insert.mpr (.inl rfl), fun e hmem => ?_⟩
    refine SortedMap.mem_insert.mpr (.inr ⟨hmem, fun hkey => ?_⟩)
    exact (List.nodup_cons.mp hsep.distinct).1 (List.mem_map.mpr ⟨e, hmem, hkey⟩)
  · cases herror.symm.trans hrecord

/-- An entry's canonical name, in the form names are compared in. -/
def CanonicalName (entry : TarEntry) (canonical : Bytes) : Prop :=
  imageCanonical entry.name (entry.kind = .directory) = some canonical

theorem Entered.named (h : Entered w kind header entry w₁) (hrules : w.rules = .image r)
    (hsep : Separate r.seen.entries) :
    ∃ r₁ canonical, w₁.rules = .image r₁ ∧ Separate r₁.seen.entries ∧ CanonicalName entry canonical ∧
      (canonical, entry.kind) ∈ r₁.seen.entries ∧ ∀ e ∈ r.seen.entries, e ∈ r₁.seen.entries := by
  obtain ⟨hread, hadmitted, _, _⟩ := h
  have hcounted := hread.counted
  rw [hrules] at hcounted
  obtain rfl := countHeader_image hcounted
  rcases admitHeader_ok hadmitted with ⟨_, r₁, heq, himage, rfl⟩ | ⟨_, heq, -⟩
  · cases heq
    obtain ⟨canonical, hcanonical, hrecord, rfl⟩ := ImageRules.admitHeader_ok himage
    obtain ⟨hsep₁, hmem, hsub⟩ := record_separate (r := { r with entries := r.entries.after 1 }) hsep (plainPath_of_canonical hcanonical) hrecord
    exact ⟨r₁, canonical, rfl, hsep₁, hcanonical, hmem, hsub⟩
  · cases heq

/-- Where a round stops, the names are still separate, and it stops at a collision only for an entry's name. -/
theorem Stops.named {rules : Rules} (h : Stops w fault rules) (hrules : w.rules = .image r)
    (hsep : Separate r.seen.entries) :
    (∃ r₁, rules = .image r₁ ∧ Separate r₁.seen.entries ∧ ∀ e ∈ r.seen.entries, e ∈ r₁.seen.entries) ∧
      (Collision fault → ∃ kind header, HeaderRead w (.entry kind) header (.image { r with entries := r.entries.after 1 }) ∧
        ImageRules.admitHeader { r with entries := r.entries.after 1 } kind header = .error fault) := by
  have hplaceless {fault : ContentFault} (h : fault.Placeless) : ¬Collision fault := by
    rintro (heq | heq)
    · exact h.1 heq
    · exact h.2 heq
  have hself : ∃ r₁, Rules.image { r with entries := r.entries.after 1 } = .image r₁ ∧ Separate r₁.seen.entries ∧
      ∀ e ∈ r.seen.entries, e ∈ r₁.seen.entries := ⟨_, rfl, hsep, fun _ h => h⟩
  have hcount {typeflag header counted} (hread : HeaderRead w typeflag header counted) :
      counted = .image { r with entries := r.entries.after 1 } :=
    countHeader_image (hrules ▸ hread.counted)
  cases h with
  | idle hfault => exact ⟨⟨r, hrules, hsep, fun _ h => h⟩, fun h => absurd h (hplaceless hfault)⟩
  | counted hcounted hfault =>
    obtain rfl := countHeader_image (hrules ▸ hcounted)
    exact ⟨hself, fun h => absurd h (hplaceless hfault)⟩
  | refused hread hcharge =>
    obtain rfl := hcount hread
    cases hcharge
    exact ⟨hself, by rintro (heq | heq) <;> cases heq⟩
  | charged hread hcharge hfault =>
    obtain rfl := hcount hread
    cases hcharge
  | unrecorded hread hcharge hpayload hrecord =>
    obtain rfl := hcount hread
    cases hcharge
  | unadmitted hread hadmitted =>
    obtain rfl := hcount hread
    rcases admitHeader_error hadmitted with ⟨_, heq, himage, rfl⟩ | ⟨_, heq, -⟩
    · cases heq
      exact ⟨hself, fun _ => ⟨_, _, hread, himage⟩⟩
    · cases heq
  | admitted hread hadmitted hfault =>
    obtain rfl := hcount hread
    rcases admitHeader_ok hadmitted with ⟨_, r₁, heq, himage, rfl⟩ | ⟨_, heq, -⟩
    · cases heq
      obtain ⟨canonical, hcanonical, hrecord, -⟩ := ImageRules.admitHeader_ok himage
      obtain ⟨hsep₁, -, hsub⟩ := record_separate (r := { r with entries := r.entries.after 1 }) hsep (plainPath_of_canonical hcanonical) hrecord
      exact ⟨⟨r₁, rfl, hsep₁, hsub⟩, fun h => absurd h (hplaceless hfault)⟩
    · cases heq

theorem readHeader_of_read {typeflag : Typeflag} {counted : Rules} {block : Bytes} {headerOffset : Nat}
    (hcount : Rules.countHeader w.rules = .ok () counted) (hdecode : decodeHeader counted block = .ok (typeflag, header))
    (hroom : headerOffset + BLOCK ≤ U64_MAX) :
    readHeader block headerOffset w = .ok (typeflag, header, headerOffset + BLOCK) { w with rules := counted } := by
  have hrules : onRules Rules.countHeader w = .ok () { w with rules := counted } := by
    rw [onRules, hcount]
  refine (bind_of_ok hrules).trans ((bind_of_ok rfl).trans ?_)
  have hlift : lift (decodeHeader counted block) { w with rules := counted } =
      .ok (typeflag, header) { w with rules := counted } := by
    rw [hdecode]
    rfl
  refine (bind_of_ok hlift).trans ?_
  dsimp only
  rw [if_neg (Nat.not_lt.mpr hroom)]
  rfl

theorem presents_iff (hlive : Steady w ∨ Doomed w) (hlatch : w.latch = none) (hrules : w.rules = .image r) :
    Presents w kind header ↔ Steady w ∧
      HeaderRead w.settled (.entry kind) header (.image { r with entries := r.entries.after 1 }) := by
  constructor
  · rintro ⟨w₁, block, w₂, dataOffset, w₃, hskip, hread, hzero, hheader⟩
    rcases hlive with hsteady | hlatched | ⟨hopen, hshort⟩
    · refine ⟨hsteady, ?_⟩
      cases (skipUnread_ok hsteady).symm.trans hskip
      rcases readFull_outcomes BLOCK hsteady.settled.ready with ⟨hblock, hfull⟩ | ⟨_, hfull⟩
      · cases hfull.symm.trans hread
        obtain ⟨counted, hcount, hdecode, -, -⟩ := readHeader_ok hheader
        obtain rfl := countHeader_image (r := r) (hrules ▸ hcount)
        exact ⟨hblock, hzero, hcount, hdecode⟩
      · cases hfull.symm.trans hread
    · rw [hlatch] at hlatched
      cases hlatched
    · obtain ⟨_, hshort, -⟩ := skipUnread_short hopen hshort
      cases hshort.symm.trans hskip
  · rintro ⟨hsteady, hread⟩
    have hroom := room_block hsteady.settled.toOpen hread.readable
    exact ⟨_, _, _, _, _, skipUnread_ok hsteady, readFull_whole hsteady.settled.ready hread.readable, hread.nonzero,
      readHeader_of_read (w := { w.settled with source := w.settled.source.advanceBy BLOCK }) hread.counted hread.decoded
        hroom⟩

/-- An entry that its policy refuses ends the call. -/
theorem nextEntry_refused {counted rules : Rules} (hsteady : Steady w)
    (hread : HeaderRead w.settled (.entry kind) header counted) (hadmitted : Rules.admitHeader kind header counted = .error fault rules) :
    ∃ w', nextEntry w = .error fault w' := by
  have hroom := room_block hsteady.settled.toOpen hread.readable
  have hheader := readHeader_of_read (w := { w.settled with source := w.settled.source.advanceBy BLOCK }) hread.counted
    hread.decoded hroom
  obtain ⟨w₁, hw₁⟩ : ∃ w₁, readRecord w.settled.block w.settled.source.position
      { w.settled with source := w.settled.source.advanceBy BLOCK } = .error fault w₁ := by
    have hentry : onRules (Rules.admitHeader kind header)
        { w.settled with source := w.settled.source.advanceBy BLOCK, rules := counted } =
        .error fault { w.settled with source := w.settled.source.advanceBy BLOCK, rules } := by
      rw [onRules, hadmitted]
    exact ⟨_, (bind_of_ok hheader).trans ((bind_of_error (bind_of_error hentry)))⟩
  have hnext : readNext w.settled = .error fault w₁ := by
    rw [readNext_block hsteady.settled.toOpen hread.readable, hread.nonzero]
    exact hw₁
  have hadvance : advance w = .error fault w₁ :=
    (bind_of_ok rfl).trans (bind_of_error ((round_of_steady hsteady).trans hnext))
  rw [nextEntry_of_open hsteady.toOpen, hadvance]
  exact ⟨_, rfl⟩

/-- A call is refused for a name exactly when the names would no longer be separate with it. -/
theorem nextEntry_collision_iff (h : Named w r) :
    (∃ fault w', nextEntry w = .error fault w' ∧ Collision fault) ↔
      w.latch = none ∧ ∃ kind header canonical, Presents w kind header ∧ Admissible w kind header canonical ∧
        ¬Separate ((canonical, kind) :: w.admittedNames) := by
  have hnames : w.admittedNames = r.seen.entries := by
    unfold admittedNames
    rw [h.rules]
  rw [hnames]
  constructor
  · rintro ⟨fault, w', hcall, hcollision⟩
    have hcomes := nextEntry_comes h.live
    rw [hcall] at hcomes
    cases hcomes with
    | truncated => rcases hcollision with heq | heq <;> cases heq
    | stopped hpasses hsteady hstops =>
      obtain ⟨rfl, rfl⟩ := hpasses.image h.rules
      obtain ⟨kind, header, hread, hadmitted⟩ := (hstops.named h.rules h.separate).2 hcollision
      obtain ⟨canonical, hacceptable, hnot⟩ :=
        (ImageRules.admitHeader_collision_iff { r with entries := r.entries.after 1 } h.separate).mp ⟨fault, hadmitted, hcollision⟩
      exact ⟨hsteady.latch, kind, header, canonical, (presents_iff (.inl hsteady) hsteady.latch h.rules).mpr ⟨hsteady, hread⟩,
        ⟨r, h.rules, hacceptable.length, hacceptable.canonical, hacceptable.data⟩, hnot⟩
  · rintro ⟨hlatch, kind, header, canonical, hpresents, ⟨r', hrules, hacceptable⟩, hnot⟩
    cases h.rules.symm.trans hrules
    obtain ⟨hsteady, hread⟩ := (presents_iff h.live hlatch h.rules).mp hpresents
    obtain ⟨fault, hadmitted, hcollision⟩ :=
      (ImageRules.admitHeader_collision_iff { r with entries := r.entries.after 1 } h.separate).mpr
        ⟨canonical, ⟨hacceptable.length, hacceptable.canonical, hacceptable.data⟩, hnot⟩
    have hrefused : Rules.admitHeader kind header (.image { r with entries := r.entries.after 1 }) =
        .error fault (.image { r with entries := r.entries.after 1 }) := by
      unfold Rules.admitHeader
      dsimp only
      rw [hadmitted]
    obtain ⟨w', hcall⟩ := nextEntry_refused hsteady hread hrefused
    exact ⟨fault, w', hcall, hcollision⟩

/-- What a walk leaves: separate names, those of its entries among them. -/
theorem walk_named (reads : Nat → List Nat) (calls i : Nat) (h : Named w r) :
    ∃ r₁, (walk reads calls i w).walker.rules = .image r₁ ∧ Separate r₁.seen.entries ∧
      (∀ e ∈ r.seen.entries, e ∈ r₁.seen.entries) ∧
      (∀ entry ∈ (walk reads calls i w).entries, ∃ canonical, CanonicalName entry canonical ∧
        (canonical, entry.kind) ∈ r₁.seen.entries) ∧
      ((walk reads calls i w).verdict = none →
        Steady (walk reads calls i w).walker ∨ Doomed (walk reads calls i w).walker) := by
  induction calls generalizing i w r with
  | zero => exact ⟨r, h.rules, h.separate, fun _ h => h, fun _ h => (by cases h), fun _ => h.live⟩
  | succ calls ih =>
    have hcomes := nextEntry_comes h.live
    unfold walk
    rcases hcall : nextEntry w with ⟨called, w₂⟩ | ⟨fault, w₂⟩ <;> rw [hcall] at hcomes
    · cases hcomes with
      | finished hpasses hsteady hfinished =>
        obtain ⟨rfl, rfl⟩ := hpasses.image h.rules
        exact ⟨r, hfinished.rules.trans h.rules, h.separate, fun _ h => h, fun _ h => (by cases h), (by simp)⟩
      | @entry exts w₁ kind header entry _ hpasses hsteady hentered =>
        obtain ⟨rfl, rfl⟩ := hpasses.image h.rules
        obtain ⟨r₁, canonical, hrules₁, hsep₁, hcanonical, hmem, hsub⟩ := hentered.named h.rules h.separate
        have hopen := hentered.opened hsteady.settled.toOpen
        obtain ⟨hlive, hrules⟩ := readAll_live hopen (reads i)
        obtain ⟨r₂, hrules₂, hsep₂, hsub₂, hentries, hverdict⟩ := ih (i + 1) ⟨hlive, hrules.trans hrules₁, hsep₁⟩
        refine ⟨r₂, hrules₂, hsep₂, fun e he => hsub₂ e (hsub e he), ?_, hverdict⟩
        exact List.forall_mem_cons.mpr ⟨⟨canonical, hcanonical, hsub₂ _ hmem⟩, hentries⟩
    · cases hcomes with
      | stopped hpasses hsteady hstops =>
        obtain ⟨rfl, rfl⟩ := hpasses.image h.rules
        obtain ⟨⟨r₁, hrules₁, hsep₁, hsub⟩, -⟩ := hstops.named h.rules h.separate
        exact ⟨r₁, hrules₁, hsep₁, hsub, fun _ h => (by cases h), (by simp)⟩
      | truncated hpasses hrules =>
        obtain ⟨rfl, rfl⟩ := hpasses.image h.rules
        exact ⟨r, hrules.trans h.rules, h.separate, fun _ h => h, fun _ h => (by cases h), (by simp)⟩

/-- Over a whole walk of an image archive the admitted names are separate, the entries' own among them; and the next
entry is refused for its name exactly when its name would be separate from them no longer. -/
theorem image_walk_names (source : ByteStream) (own : ResourceLimit) (shared : List Budget) (copyBuffer : Nat)
    (limits : ContentLimits) (reads : Nat → List Nat) (calls : Nat) :
    let walked := walk reads calls 0 (start source own shared copyBuffer .imageArchive limits)
    Separate walked.walker.admittedNames ∧
    (∀ entry ∈ walked.entries, ∃ canonical, CanonicalName entry canonical ∧
      (canonical, entry.kind) ∈ walked.walker.admittedNames) ∧
    (walked.verdict = none →
      ((∃ fault w', nextEntry walked.walker = .error fault w' ∧ Collision fault) ↔
        walked.walker.latch = none ∧ ∃ kind header canonical, Presents walked.walker kind header ∧
          Admissible walked.walker kind header canonical ∧
          ¬Separate ((canonical, kind) :: walked.walker.admittedNames))) := by
  intro walked
  have hsteady := steady_start source own shared copyBuffer .imageArchive limits
  obtain ⟨r, hrules, hsep, -, hentries, hlive⟩ := walk_named reads calls 0 (w := start _ _ _ _ _ _)
    ⟨.inl hsteady, rfl, nofun, List.nodup_nil, nofun⟩
  have hnames : walked.walker.admittedNames = r.seen.entries := by
    unfold admittedNames
    rw [hrules]
  refine ⟨hnames ▸ hsep, hnames ▸ hentries, fun hverdict => ?_⟩
  exact nextEntry_collision_iff ⟨hlive hverdict, hrules, hsep⟩

end TarWalker

end DeployCore
