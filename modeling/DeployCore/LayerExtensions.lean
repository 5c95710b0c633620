import DeployCore.TarTiling

/-! # Extension records of a layer

What an entry of a layer takes from the extension records before it, and what the records cost: they are parsed one
by one, each kind once, and are gone with the entry that follows. -/

namespace DeployCore
open Fallible CountingReader LittleEndian TarWalker

/-! ### Conflicting authorities -/

section Parse
variable {longName longLink : Bool} {pax pax' : Pax} {key : PaxKey} {value : Bytes}

/-- The values of a record set conflict with what is pending. -/
def Pax.Conflicts (pax : Pax) (longName longLink : Bool) : Prop :=
  longName ∧ pax.path.isSome ∨ longLink ∧ pax.linkpath.isSome

/-- With a name or link pending, one record is refused where it would conflict, and is applied as ever where not. -/
theorem Pax.apply_pending (key : PaxKey) (value : Bytes) (hpath : longName → pax.path = none) (hlink : longLink → pax.linkpath = none) :
    (∀ fault, pax.apply false false key value = .error fault → pax.apply longName longLink key value = .error fault) ∧
    ∀ pax', pax.apply false false key value = .ok pax' →
      pax'.Conflicts longName longLink ∧
        pax.apply longName longLink key value = .error (.malformed .conflictingAuthority) ∨
      (longName → pax'.path = none) ∧ (longLink → pax'.linkpath = none) ∧
        pax.apply longName longLink key value = .ok pax' := by
  cases key with
  | path =>
    unfold Pax.apply
    dsimp only
    by_cases hnul : NUL ∈ value
    · simp [hnul]
    · cases longName with
      | false => simpa [hnul] using hlink
      | true => simp [hnul, Pax.Conflicts]
  | linkpath =>
    unfold Pax.apply
    dsimp only
    by_cases hnul : NUL ∈ value
    · simp [hnul]
    · cases longLink with
      | false => simpa [hnul] using hpath
      | true => simp [hnul, Pax.Conflicts]
  | size =>
    unfold Pax.apply
    dsimp only
    rcases parseDecimal value with _ | number
    · simp
    · simpa using ⟨hpath, hlink⟩
  | uid | gid | mtime | atime | ctime | uname | gname | xattr =>
    refine ⟨fun fault h => h, fun pax' h => .inr ?_⟩
    have hsame : pax' = pax := by
      unfold Pax.apply at h
      dsimp only at h
      first
      | exact (Except.ok.inj h).symm
      | split at h <;> cases h
        rfl
    subst hsame
    exact ⟨hpath, hlink, h⟩

/-- The same for a whole record set: it is refused exactly where it conflicts. -/
theorem parsePaxFrom_pending {fuel : Nat} {rest : Bytes} {keys : List Bytes} (hpath : longName → pax.path = none)
    (hlink : longLink → pax.linkpath = none) :
    (∀ pax', parsePaxFrom false false fuel rest keys pax = .ok pax' → pax'.Conflicts longName longLink →
      parsePaxFrom longName longLink fuel rest keys pax = .error (.malformed .conflictingAuthority)) ∧
    ∀ pax', parsePaxFrom longName longLink fuel rest keys pax = .ok pax' →
      parsePaxFrom false false fuel rest keys pax = .ok pax' ∧ ¬pax'.Conflicts longName longLink := by
  have hempty : ¬pax.Conflicts longName longLink := by
    rintro (⟨hname, hsome⟩ | ⟨hname, hsome⟩)
    · rw [hpath hname] at hsome
      cases hsome
    · rw [hlink hname] at hsome
      cases hsome
  induction fuel generalizing rest keys pax with
  | zero =>
    rcases rest with _ | ⟨byte, rest⟩
    · simp only [parsePaxFrom_nil]
      refine ⟨?_, ?_⟩
      · rintro _ ⟨⟩ h
        exact absurd h hempty
      · rintro _ ⟨⟩
        exact ⟨rfl, hempty⟩
    · constructor <;> intro _ h <;> cases h
  | succ fuel ih =>
    rcases rest with _ | ⟨byte, rest⟩
    · simp only [parsePaxFrom_nil]
      refine ⟨?_, ?_⟩
      · rintro _ ⟨⟩ h
        exact absurd h hempty
      · rintro _ ⟨⟩
        exact ⟨rfl, hempty⟩
    rw [parsePaxFrom_cons, parsePaxFrom_cons]
    rcases hsplit : splitPaxRecord (byte :: rest) with _ | ⟨name, value, tail⟩
    · constructor <;> intro _ h <;> cases h
    dsimp only
    by_cases hseen : name ∈ keys
    · simp [hseen]
    rw [if_neg hseen, if_neg hseen]
    rcases hkey : paxKey name with _ | key
    · constructor <;> intro _ h <;> cases h
    dsimp only
    obtain ⟨herror, hok⟩ := Pax.apply_pending key value hpath hlink
    rcases happly : pax.apply false false key value with fault | next
    · rw [herror fault happly]
      constructor <;> intro _ h <;> cases h
    rcases hok next happly with ⟨hconflicts, hrefused⟩ | ⟨hpath', hlink', hsame⟩
    · rw [hrefused]
      refine ⟨fun _ _ _ => rfl, fun _ h => ?_⟩
      cases h
    · rw [hsame]
      refine ih hpath' hlink' ?_
      rintro (⟨hname, hsome⟩ | ⟨hname, hsome⟩)
      · rw [hpath' hname] at hsome
        cases hsome
      · rw [hlink' hname] at hsome
        cases hsome

theorem parsePax_conflict {payload : Bytes} (h : parsePax payload false false = .ok pax)
    (hconflicts : pax.Conflicts longName longLink) :
    parsePax payload longName longLink = .error (.malformed .conflictingAuthority) :=
  (parsePaxFrom_pending (fun _ => rfl) fun _ => rfl).1 pax h hconflicts

theorem parsePax_pending {payload : Bytes} (h : parsePax payload longName longLink = .ok pax) :
    parsePax payload false false = .ok pax ∧ ¬pax.Conflicts longName longLink :=
  (parsePaxFrom_pending (fun _ => rfl) fun _ => rfl).2 pax h

end Parse

/-- A name or a path that conflicts with one already pending is refused, whichever came first. -/
structure RefusesConflicts (pending : Pending) (payload : Bytes) : Prop where
  pax : ∀ pax, parsePax payload false false = .ok pax →
    pax.Conflicts pending.longName.isSome pending.longLink.isSome →
    pending.record .pax payload = .error (.malformed .conflictingAuthority)
  longName : ∀ name, gnuPayload payload = .ok name → pending.pax.any (fun pax => pax.path.isSome) →
    pending.record .longName payload = .error (.malformed .conflictingAuthority)
  longLink : ∀ link, gnuPayload payload = .ok link → pending.pax.any (fun pax => pax.linkpath.isSome) →
    pending.record .longLink payload = .error (.malformed .conflictingAuthority)

theorem refusesConflicts (pending : Pending) (payload : Bytes) : RefusesConflicts pending payload where
  pax pax h hconflicts := by
    unfold Pending.record
    dsimp only
    rw [parsePax_conflict h hconflicts]
    rfl
  longName name h hpath := by
    unfold Pending.record
    dsimp only
    rw [h]
    exact if_pos hpath
  longLink link h hpath := by
    unfold Pending.record
    dsimp only
    rw [h]
    exact if_pos hpath

/-! ### What the records supply -/

/-- The payload of the record of one kind, if there is one. -/
def payloadOf (bytes : Bytes) (records : List Record) (extension : Extension) : Option Bytes :=
  (records.find? fun record => record.typeflag = .extension extension).map (·.payload bytes)

/-- `pending` is what these records supply: at most one of each kind, each parsed by itself, none in conflict. -/
structure Supplied (bytes : Bytes) (records : List Record) (pending : Pending) : Prop where
  once : (records.map Record.typeflag).Nodup
  kinds : ∀ record ∈ records, ∃ extension, record.typeflag = .extension extension
  pax : Option.Rel (fun payload pax => parsePax payload false false = .ok pax) (payloadOf bytes records .pax) pending.pax
  longName : Option.Rel (fun payload name => gnuPayload payload = .ok name) (payloadOf bytes records .longName)
    pending.longName
  longLink : Option.Rel (fun payload link => gnuPayload payload = .ok link) (payloadOf bytes records .longLink)
    pending.longLink
  agree : ∀ pax ∈ pending.pax, ¬pax.Conflicts pending.longName.isSome pending.longLink.isSome

section Supplied
variable {bytes : Bytes} {records : List Record} {record : Record} {pending pending' : Pending} {extension : Extension}

theorem supplied_nil : Supplied bytes [] .empty where
  once := List.nodup_nil
  kinds := nofun
  pax := .none
  longName := .none
  longLink := .none
  agree := nofun

theorem payloadOf_append : payloadOf bytes (records ++ [record]) extension =
    (payloadOf bytes records extension).or
      (if record.typeflag = .extension extension then some (record.payload bytes) else none) := by
  unfold payloadOf
  rw [List.find?_append, Option.map_or, List.find?_singleton]
  simp only [decide_eq_true_eq]
  split <;> rfl

/-- Whether a kind is pending is whether there is a record of it. -/
theorem Supplied.present (h : Supplied bytes records pending) :
    pending.present extension = (payloadOf bytes records extension).isSome := by
  have hrel {α : Type} {R : Bytes → α → Prop} {payload : Option Bytes} {value : Option α} (h : Option.Rel R payload value) :
      value.isSome = payload.isSome := by
    rcases h with _ | _ <;> rfl
  cases extension with
  | pax => exact hrel h.pax
  | longName => exact hrel h.longName
  | longLink => exact hrel h.longLink

theorem payloadOf_append_new (h : Supplied bytes records pending) (habsent : pending.present extension = false)
    (hrecord : record.typeflag = .extension extension) :
    payloadOf bytes (records ++ [record]) extension = some (record.payload bytes) := by
  have hnone : payloadOf bytes records extension = none := by
    rw [h.present] at habsent
    simpa using habsent
  rw [payloadOf_append, hnone, if_pos hrecord]
  rfl

/-- A further record of a kind that is not there yet. -/
theorem Supplied.append (h : Supplied bytes records pending) (habsent : pending.present extension = false)
    (htypeflag : record.typeflag = .extension extension)
    (hrecord : pending.record extension (record.payload bytes) = .ok pending') :
    Supplied bytes (records ++ [record]) pending' := by
  have hold (other : Extension) (hne : extension ≠ other) :
      payloadOf bytes (records ++ [record]) other = payloadOf bytes records other := by
    rw [payloadOf_append, if_neg (by rw [htypeflag]; exact fun heq => hne (Typeflag.extension.inj heq)), Option.or_none]
  have honce : ((records ++ [record]).map Record.typeflag).Nodup := by
    rw [List.map_append, List.nodup_append]
    refine ⟨h.once, List.nodup_singleton _, ?_⟩
    rintro typeflag hmem other hother rfl
    obtain rfl : typeflag = record.typeflag := by simpa using hother
    obtain ⟨first, hfirst, heq⟩ := List.mem_map.mp hmem
    rw [h.present, payloadOf, Option.isSome_map] at habsent
    have hnone := List.find?_eq_none.mp (Option.not_isSome_iff_eq_none.mp (Bool.eq_false_iff.mp habsent)) first hfirst
    exact hnone (decide_eq_true (heq.trans htypeflag))
  have hkinds : ∀ other ∈ records ++ [record], ∃ extension, other.typeflag = .extension extension := by
    intro other hmem
    rcases List.mem_append.mp hmem with hmem | hmem
    · exact h.kinds other hmem
    · obtain rfl := List.mem_singleton.mp hmem
      exact ⟨extension, htypeflag⟩
  have hnew := payloadOf_append_new h habsent htypeflag
  cases extension with
  | pax =>
    obtain ⟨pax, hparse, rfl⟩ := Checks.map_ok hrecord
    obtain ⟨halone, hagree⟩ := parsePax_pending hparse
    refine ⟨honce, hkinds, ?_, ?_, ?_, ?_⟩
    · rw [hnew]
      exact .some halone
    · rw [hold .longName nofun]
      exact h.longName
    · rw [hold .longLink nofun]
      exact h.longLink
    · rintro _ ⟨⟩
      exact hagree
  | longName =>
    obtain ⟨name, hparse, hrecord⟩ := Checks.bind_ok hrecord
    split at hrecord <;> cases hrecord
    next hpath =>
    refine ⟨honce, hkinds, ?_, ?_, ?_, ?_⟩
    · rw [hold .pax nofun]
      exact h.pax
    · rw [hnew]
      exact .some hparse
    · rw [hold .longLink nofun]
      exact h.longLink
    · rintro pax hpax (⟨-, hsome⟩ | hlink)
      · exact hpath (Option.any_eq_true _ _ |>.mpr ⟨pax, hpax, hsome⟩)
      · exact h.agree pax hpax (.inr hlink)
  | longLink =>
    obtain ⟨link, hparse, hrecord⟩ := Checks.bind_ok hrecord
    split at hrecord <;> cases hrecord
    next hpath =>
    refine ⟨honce, hkinds, ?_, ?_, ?_, ?_⟩
    · rw [hold .pax nofun]
      exact h.pax
    · rw [hold .longName nofun]
      exact h.longName
    · rw [hnew]
      exact .some hparse
    · rintro pax hpax (hname | ⟨-, hsome⟩)
      · exact h.agree pax hpax (.inl hname)
      · exact hpath (Option.any_eq_true _ _ |>.mpr ⟨pax, hpax, hsome⟩)

end Supplied

/-! ### Over a walk -/

/-- An entry, with its own header and the extension records between it and the entry before. -/
structure Group where
  extensions : List Record
  header : HeaderFields
  entry : TarEntry

def Group.records (group : Group) : List Record :=
  group.extensions ++ [.ofEntry group.header group.entry]

/-- The entry is what its header says, where no record before it says otherwise. -/
structure Effective (pending : Pending) (header : HeaderFields) (entry : TarEntry) : Prop where
  name : entry.name = ((pending.pax.bind Pax.path).or pending.longName).getD header.name
  link : entry.linkTarget = if entry.kind = .hardlink ∨ entry.kind = .symlink then
    some (((pending.pax.bind Pax.linkpath).or pending.longLink).getD header.linkname) else none
  size : entry.size = (pending.pax.bind Pax.size).getD header.size

/-- What a walk of a layer comes to: its entries, each with the records before it; the records since the last entry;
one that was charged but ended the walk; and the budget, which has grown by the sizes of them all. -/
structure Accounts (rules : Rules) (bytes : Bytes) (offset last before used : Nat) (walked : Walked)
    (groups : List Group) (trailing : List Record) (charged : Option Record) : Prop where
  tiles : Tiles rules bytes offset (groups.flatMap Group.records ++ trailing) last
  entries : walked.entries = groups.map Group.entry
  effective : ∀ group ∈ groups, ∃ pending, Supplied bytes group.extensions pending ∧
    Effective pending group.header group.entry
  supplied : ∃ pending, Supplied bytes trailing pending
  consumed : walked.verdict = some (.ok ()) → trailing = []
  stopped : ∀ record ∈ charged, Begins rules bytes last record ∧ (∃ extension, record.typeflag = .extension extension) ∧
    ∃ fault, walked.verdict = some (.error fault)
  grown : used = before + ((groups.flatMap Group.extensions ++ trailing ++ charged.toList).map Record.dataLen).sum

namespace TarWalker
variable {w w₁ w₂ : TarWalker} {kind : EntryKind} {header : HeaderFields} {entry : TarEntry} {fault : ContentFault}
  {bytes : Bytes} {offset : Nat} {records done : List Record} {rules : Rules} {layer : LayerRules}

/-- What the shared budget for extension records has been charged. -/
def extensionUsed (w : TarWalker) : Nat :=
  match w.rules with
  | .image _ => 0
  | .layer rules => rules.extensionTotal.used

theorem extensionUsed_eq (h : w.rules = .layer layer) : w.extensionUsed = layer.extensionTotal.used := by
  rw [extensionUsed, h]

theorem linkTarget_ok {explicit target : Option Bytes} {linkname : Bytes} (h : linkTarget kind explicit linkname = .ok target) :
    target = if kind = .hardlink ∨ kind = .symlink then some (explicit.getD linkname) else none := by
  unfold linkTarget at h
  split at h
  · next hlink =>
    cases h
    rw [if_pos hlink]
  · next hlink =>
    rw [if_neg hlink]
    split at h <;> cases h
    rfl

theorem getD_default {α : Type} {pax : Option Pax} {field : Pax → Option α} (h : field .default = none) :
    field (pax.getD .default) = pax.bind field := by
  rcases pax with _ | pax
  · exact h
  · rfl

theorem resolve_ok {pending : Pending} {admitted : Admitted} (h : layer.resolve pending kind header = .ok admitted) :
    admitted.name = ((pending.pax.bind Pax.path).or pending.longName).getD header.name ∧
    (admitted.linkTarget = if kind = .hardlink ∨ kind = .symlink then
      some (((pending.pax.bind Pax.linkpath).or pending.longLink).getD header.linkname) else none) ∧
    admitted.size = (pending.pax.bind Pax.size).getD header.size := by
  unfold LayerRules.resolve at h
  obtain ⟨target, htarget, h⟩ := Checks.bind_ok h
  have hlink := linkTarget_ok htarget
  rw [show (pending.pax.getD .default).linkpath = _ from getD_default rfl] at hlink
  rw [show (pending.pax.getD .default).path = _ from getD_default rfl,
    show (pending.pax.getD .default).size = _ from getD_default rfl] at h
  split_ifs at h
  cases h
  exact ⟨rfl, hlink, rfl⟩

theorem Entered.effective (h : Entered w.settled kind header entry w₁)
    (hrules : w.rules = .layer layer) :
    Effective layer.pending header entry ∧ ∃ layer₁, w₁.rules = .layer layer₁ ∧ layer₁.pending = .empty ∧
      layer₁.extensionTotal = layer.extensionTotal := by
  rcases h.rules_eq with ⟨image, _, _, heq, -⟩ | ⟨layer', admitted, heq, -, hresolve, hname, hlink, hsize, hrules₁⟩
  · cases hrules.symm.trans heq
  · cases hrules.symm.trans heq
    obtain ⟨hname', hlink', hsize'⟩ := resolve_ok hresolve
    have hkind : entry.kind = kind := by
      obtain ⟨_, _, _, _⟩ := h
      rfl
    exact ⟨⟨hname.trans hname', by rw [hlink, hlink', hkind], hsize.trans hsize'⟩, _, hrules₁, rfl, rfl⟩

theorem Extended.payload (hat : At bytes offset w) (extension : Extension) :
    slice w.settled.source.source.bytes BLOCK header.size = (Record.ofExtension offset extension header).payload bytes := by
  rw [hat.source]
  show ((bytes.drop offset).drop BLOCK).take header.size = (bytes.drop (offset + BLOCK)).take header.size
  rw [List.drop_drop]

/-- The records passed over add to what is pending, and to the budget. -/
theorem Passes.supplied (h : Passes w records w₁) (hat : At bytes offset w) (hrules : w.rules = .layer layer)
    (hsupplied : Supplied bytes done layer.pending) :
    ∃ layer₁, w₁.rules = .layer layer₁ ∧ Supplied bytes (done ++ records) layer₁.pending ∧
      layer₁.extensionTotal.used = layer.extensionTotal.used + (records.map Record.dataLen).sum := by
  induction h generalizing done offset layer with
  | here => exact ⟨layer, hrules, by rwa [List.append_nil], rfl⟩
  | @record w w₁ w₂ extension header records hsteady h hrest ih =>
    obtain ⟨layer', pending, heq, -, habsent, hfits, hrecord, hrules₁⟩ := h.rules_eq
    cases hrules.symm.trans heq
    rw [Extended.payload hat extension] at hrecord
    obtain ⟨layer₁, hrules₂, hsupplied₁, hused⟩ := ih (h.at_next hat) hrules₁ (hsupplied.append habsent rfl hrecord)
    refine ⟨layer₁, hrules₂, ?_, ?_⟩
    · rw [hat.position]
      simpa using hsupplied₁
    · rw [hused, Budget.used_after hfits, List.map_cons, List.sum_cons, Nat.add_assoc]
      rfl

/-- Where a walk stops, at most one record more has been charged. -/
theorem Stops.charged_record (hat : At bytes offset w) (himage : w.rules.isImage = rules.isImage)
    (haligned : offset % BLOCK = 0) {rules₁ : Rules} (h : Stops w.settled fault rules₁) (hrules : w.rules = .layer layer) :
    ∃ failed : Option Record, (∀ record ∈ failed, Begins rules bytes offset record ∧
        ∃ extension, record.typeflag = .extension extension) ∧
      ∃ layer₁, rules₁ = .layer layer₁ ∧
        layer₁.extensionTotal.used = layer.extensionTotal.used + (failed.toList.map Record.dataLen).sum := by
  have hcount {counted} (hcounted : Rules.countHeader w.settled.rules = .ok () counted) :
      counted = .layer { layer with entries := layer.entries.after 1 } := by
    rcases countHeader_ok (hrules ▸ hcounted) with ⟨_, heq, -⟩ | ⟨_, heq, -, rfl⟩
    · cases heq
    · cases heq
      rfl
  have hcharged {extension header counted limit charged flag} (hread : HeaderRead w.settled (.extension extension) header counted)
      (hcharge : chargeExtension extension header.size flag counted = .ok limit charged) :
      ∃ failed : Option Record, (∀ record ∈ failed, Begins rules bytes offset record ∧
          ∃ extension, record.typeflag = .extension extension) ∧
        ∃ layer₁, charged = .layer layer₁ ∧
          layer₁.extensionTotal.used = layer.extensionTotal.used + (failed.toList.map Record.dataLen).sum := by
    obtain rfl := hcount hread.counted
    obtain ⟨_, heq, -, hfits, rfl⟩ := chargeExtension_ok hcharge
    cases heq
    refine ⟨some (.ofExtension offset extension header), ?_, _, rfl, ?_⟩
    · rintro record ⟨⟩
      exact ⟨HeaderRead.begins hat himage haligned hread rfl fun _ _ => rfl, extension, rfl⟩
    · rw [Budget.used_after hfits]
      rfl
  cases h with
  | idle hfault => exact ⟨none, nofun, layer, hrules, rfl⟩
  | counted hcounted hfault => exact ⟨none, nofun, _, hcount hcounted, rfl⟩
  | refused hread hcharge =>
    obtain rfl := chargeExtension_error hcharge
    exact ⟨none, nofun, _, hcount hread.counted, rfl⟩
  | charged hread hcharge hfault => exact hcharged hread hcharge
  | unrecorded hread hcharge hpayload hrecord =>
    obtain rfl := recordExtension_error hrecord
    exact hcharged hread hcharge
  | unadmitted hread hadmitted =>
    rcases admitHeader_error hadmitted with ⟨_, heq, -⟩ | ⟨_, heq, -, rfl⟩
    · cases heq.symm.trans (hcount hread.counted)
    · cases heq.symm.trans (hcount hread.counted)
      exact ⟨none, nofun, _, rfl, rfl⟩
  | admitted hread hadmitted hfault =>
    rcases admitHeader_ok hadmitted with ⟨_, _, heq, -⟩ | ⟨_, heq, -, rfl⟩
    · cases heq.symm.trans (hcount hread.counted)
    · cases heq.symm.trans (hcount hread.counted)
      exact ⟨none, nofun, _, rfl, rfl⟩

theorem accounts_nothing {walked : Walked} (hentries : walked.entries = []) (hrules : walked.walker.rules = .layer layer) :
    Accounts rules bytes offset offset layer.extensionTotal.used walked.walker.extensionUsed walked [] [] none :=
  ⟨rfl, hentries, nofun, ⟨_, supplied_nil⟩, fun _ => rfl, nofun, extensionUsed_eq hrules⟩

theorem walk_accounts (reads : Nat → List Nat) (calls i : Nat) (hw : Steady w ∧ At bytes offset w ∨ Doomed w)
    (hrules : w.rules = .layer layer) (hempty : layer.pending = .empty) (himage : w.rules.isImage = rules.isImage)
    (haligned : offset % BLOCK = 0) :
    ∃ groups trailing charged last, Accounts rules bytes offset last layer.extensionTotal.used
      (walk reads calls i w).walker.extensionUsed (walk reads calls i w) groups trailing charged := by
  induction calls generalizing i w offset layer with
  | zero => exact ⟨[], [], none, offset, accounts_nothing rfl hrules⟩
  | succ calls ih =>
    unfold walk
    rcases hw with ⟨hsteady, hat⟩ | hdoomed
    swap
    · obtain ⟨w₁, hnext, hsame⟩ := nextEntry_of_doomed hdoomed
      rw [hnext]
      exact ⟨[], [], none, offset, accounts_nothing rfl (hsame.trans hrules)⟩
    have hcomes := nextEntry_comes (.inl hsteady)
    rcases hcall : nextEntry w with ⟨called, w₂⟩ | ⟨fault, w₂⟩ <;> rw [hcall] at hcomes
    · cases hcomes with
      | @finished exts w₁ _ hpasses hsteady₁ hfinished =>
        obtain rfl : exts = [] := hpasses.isImage.2.2 hfinished.pending
        rcases hpasses
        exact ⟨[], [], none, offset, accounts_nothing rfl (hfinished.rules.trans hrules)⟩
      | @entry exts w₁ kind header entry _ hpasses hsteady₁ hentered =>
        obtain ⟨mid, htiles, hmid, haligned₁⟩ := hpasses.tiles hat himage haligned
        have himage₁ := hpasses.isImage.1.trans himage
        obtain ⟨layer₁, hrules₁, hsupplied, hused₁⟩ := hpasses.supplied hat hrules (hempty ▸ supplied_nil)
        obtain ⟨heffective, layer₂, hrules₂, hempty₂, htotal⟩ := hentered.effective hrules₁
        have hopen := hentered.opened hsteady₁.settled.toOpen
        obtain ⟨hplace, -, hnext⟩ := hentered.at_next hmid
        have hafter := readAll_at hopen hnext (reads i)
        have hsame := (readAll_live hopen (reads i)).2
        have haligned₂ : (Record.ofEntry header entry).next % BLOCK = 0 :=
          next_aligned (hplace.symm ▸ haligned₁ : entry.headerOffset % BLOCK = 0)
        have himage₂ : (readAll (reads i) w₂).rules.isImage = rules.isImage := by
          rw [hsame]
          exact hentered.isImage.1.trans himage₁
        obtain ⟨groups, trailing, charged, last, hrest⟩ :=
          ih (i + 1) hafter (hsame.trans hrules₂) hempty₂ himage₂ haligned₂
        refine ⟨⟨exts, header, entry⟩ :: groups, trailing, charged, last, ?_, ?_, ?_, hrest.supplied, hrest.consumed,
          hrest.stopped, ?_⟩
        · have hlies := hentered.lies hmid himage₁ haligned₁
          rw [List.flatMap_cons, List.append_assoc, Group.records, List.append_assoc]
          exact htiles.append ⟨hlies, hrest.tiles⟩
        · exact congrArg (entry :: ·) hrest.entries
        · exact List.forall_mem_cons.mpr ⟨⟨_, hsupplied, heffective⟩, hrest.effective⟩
        · show (walk reads calls (i + 1) (readAll (reads i) w₂)).walker.extensionUsed = _
          rw [hrest.grown, htotal, hused₁]
          simp only [List.flatMap_cons, List.append_assoc, List.map_append, List.sum_append]
          omega
    · cases hcomes with
      | @stopped exts w₁ _ _ hpasses hsteady₁ hstops =>
        obtain ⟨mid, htiles, hmid, haligned₁⟩ := hpasses.tiles hat himage haligned
        obtain ⟨layer₁, hrules₁, hsupplied, hused₁⟩ := hpasses.supplied hat hrules (hempty ▸ supplied_nil)
        obtain ⟨charged, hcharged, layer₂, hrules₂, hused₂⟩ :=
          hstops.charged_record hmid (hpasses.isImage.1.trans himage) haligned₁ hrules₁
        refine ⟨[], exts, charged, mid, htiles, rfl, List.forall_mem_nil _, ⟨_, hsupplied⟩,
          fun h => (by cases h), ?_, ?_⟩
        · exact fun record hmem => ⟨(hcharged record hmem).1, (hcharged record hmem).2, fault, rfl⟩
        · show w₂.extensionUsed = _
          rw [extensionUsed_eq hrules₂, hused₂, hused₁]
          simp only [List.flatMap_nil, List.nil_append, List.map_append, List.sum_append]
          omega
      | @truncated exts w₁ _ hpasses hsame =>
        obtain ⟨mid, htiles, -, -⟩ := hpasses.tiles hat himage haligned
        obtain ⟨layer₁, hrules₁, hsupplied, hused₁⟩ := hpasses.supplied hat hrules (hempty ▸ supplied_nil)
        refine ⟨[], exts, none, mid, htiles, rfl, List.forall_mem_nil _, ⟨_, hsupplied⟩,
          fun h => (by cases h), fun _ h => (by cases h), ?_⟩
        show w₂.extensionUsed = _
        rw [extensionUsed_eq (hsame.trans hrules₁), hused₁]
        simp

/-- Over a whole walk of a layer every entry is what its own header and the extension records right before it say; no
record is left for a later entry or at the end of an accepted archive; names that conflict are refused; and the shared
budget has grown by the sizes of the records, one at which the walk stopped among them. -/
theorem layer_walk_extensions (source : ByteStream) (own : ResourceLimit) (shared : List Budget) (copyBuffer : Nat)
    (entries extensionTotal : Budget) (limits : ContentLimits) (reads : Nat → List Nat) (calls : Nat) :
    let policy := EntryPolicy.layer entries extensionTotal
    let walked := walk reads calls 0 (start source own shared copyBuffer policy limits)
    (∃ groups trailing charged last, Accounts (policy.rules limits) source.bytes 0 last extensionTotal.used
      walked.walker.extensionUsed walked groups trailing charged) ∧
    ∀ pending payload, RefusesConflicts pending payload := by
  have hsteady := steady_start source own shared copyBuffer (.layer entries extensionTotal) limits
  have hat := at_start source own shared copyBuffer (.layer entries extensionTotal) limits
  exact ⟨walk_accounts reads calls 0 (.inl ⟨hsteady, hat⟩) rfl rfl rfl rfl, refusesConflicts⟩

/-- The header of a GNU long name of ten bytes, with no bytes behind it. -/
def truncatedLongName : Bytes :=
  List.replicate 124 0 ++ [49, 50] ++ List.replicate 22 0 ++ [50, 48, 55, 54] ++ List.replicate 4 0 ++ [76] ++
    List.replicate 100 0 ++ POSIX_MAGIC_BYTES ++ POSIX_VERSION_BYTES ++ List.replicate 247 0

/-- A record is charged before it is read: the budget grows although no record's data is in the stream. -/
theorem charged_before_read :
    let total : Budget := ⟨.layerExtensionTotal, 4096, 0, by decide, by decide⟩
    let entries : Budget := ⟨.layerEntries, 16, 0, by decide, by decide⟩
    let walked := walk (fun _ => []) 1 0
      (start ⟨truncatedLongName, fun _ n => n⟩ ⟨.decodedLayer, 4096, by decide⟩ [] 512 (.layer entries total) .initial)
    ¬∃ read : List Record, (∀ record ∈ read, record.dataOffset + record.dataLen ≤ truncatedLongName.length) ∧
      walked.walker.extensionUsed = total.used + (read.map Record.dataLen).sum := by
  intro total entries walked
  have hused : walked.walker.extensionUsed = 10 := by decide +kernel
  have hlength : truncatedLongName.length = 512 := by decide +kernel
  rintro ⟨read, hlies, hgrown⟩
  have hnone : (read.map Record.dataLen).sum = 0 := by
    refine List.sum_eq_zero_iff_forall_eq_nat.mpr fun dataLen hmem => ?_
    obtain ⟨record, hrecord, rfl⟩ := List.mem_map.mp hmem
    have hfits := hlies record hrecord
    rw [hlength] at hfits
    unfold Record.dataOffset BLOCK at hfits
    omega
  rw [hused, hnone] at hgrown
  exact absurd hgrown (by decide)

end TarWalker

end DeployCore
