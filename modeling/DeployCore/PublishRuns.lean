import DeployCore.PublishFile

/-! # Interleaved publications

Each call owns the temporary it created until it removes it, and what one call does to the directory leaves alone
every entry and every inode of another. -/

namespace DeployCore

/-- What a step does to the directory and to the temporary of its call. -/
inductive PublishDir.Touches (dest : String) (d : PublishDir) :
    Option Temporary → PublishDir → Option Temporary → Prop
  | nothing {t : Option Temporary} : Touches dest d t d t
  | creates {name : String} (hnone : d.find name = none) (hne : name ≠ dest) :
    Touches dest d none (d.create name []) (some ⟨name, d.nodes.length⟩)
  | writes {t : Temporary} {bytes : Bytes} (hdest : d.find dest ≠ some t.ino) :
    Touches dest d (some t) (d.append t.ino bytes) (some t)
  | links {t : Temporary} (hname : d.find t.name = some t.ino) (hnone : d.find dest = none) :
    Touches dest d (some t) (d.link dest t.ino) (some t)
  | unlinks {t : Temporary} (hname : d.find t.name = some t.ino) (hne : t.name ≠ dest) :
    Touches dest d (some t) (d.unlink t.name) (some t)

def PublicationError.isDurability : PublicationError → Bool
  | .publishDurability .. => true
  | _ => false

/-- The results of a call that passed the publish point. -/
def publishes : Except PublicationError PublishedPackage → Bool
  | .ok _ => true
  | .error e => e.isDurability

/-- A temporary that its call holds under its name and has not published. -/
structure Temporary.Held (dest : String) (d : PublishDir) (temp : Option Temporary) (created : Bool) (t : Temporary) :
    Prop where
  temp : temp = some t
  name : d.find t.name = some t.ino
  ne : t.name ≠ dest
  created : created = false

/-- What holds of a call at each of its system calls. -/
def PublishPhase.Sound (dest : String) (d : PublishDir) (file : Bytes) (temp : Option Temporary) (created : Bool) :
    PublishPhase → Prop
  | .opening => temp = none ∧ created = false
  | .inspecting => temp = none ∧ created = false
  | .creating _ => temp = none ∧ created = false
  | .reading pos => ∃ t, Temporary.Held dest d temp created t ∧ d.nodes[t.ino]? = some (file.take pos)
  | .writing pos chunk =>
    ∃ t, Temporary.Held dest d temp created t ∧ d.nodes[t.ino]? = some (file.take pos) ∧
      file.take pos ++ chunk = file.take (pos + chunk.length)
  | .syncing => ∃ t pos, Temporary.Held dest d temp created t ∧ d.nodes[t.ino]? = some (file.take pos)
  | .verifying => ∃ t pos, Temporary.Held dest d temp created t ∧ d.nodes[t.ino]? = some (file.take pos)
  | .linking => ∃ t, Temporary.Held dest d temp created t ∧ d.nodes[t.ino]? = some file
  | .classifying _ => ∃ t, Temporary.Held dest d temp created t
  | .dropping e => e.isDurability = false ∧ ∃ t, Temporary.Held dest d temp created t
  | .removing => created = true ∧ ∃ t, temp = some t ∧ d.find t.name = some t.ino ∧ t.name ≠ dest
  | .syncingParent => created = true
  | .returned result => created = publishes result

/-- A call as it stands: its temporary is an inode of its own, which is the destination's exactly when the call
created the destination, and then holds the retained bytes whole. -/
structure PublishCall.Sound (sha256 : Bytes → Bytes) (dest : String) (old : Nat) (d : PublishDir) (c : PublishCall) :
    Prop where
  counted : c.bytes.Counted sha256
  temp : ∀ t, c.temp = some t → old ≤ t.ino ∧ t.ino < d.nodes.length
  created : c.created = true →
    ∃ t, c.temp = some t ∧ d.find dest = some t.ino ∧ d.nodes[t.ino]? = some c.bytes.file
  absent : c.created = false → ∀ t, c.temp = some t → d.find dest ≠ some t.ino
  phase : c.phase.Sound dest d c.bytes.file c.temp c.created

/-- Two calls have different temporaries, and do not both create the destination. -/
def PublishCall.Apart (c c' : PublishCall) : Prop :=
  (∀ t t', c.temp = some t → c'.temp = some t' → t.ino ≠ t'.ino) ∧ ¬ (c.created = true ∧ c'.created = true)

theorem PublishCall.Apart.symm {c c' : PublishCall} (h : c.Apart c') : c'.Apart c :=
  ⟨fun t t' ht ht' => (h.1 t' t ht' ht).symm, fun hboth => h.2 hboth.symm⟩

/-- What no publication changes of the directory it finds: its entries, and the inodes under them. -/
structure PublishDir.Keeps (before d : PublishDir) : Prop where
  find : ∀ {name ino}, before.find name = some ino → d.find name = some ino
  nodes : ∀ {ino}, ino < before.nodes.length → d.nodes[ino]? = before.nodes[ino]?
  length : before.nodes.length ≤ d.nodes.length
  valid : ∀ {name ino}, d.find name = some ino → ino < d.nodes.length

section Touches
variable {sha256 : Bytes → Bytes} {dest : String} {before d d' : PublishDir} {t t' : Option Temporary}
  {c : PublishCall} {old : Nat}

theorem PublishDir.Touches.length (h : d.Touches dest t d' t') : d.nodes.length ≤ d'.nodes.length := by
  cases h with
  | creates => exact Links.Dir.length_create (d := d) ▸ Nat.le_succ _
  | writes => exact Links.Dir.length_modify.ge
  | _ => exact le_rfl

theorem PublishDir.Touches.temp (h : d.Touches dest t d' t') :
    t' = t ∨ ∃ new, t' = some new ∧ new.ino = d.nodes.length := by
  cases h with
  | creates => exact .inr ⟨_, rfl, rfl⟩
  | _ => exact .inl rfl

/-- An entry keeps its inode, unless it is the call's own temporary being removed. -/
theorem PublishDir.Touches.entry {name : String} {ino : Nat} (h : d.Touches dest t d' t')
    (hname : d.find name = some ino) :
    d'.find name = some ino ∨ d'.find name = none ∧ name ≠ dest ∧ t = some ⟨name, ino⟩ := by
  cases h with
  | nothing => exact .inl hname
  | creates hnone _ =>
    have hne : name ≠ _ := fun heq => by rw [heq, hnone] at hname; cases hname
    exact .inl ((Links.Dir.find_create_ne hne).trans hname)
  | writes => exact .inl hname
  | links _ hnone =>
    have hne : name ≠ dest := fun heq => by rw [heq, hnone] at hname; cases hname
    exact .inl ((Links.Dir.find_link_ne hne).trans hname)
  | @unlinks own hown hdest =>
    by_cases heq : name = own.name
    · subst heq
      obtain rfl := Option.some.inj (hown.symm.trans hname)
      exact .inr ⟨Links.Dir.find_unlink_self, hdest, rfl⟩
    · exact .inl ((Links.Dir.find_unlink_ne heq).trans hname)

theorem PublishDir.Touches.find {name : String} {ino : Nat} (h : d.Touches dest t d' t') (hname : d.find name = some ino)
    (hino : ∀ own, t = some own → own.ino ≠ ino) : d'.find name = some ino := by
  rcases h.entry hname with hsame | ⟨-, -, hown⟩
  · exact hsame
  · exact absurd rfl (hino _ hown)

/-- An inode that is another call's or nobody's keeps what it holds. -/
theorem PublishDir.Touches.nodes {ino : Nat} (h : d.Touches dest t d' t') (hlt : ino < d.nodes.length)
    (hino : ∀ own, t = some own → own.ino ≠ ino) : d'.nodes[ino]? = d.nodes[ino]? := by
  cases h with
  | nothing => rfl
  | creates => exact Links.Dir.nodes_create hlt
  | @writes own => exact Links.Dir.nodes_modify_ne (hino own rfl).symm
  | links => rfl
  | unlinks => rfl

/-- The destination stays as it is, or comes to be the temporary of the call. -/
theorem PublishDir.Touches.find_dest (h : d.Touches dest t d' t') :
    d'.find dest = d.find dest ∨ ∃ own, t = some own ∧ d.find dest = none ∧ d'.find dest = some own.ino := by
  cases h with
  | nothing => exact .inl rfl
  | creates _ hne => exact .inl (Links.Dir.find_create_ne hne.symm)
  | writes => exact .inl rfl
  | links _ hnone => exact .inr ⟨_, rfl, hnone, Links.Dir.find_link_self⟩
  | unlinks _ hne => exact .inl (Links.Dir.find_unlink_ne hne.symm)

theorem PublishDir.Keeps.touches (h : before.Keeps d) (hd : d.Touches dest t d' t')
    (hvalid : ∀ {name ino}, before.find name = some ino → ino < before.nodes.length)
    (hown : ∀ own, t = some own → before.nodes.length ≤ own.ino ∧ own.ino < d.nodes.length) : before.Keeps d' := by
  have hne {ino : Nat} (hlt : ino < before.nodes.length) : ∀ own, t = some own → own.ino ≠ ino :=
    fun own ht => (hlt.trans_le (hown own ht).1).ne'
  refine ⟨fun hname => hd.find (h.find hname) (hne (hvalid hname)), fun hlt => ?_, h.length.trans hd.length, ?_⟩
  · rw [hd.nodes (hlt.trans_le h.length) (hne hlt), h.nodes hlt]
  · intro name ino hname
    cases hd with
    | nothing => exact h.valid hname
    | @creates new hnone _ =>
      rw [Links.Dir.length_create]
      by_cases heq : name = new
      · rw [heq, Links.Dir.find_create_self] at hname
        exact Option.some.inj hname ▸ Nat.lt_succ_self _
      · rw [Links.Dir.find_create_ne heq] at hname
        exact (h.valid hname).trans (Nat.lt_succ_self _)
    | writes => exact Links.Dir.length_modify.symm ▸ h.valid hname
    | @links own hown' _ =>
      by_cases heq : name = dest
      · rw [heq, Links.Dir.find_link_self] at hname
        exact Option.some.inj hname ▸ h.valid hown'
      · rw [Links.Dir.find_link_ne heq] at hname
        exact h.valid hname
    | @unlinks own _ _ =>
      by_cases heq : name = own.name
      · rw [heq, Links.Dir.find_unlink_self] at hname
        cases hname
      · rw [Links.Dir.find_unlink_ne heq] at hname
        exact h.valid hname

theorem Temporary.Held.touches {temp : Option Temporary} {created : Bool} {mine : Temporary}
    (h : Temporary.Held dest d temp created mine) (hd : d.Touches dest t d' t')
    (hino : ∀ own, t = some own → own.ino ≠ mine.ino) : Temporary.Held dest d' temp created mine :=
  ⟨h.temp, hd.find h.name hino, h.ne, h.created⟩

/-- What a call holds is left alone by the steps of another. -/
theorem PublishCall.Sound.touches (h : c.Sound sha256 dest old d) (hd : d.Touches dest t d' t')
    (hino : ∀ own mine, t = some own → c.temp = some mine → own.ino ≠ mine.ino) : c.Sound sha256 dest old d' := by
  have hnodes {mine : Temporary} (hmine : c.temp = some mine) : d'.nodes[mine.ino]? = d.nodes[mine.ino]? :=
    hd.nodes (h.temp mine hmine).2 fun own ht => hino own mine ht hmine
  have howns {mine : Temporary} (ho : Temporary.Held dest d c.temp c.created mine) :
      Temporary.Held dest d' c.temp c.created mine :=
    ho.touches hd fun own ht => hino own mine ht ho.temp
  refine ⟨h.counted, fun mine hmine => ?_, fun hcreated => ?_, fun habsent mine hmine => ?_, ?_⟩
  · exact (h.temp mine hmine).imp_right fun hlt => hlt.trans_le hd.length
  · obtain ⟨mine, hmine, hdest, hfile⟩ := h.created hcreated
    exact ⟨mine, hmine, hd.find hdest fun own ht => hino own mine ht hmine, (hnodes hmine).trans hfile⟩
  · rcases hd.find_dest with hsame | ⟨own, ht, -, hdest⟩
    · exact hsame ▸ h.absent habsent mine hmine
    · rw [hdest]
      exact fun heq => hino own mine ht hmine (Option.some.inj heq)
  · have hphase := h.phase
    cases hp : c.phase with
    | opening | inspecting | creating _ | syncingParent | returned _ => rwa [hp] at hphase
    | reading pos =>
      rw [hp] at hphase
      obtain ⟨mine, ho, hfile⟩ := hphase
      exact ⟨mine, howns ho, (hnodes ho.temp).trans hfile⟩
    | writing pos chunk =>
      rw [hp] at hphase
      obtain ⟨mine, ho, hfile, hchunk⟩ := hphase
      exact ⟨mine, howns ho, (hnodes ho.temp).trans hfile, hchunk⟩
    | syncing | verifying =>
      rw [hp] at hphase
      obtain ⟨mine, pos, ho, hfile⟩ := hphase
      exact ⟨mine, pos, howns ho, (hnodes ho.temp).trans hfile⟩
    | linking =>
      rw [hp] at hphase
      obtain ⟨mine, ho, hfile⟩ := hphase
      exact ⟨mine, howns ho, (hnodes ho.temp).trans hfile⟩
    | classifying source =>
      rw [hp] at hphase
      obtain ⟨mine, ho⟩ := hphase
      exact ⟨mine, howns ho⟩
    | dropping error =>
      rw [hp] at hphase
      obtain ⟨herror, mine, ho⟩ := hphase
      exact ⟨herror, mine, howns ho⟩
    | removing =>
      rw [hp] at hphase
      obtain ⟨hcreated, mine, hmine, hname, hne⟩ := hphase
      exact ⟨hcreated, mine, hmine, hd.find hname fun own ht => hino own mine ht hmine, hne⟩

end Touches

section Steps
variable {sha256 : Bytes → Bytes} {dest : Destination} {old : Nat} {d d' : PublishDir} {c c' : PublishCall}
  {m : PublishMove}

/-- A step other than the one that publishes. -/
structure PublishCall.Steps (sha256 : Bytes → Bytes) (dest : String) (old : Nat) (d : PublishDir) (c : PublishCall)
    (d' : PublishDir) (c' : PublishCall) : Prop where
  touches : d.Touches dest c.temp d' c'.temp
  sound : c'.Sound sha256 dest old d'
  created : c'.created = c.created
  find : d'.find dest = d.find dest

theorem PublishCall.Sound.goes {phase : PublishPhase} (h : c.Sound sha256 dest.name old d)
    (hphase : phase.Sound dest.name d c.bytes.file c.temp c.created) :
    c.Steps sha256 dest.name old d d (c.goes phase) :=
  ⟨.nothing, ⟨h.counted, h.temp, h.created, h.absent, hphase⟩, rfl, rfl⟩

theorem PublishCall.Sound.fails {t : Temporary} {e : PublicationError} (h : c.Sound sha256 dest.name old d)
    (ht : Temporary.Held dest.name d c.temp c.created t) (he : e.isDurability = false) :
    c.Steps sha256 dest.name old d d (c.fails e) :=
  h.goes ⟨he, t, ht⟩

theorem PublishCall.Sound.createTemporary {attempts : Nat} {draw : Except IoError Bytes} {fault : Option IoError}
    (h : c.Sound sha256 dest.name old d) (htemp : c.temp = none) (hcreated : c.created = false)
    (hold : old ≤ d.nodes.length) (hvalid : ∀ {name ino}, d.find name = some ino → ino < d.nodes.length)
    (hdraw : ∀ bytes, draw = .ok bytes → temporaryName bytes ≠ dest.name) :
    c.Steps sha256 dest.name old d (c.createTemporary dest d attempts draw fault).1
      (c.createTemporary dest d attempts draw fault).2 := by
  rcases draw with e | bytes
  · exact h.goes hcreated
  have hne := hdraw bytes rfl
  cases hcreate : d.createExclusive (temporaryName bytes) fault with
  | error e =>
    simp only [PublishCall.createTemporary, hcreate]
    split
    · exact h.goes ⟨htemp, hcreated⟩
    · exact h.goes hcreated
  | ok d' =>
    obtain ⟨hnone, rfl⟩ : d.find (temporaryName bytes) = none ∧ d.create (temporaryName bytes) [] = d' := by
      rcases fault with - | e
      · by_cases hnone : d.find (temporaryName bytes) = none
        · rw [PublishDir.createExclusive, if_pos hnone] at hcreate
          exact ⟨hnone, Except.ok.inj hcreate⟩
        · rw [PublishDir.createExclusive, if_neg hnone] at hcreate
          cases hcreate
      · cases hcreate
    simp only [PublishCall.createTemporary, hcreate]
    have hdest : (d.create (temporaryName bytes) []).find dest.name = d.find dest.name := Links.Dir.find_create_ne hne.symm
    refine ⟨htemp.symm ▸ .creates hnone hne, ⟨h.counted, ?_, ?_, ?_, ?_⟩, rfl, hdest⟩
    · intro t ht
      obtain rfl := Option.some.inj ht
      exact ⟨hold, (Links.Dir.length_create (d := d)).symm ▸ Nat.lt_succ_self _⟩
    · intro habs
      rw [show c.created = true from habs] at hcreated
      cases hcreated
    · intro _ t ht heq
      obtain rfl := Option.some.inj ht
      rw [hdest] at heq
      exact absurd (hvalid heq) (Nat.lt_irrefl _)
    · exact ⟨_, ⟨rfl, Links.Dir.find_create_self, hne, hcreated⟩, Links.Dir.nodes_create_new⟩

theorem PublishCall.Sound.readRetained {pos : Nat} {answer : Except IoError Nat} {t : Temporary}
    (h : c.Sound sha256 dest.name old d) (ht : Temporary.Held dest.name d c.temp c.created t)
    (hfile : d.nodes[t.ino]? = some (c.bytes.file.take pos)) :
    c.Steps sha256 dest.name old d d (c.readRetained pos answer) := by
  rcases answer with e | n
  · exact h.fails ht rfl
  simp only [PublishCall.readRetained]
  split
  · exact h.fails ht rfl
  split
  · exact h.goes ⟨t, pos, ht, hfile⟩
  next hchunk =>
    refine h.goes ⟨t, ht, hfile, ?_⟩
    rw [List.take_add, ← List.prefix_iff_eq_take.mp (List.take_prefix ..)]

/-- A write to the temporary. -/
theorem PublishCall.Sound.appends {t : Temporary} {bytes : Bytes} {phase : PublishPhase}
    (h : c.Sound sha256 dest.name old d) (ht : Temporary.Held dest.name d c.temp c.created t)
    (hphase : phase.Sound dest.name (d.append t.ino bytes) c.bytes.file c.temp c.created) :
    c.Steps sha256 dest.name old d (d.append t.ino bytes) (c.goes phase) := by
  have hdest := h.absent ht.created t ht.temp
  refine ⟨?_, ⟨h.counted, fun own hown => ?_, fun hcreated => ?_, h.absent, hphase⟩, rfl, rfl⟩
  · show d.Touches dest.name c.temp _ c.temp
    rw [ht.temp]
    exact .writes hdest
  · exact (h.temp own hown).imp_right fun hlt => hlt.trans_eq Links.Dir.length_modify.symm
  · rw [show c.created = true from hcreated] at ht
    exact absurd ht.created (by decide)

theorem PublishCall.Sound.writeTemporary {path : String} {t : Temporary} {pos : Nat} {chunk : Bytes} {granted : Nat}
    {fault : Option (Nat × IoError)} (h : c.Sound sha256 dest.name old d)
    (ht : Temporary.Held dest.name d c.temp c.created t) (hfile : d.nodes[t.ino]? = some (c.bytes.file.take pos))
    (hchunk : c.bytes.file.take pos ++ chunk = c.bytes.file.take (pos + chunk.length)) :
    c.Steps sha256 dest.name old d (c.writeTemporary path d t pos chunk granted fault).1
      (c.writeTemporary path d t pos chunk granted fault).2 := by
  have hheld {bytes : Bytes} : Temporary.Held dest.name (d.append t.ino bytes) c.temp c.created t :=
    ⟨ht.temp, ht.name, ht.ne, ht.created⟩
  rcases fault with - | ⟨landed, e⟩
  · simp only [PublishCall.writeTemporary]
    split
    · exact h.appends ht ⟨rfl, t, hheld⟩
    next hgranted =>
      refine h.appends ht ⟨t, hheld, ?_⟩
      rw [PublishDir.append, Links.Dir.nodes_modify_self hfile, List.take_of_length_le (Nat.not_lt.mp hgranted), hchunk]
  · exact h.appends ht ⟨rfl, t, hheld⟩

/-- The removal of the temporary. -/
theorem PublishCall.Sound.unlinks {t : Temporary} {phase : PublishPhase} (h : c.Sound sha256 dest.name old d)
    (htemp : c.temp = some t) (hname : d.find t.name = some t.ino) (hne : t.name ≠ dest.name)
    (hphase : phase.Sound dest.name (d.unlink t.name) c.bytes.file c.temp c.created) :
    c.Steps sha256 dest.name old d (d.unlink t.name) (c.goes phase) := by
  have hdest : Links.Dir.find (d.unlink t.name) dest.name = d.find dest.name := Links.Dir.find_unlink_ne hne.symm
  refine ⟨?_, ⟨h.counted, h.temp, fun hcreated => ?_, fun habsent own hown => ?_, hphase⟩, rfl, hdest⟩
  · show d.Touches dest.name c.temp _ c.temp
    rw [htemp]
    exact .unlinks hname hne
  · obtain ⟨own, hown, hfind, hfile⟩ := h.created hcreated
    exact ⟨own, hown, hdest.trans hfind, hfile⟩
  · rw [hdest]
    exact h.absent habsent own hown

/-- A read-back that agrees with what was retained has found it whole. -/
theorem PublishCall.Sound.verify {path : String} {t : Temporary} {pos : Nat} (h : c.Sound sha256 dest.name old d)
    (ht : Temporary.Held dest.name d c.temp c.created t) (hfile : d.nodes[t.ino]? = some (c.bytes.file.take pos)) :
    c.Steps sha256 dest.name old d d (c.verify sha256 path (c.bytes.file.take pos)) := by
  simp only [PublishCall.verify]
  split
  · exact h.fails ht rfl
  next hlen =>
    split
    · exact h.fails ht rfl
    · have hwhole : c.bytes.file.length ≤ pos := by
        have := not_not.mp hlen
        rw [h.counted.len, List.length_take] at this
        omega
      rw [List.take_of_length_le hwhole] at hfile
      exact h.goes ⟨t, ht, hfile⟩

theorem PublishDir.linkat_ok {name target : String} {ino : Nat} {fault : Option IoError} (hname : d.find name = some ino)
    (h : d.linkat name target fault = .ok d') : d.find target = none ∧ d' = d.link target ino := by
  rcases fault with - | e
  · simp only [PublishDir.linkat, hname] at h
    cases htarget : d.find target with
    | none =>
      rw [htarget] at h
      exact ⟨rfl, (Except.ok.inj h).symm⟩
    | some _ =>
      rw [htarget] at h
      cases h
  · cases h

theorem PublishDir.unlinkat_ok {name : String} {fault : Option IoError} (h : d.unlinkat name fault = .ok d') :
    d' = d.unlink name := by
  rcases fault with - | e
  · simp only [PublishDir.unlinkat] at h
    split at h
    · cases h
    · exact (Except.ok.inj h).symm
  · cases h

/-- What a step is: one that publishes nothing, or the link of the whole retained bytes to an absent destination. -/
theorem PublishCall.Sound.step (h : c.Sound sha256 dest.name old d) (hold : old ≤ d.nodes.length)
    (hvalid : ∀ {name ino}, d.find name = some ino → ino < d.nodes.length)
    (hdraw : ∀ bytes fault, m = .create (.ok bytes) fault → temporaryName bytes ≠ dest.name)
    (hstep : c.step sha256 dest m d = some (d', c')) :
    c.Steps sha256 dest.name old d d' c' ∨
    ∃ t, Temporary.Held dest.name d c.temp c.created t ∧ d.nodes[t.ino]? = some c.bytes.file ∧
      d.find dest.name = none ∧ d' = d.link dest.name t.ino ∧ c' = c.goes .removing := by
  have hphase := h.phase
  cases hp : c.phase with
  | opening =>
    rw [hp] at hphase
    cases m with
    | openParent refusal =>
      rcases refusal with - | refusal <;> simp only [PublishCall.step, hp] at hstep <;>
        obtain ⟨rfl, rfl⟩ := Prod.mk.inj (Option.some.inj hstep)
      · exact .inl (h.goes hphase)
      · exact .inl (h.goes (by cases refusal <;> exact hphase.2))
    | _ => simp only [PublishCall.step, hp, reduceCtorEq] at hstep
  | inspecting =>
    rw [hp] at hphase
    cases m with
    | inspect fault =>
      simp only [PublishCall.step, hp] at hstep
      split at hstep
      · obtain ⟨rfl, rfl⟩ := Prod.mk.inj (Option.some.inj hstep)
        exact .inl (h.goes hphase.2)
      · split at hstep <;> obtain ⟨rfl, rfl⟩ := Prod.mk.inj (Option.some.inj hstep)
        · exact .inl (h.goes hphase)
        · exact .inl (h.goes hphase.2)
    | _ => simp only [PublishCall.step, hp, reduceCtorEq] at hstep
  | creating attempts =>
    rw [hp] at hphase
    cases m with
    | create draw fault =>
      simp only [PublishCall.step, hp] at hstep
      obtain ⟨rfl, rfl⟩ := Prod.mk.inj (Option.some.inj hstep)
      refine .inl (h.createTemporary hphase.1 hphase.2 hold hvalid ?_)
      rintro bytes rfl
      exact hdraw bytes fault rfl
    | _ => simp only [PublishCall.step, hp, reduceCtorEq] at hstep
  | reading pos =>
    rw [hp] at hphase
    obtain ⟨t, ht, hfile⟩ := hphase
    cases m with
    | read answer =>
      simp only [PublishCall.step, hp] at hstep
      obtain ⟨rfl, rfl⟩ := Prod.mk.inj (Option.some.inj hstep)
      exact .inl (h.readRetained ht hfile)
    | _ => simp only [PublishCall.step, hp, reduceCtorEq] at hstep
  | writing pos chunk =>
    rw [hp] at hphase
    obtain ⟨t, ht, hfile, hchunk⟩ := hphase
    cases m with
    | write granted fault =>
      simp only [PublishCall.step, hp, ht.temp] at hstep
      obtain ⟨rfl, rfl⟩ := Prod.mk.inj (Option.some.inj hstep)
      exact .inl (h.writeTemporary ht hfile hchunk)
    | _ => simp only [PublishCall.step, hp, reduceCtorEq] at hstep
  | syncing =>
    rw [hp] at hphase
    obtain ⟨t, pos, ht, hfile⟩ := hphase
    cases m with
    | sync fault =>
      rcases fault with - | e <;> simp only [PublishCall.step, hp, ht.temp] at hstep <;>
        obtain ⟨rfl, rfl⟩ := Prod.mk.inj (Option.some.inj hstep)
      · exact .inl (h.goes ⟨t, pos, ht, hfile⟩)
      · exact .inl (h.fails ht rfl)
    | _ => simp only [PublishCall.step, hp, reduceCtorEq] at hstep
  | verifying =>
    rw [hp] at hphase
    obtain ⟨t, pos, ht, hfile⟩ := hphase
    cases m with
    | verify fault =>
      rcases fault with - | e <;> simp only [PublishCall.step, hp, ht.temp, hfile, Option.map_some] at hstep <;>
        obtain ⟨rfl, rfl⟩ := Prod.mk.inj (Option.some.inj hstep)
      · exact .inl (h.verify ht hfile)
      · exact .inl (h.fails ht rfl)
    | _ => simp only [PublishCall.step, hp, reduceCtorEq] at hstep
  | linking =>
    rw [hp] at hphase
    obtain ⟨t, ht, hfile⟩ := hphase
    cases m with
    | link fault =>
      simp only [PublishCall.step, hp, ht.temp] at hstep
      split at hstep <;> obtain ⟨rfl, rfl⟩ := Prod.mk.inj (Option.some.inj hstep)
      next hlink =>
        obtain ⟨hnone, rfl⟩ := PublishDir.linkat_ok ht.name hlink
        exact .inr ⟨t, ht, hfile, hnone, rfl, rfl⟩
      · exact .inl (h.goes ⟨t, ht⟩)
    | _ => simp only [PublishCall.step, hp, reduceCtorEq] at hstep
  | classifying source =>
    rw [hp] at hphase
    obtain ⟨t, ht⟩ := hphase
    cases m with
    | inspect fault =>
      simp only [PublishCall.step, hp] at hstep
      split at hstep <;> obtain ⟨rfl, rfl⟩ := Prod.mk.inj (Option.some.inj hstep) <;> exact .inl (h.fails ht rfl)
    | _ => simp only [PublishCall.step, hp, reduceCtorEq] at hstep
  | dropping error =>
    rw [hp] at hphase
    obtain ⟨herror, t, ht⟩ := hphase
    have hreturned : c.created = publishes (.error error) := ht.created.trans herror.symm
    cases m with
    | unlink fault =>
      simp only [PublishCall.step, hp, ht.temp] at hstep
      split at hstep <;> obtain ⟨rfl, rfl⟩ := Prod.mk.inj (Option.some.inj hstep)
      next hunlink =>
        obtain rfl := PublishDir.unlinkat_ok hunlink
        exact .inl (h.unlinks ht.temp ht.name ht.ne hreturned)
      · exact .inl (h.goes hreturned)
    | _ => simp only [PublishCall.step, hp, reduceCtorEq] at hstep
  | removing =>
    rw [hp] at hphase
    obtain ⟨hcreated, t, htemp, hname, hne⟩ := hphase
    cases m with
    | unlink fault =>
      simp only [PublishCall.step, hp, htemp] at hstep
      split at hstep <;> obtain ⟨rfl, rfl⟩ := Prod.mk.inj (Option.some.inj hstep)
      next hunlink =>
        obtain rfl := PublishDir.unlinkat_ok hunlink
        exact .inl (h.unlinks htemp hname hne hcreated)
      · exact .inl (h.goes hcreated)
    | _ => simp only [PublishCall.step, hp, reduceCtorEq] at hstep
  | syncingParent =>
    rw [hp] at hphase
    cases m with
    | syncParent fault =>
      rcases fault with - | e <;> simp only [PublishCall.step, hp] at hstep <;>
        obtain ⟨rfl, rfl⟩ := Prod.mk.inj (Option.some.inj hstep) <;> exact .inl (h.goes hphase)
    | _ => simp only [PublishCall.step, hp, reduceCtorEq] at hstep
  | returned result => simp only [PublishCall.step, hp, reduceCtorEq] at hstep

/-- A step of a call that does not draw the destination's own name. -/
theorem PublishCall.Sound.act (h : c.Sound sha256 dest.name old d) (hold : old ≤ d.nodes.length)
    (hvalid : ∀ {name ino}, d.find name = some ino → ino < d.nodes.length) (hdraw : m.drawn ≠ some dest.name)
    (hact : c.act sha256 dest m d = some (d', c')) :
    d.Touches dest.name c.temp d' c'.temp ∧ c'.Sound sha256 dest.name old d' ∧
      (c'.created = c.created ∧ d'.find dest.name = d.find dest.name ∨
        d.find dest.name = none ∧ c'.created = true) := by
  obtain ⟨⟨d', c₁⟩, hstep, hact⟩ := Option.map_eq_some_iff.mp hact
  obtain ⟨rfl, rfl⟩ := Prod.mk.inj hact
  have hname {bytes : Bytes} {fault : Option IoError} (hm : m = .create (.ok bytes) fault) :
      temporaryName bytes ≠ dest.name := fun heq => hdraw (by rw [hm, ← heq]; rfl)
  rcases h.step hold hvalid (fun _ _ => hname) hstep with hsteps | ⟨t, ht, hfile, hnone, rfl, rfl⟩
  · have hflag : (c.created || (d.find dest.name == none && d'.find dest.name != none)) = c₁.created := by
      rw [hsteps.find, hsteps.created]
      cases d.find dest.name <;> simp
    rw [hflag]
    exact ⟨hsteps.touches, hsteps.sound, .inl ⟨hsteps.created, hsteps.find⟩⟩
  · have hflag : (c.created || (d.find dest.name == none && (d.link dest.name t.ino).find dest.name != none)) = true := by
      rw [hnone, Links.Dir.find_link_self]
      simp
    rw [hflag]
    refine ⟨?_, ⟨h.counted, h.temp, fun _ => ?_, nofun, rfl, t, ht.temp, ?_, ht.ne⟩,
      .inr ⟨hnone, rfl⟩⟩
    · show d.Touches dest.name c.temp _ c.temp
      rw [ht.temp]
      exact .links ht.name hnone
    · exact ⟨t, ht.temp, Links.Dir.find_link_self, hfile⟩
    · exact (Links.Dir.find_link_ne ht.ne).trans ht.name

end Steps

section Runs
variable {sha256 : Bytes → Bytes} {dest : Destination} {before : PublishDir}
  {visited : List (Pool.State PublishDir PublishCall)} {p p' : Pool.State PublishDir PublishCall}

/-- The calls whose draws are not the destination's own name. -/
def publishCallsBeside (sha256 : Bytes → Bytes) (dest : Destination) :
    Pool.System (PublishRequest sha256) PublishMove PublishDir PublishCall :=
  (publishCalls sha256 dest).only fun m _ _ => m.drawn ≠ some dest.name

/-- What holds of the directory and of all calls together. -/
structure Published (sha256 : Bytes → Bytes) (dest : Destination) (before : PublishDir)
    (p : Pool.State PublishDir PublishCall) : Prop where
  holds : p.Holds before.Keeps (PublishCall.Sound sha256 dest.name before.nodes.length) PublishCall.Apart
  dest : p.shared.find dest.name = before.find dest.name ∨
    before.find dest.name = none ∧ ∃ a ∈ p.agents, a.created = true

theorem Published.join (h : Published sha256 dest before p) (request : PublishRequest sha256) :
    Published sha256 dest before (p.join ((publishCallsBeside sha256 dest).joins request)) where
  holds := by
    refine h.holds.join ⟨request.counted, nofun, nofun, fun _ => nofun, rfl, rfl⟩ fun b _ => ⟨⟨nofun, ?_⟩, fun _ _ _ => nofun, ?_⟩
    · rintro ⟨habs, -⟩
      cases habs
    · rintro ⟨-, habs⟩
      cases habs
  dest := h.dest.imp_right (.imp_right fun ⟨a, ha, hcreated⟩ => ⟨a, Pool.State.mem_join.mpr (.inl ha), hcreated⟩)

theorem Published.moved {i : Nat} {m : PublishMove} {c c' : PublishCall} {d : PublishDir}
    (h : Published sha256 dest before p)
    (hvalid : ∀ {name ino}, before.find name = some ino → ino < before.nodes.length) (hc : p.agents[i]? = some c)
    (hact : (publishCallsBeside sha256 dest).act m p.shared c = some (d, c')) :
    Published sha256 dest before (p.moved i d c') := by
  obtain ⟨hdraw, hact⟩ := Pool.System.act_only hact
  have hkeeps := h.holds.shared
  have hsound := h.holds.agent hc
  obtain ⟨htouches, hsound', hcreated⟩ := hsound.act hkeeps.length hkeeps.valid hdraw hact
  constructor
  · refine h.holds.moved hc (hkeeps.touches htouches hvalid hsound.temp) hsound' fun b hb hcb _ => ?_
    have hapart : c'.Apart b := by
      refine ⟨fun t t' ht ht' => ?_, fun ⟨hc', hb'⟩ => ?_⟩
      · rcases htouches.temp with hsame | ⟨new, hnew, hino⟩
        · exact hcb.1 t t' (hsame ▸ ht) ht'
        · obtain rfl := Option.some.inj (hnew.symm.trans ht)
          exact hino ▸ (hb.temp t' ht').2.ne'
      · rcases hcreated with ⟨hsame, -⟩ | ⟨hnone, -⟩
        · exact hcb.2 ⟨hsame ▸ hc', hb'⟩
        · obtain ⟨t, -, hfind, -⟩ := hb.created hb'
          rw [hnone] at hfind
          cases hfind
    exact ⟨hb.touches htouches hcb.1, hapart, hapart.symm⟩
  · rcases hcreated with ⟨hsame, hdest⟩ | ⟨hnone, hcreated⟩
    · refine h.dest.imp hdest.trans (.imp_right fun ⟨a, ha, hacreated⟩ => ?_)
      rcases Pool.State.mem_moved_of_mem hc ha with rfl | ha
      · exact ⟨c', Pool.State.moved_mem hc, hsame.trans hacreated⟩
      · exact ⟨a, ha, hacreated⟩
    · refine .inr ⟨?_, c', Pool.State.moved_mem hc, hcreated⟩
      by_contra hsome
      obtain ⟨ino, hino⟩ := Option.ne_none_iff_exists'.mp hsome
      rw [hkeeps.find hino] at hnone
      cases hnone

theorem Published.of_passes (hvalid : ∀ name ino, before.find name = some ino → ino < before.nodes.length)
    (h : Pool.Passes (publishCallsBeside sha256 dest) ⟨before, []⟩ visited p) : Published sha256 dest before p := by
  refine h.invariant ⟨⟨⟨id, fun _ => rfl, le_rfl, hvalid _ _⟩, nofun, nofun⟩, .inl rfl⟩ (fun q q' e hq hs => ?_) p h.mem
  rcases Pool.System.step_cases hs with ⟨request, -, rfl⟩ | ⟨i, m, c, d, c', -, hc, hact, rfl⟩
  · exact hq.join request
  · exact hq.moved (hvalid _ _) hc hact

/-- No step takes an entry from its inode, but for a call that removes its own temporary. -/
theorem Published.step_entry {e : Pool.Event (PublishRequest sha256) PublishMove} {name : String} {ino : Nat}
    (h : Published sha256 dest before p) (hstep : (publishCallsBeside sha256 dest).step p e = some p')
    (hname : p.shared.find name = some ino) :
    p'.shared.find name = some ino ∨
    p'.shared.find name = none ∧ name ≠ dest.name ∧
      ∃ i m c, e = .acts i m ∧ p.agents[i]? = some c ∧ c.temp = some ⟨name, ino⟩ := by
  rcases Pool.System.step_cases hstep with ⟨request, -, rfl⟩ | ⟨i, m, c, d, c', rfl, hc, hact, rfl⟩
  · exact .inl hname
  obtain ⟨hdraw, hact⟩ := Pool.System.act_only hact
  have hkeeps := h.holds.shared
  obtain ⟨htouches, -, -⟩ := (h.holds.agent hc).act hkeeps.length hkeeps.valid hdraw hact
  exact (htouches.entry hname).imp_right fun ⟨hnone, hne, htemp⟩ => ⟨hnone, hne, i, m, c, rfl, hc, htemp⟩

/-- Interleaved publications to one destination, none of which draws the destination's own name: no entry is
replaced, and none removed but a call's own temporary; at most one call creates the destination, which is what it was
before or holds the whole retained bytes of the call that created it; and a call has created it exactly when it
returns without an error or with one of durability. -/
theorem publishFile_runs (hvalid : ∀ name ino, before.find name = some ino → ino < before.nodes.length)
    (h : Pool.Passes (publishCallsBeside sha256 dest) ⟨before, []⟩ visited p) :
    (∀ name ino, before.find name = some ino →
      p.shared.find name = some ino ∧ p.shared.nodes[ino]? = before.nodes[ino]?) ∧
    (∀ e p', (publishCallsBeside sha256 dest).step p e = some p' → ∀ name ino, p.shared.find name = some ino →
      p'.shared.find name = some ino ∨
      p'.shared.find name = none ∧ name ≠ dest.name ∧
        ∃ i m c, e = .acts i m ∧ p.agents[i]? = some c ∧ c.temp = some ⟨name, ino⟩) ∧
    (∀ (i j : Nat) (a b : PublishCall), p.agents[i]? = some a → p.agents[j]? = some b → a.created = true → b.created = true → i = j) ∧
    (p.shared.find dest.name = before.find dest.name ∨
      before.find dest.name = none ∧ ∃ a ∈ p.agents, a.created = true ∧ ∃ ino, p.shared.find dest.name = some ino ∧
        p.shared.nodes[ino]? = some a.bytes.file ∧
        a.bytes.file.length = a.bytes.len ∧ sha256 a.bytes.file = a.bytes.sha256) ∧
    ∀ a ∈ p.agents, ∀ result, a.phase = .returned result → a.created = publishes result := by
  have hp := Published.of_passes hvalid h
  refine ⟨fun name ino hname => ⟨hp.holds.shared.find hname, hp.holds.shared.nodes (hvalid _ _ hname)⟩,
    fun e p' hstep name ino hname => hp.step_entry hstep hname, fun i j a b ha hb hacreated hbcreated => ?_, ?_,
    fun a ha result hresult => ?_⟩
  · by_contra hne
    exact (hp.holds.pair hne ha hb).2 ⟨hacreated, hbcreated⟩
  · refine hp.dest.imp_right (.imp_right fun ⟨a, ha, hcreated⟩ => ⟨a, ha, hcreated, ?_⟩)
    obtain ⟨i, hi⟩ := List.mem_iff_getElem?.mp ha
    have hsound := hp.holds.agent hi
    obtain ⟨t, -, hfind, hfile⟩ := hsound.created hcreated
    exact ⟨t.ino, hfind, hfile, hsound.counted.len.symm, hsound.counted.sha256.symm⟩
  · obtain ⟨i, hi⟩ := List.mem_iff_getElem?.mp ha
    have hphase := (hp.holds.agent hi).phase
    rw [hresult] at hphase
    exact hphase

/-- A publication of two bytes, from the first step to the last, the latest first. -/
def publication : List (Pool.Event (PublishRequest fun _ => []) PublishMove) :=
  [.acts 0 (.syncParent none), .acts 0 (.unlink none), .acts 0 (.link none), .acts 0 (.verify none),
    .acts 0 (.sync none), .acts 0 (.read (.ok 0)), .acts 0 (.write 2 none), .acts 0 (.read (.ok 2)),
    .acts 0 (.create (.ok (List.replicate 16 0)) none), .acts 0 (.inspect none), .acts 0 (.openParent none),
    .joins ⟨⟨[1, 2], 2, [], ⟨2⟩⟩, ⟨rfl, rfl, rfl⟩, 10, 8⟩]

theorem publishFile_runs_publication :
    (((publishCallsBeside (fun _ => []) ⟨"/", "out"⟩).run ⟨⟨[], []⟩, []⟩ publication).map fun r =>
      r.2.shared.find "out") = some (some 0) ∧
    ∀ r, (publishCallsBeside (fun _ => []) ⟨"/", "out"⟩).run ⟨⟨[], []⟩, []⟩ publication = some r →
      ∀ a ∈ r.2.agents, ∀ result, a.phase = .returned result → a.created = publishes result := by
  refine ⟨by decide +kernel, fun r hr => ?_⟩
  obtain ⟨-, -, -, -, hreturned⟩ := publishFile_runs (fun _ _ hname => by cases hname) (Pool.Passes.of_run hr)
  exact hreturned

/-- A call that draws the destination's own name has an empty file stand there. -/
theorem publishFile_draws_destination :
    ¬ ∀ sha256 dest before visited p, (∀ name ino, before.find name = some ino → ino < before.nodes.length) →
      Pool.Passes (publishCalls sha256 dest) ⟨before, []⟩ visited p →
      p.shared.find dest.name = before.find dest.name ∨
      ∃ a ∈ p.agents, ∃ ino, p.shared.find dest.name = some ino ∧ p.shared.nodes[ino]? = some a.bytes.file := by
  intro h
  have hrun := @Pool.Passes.of_run _ _ _ _ (publishCalls (fun _ => []) ⟨"/", temporaryName (List.replicate 16 0)⟩) _
    ⟨⟨[], []⟩, []⟩ _
    [.acts 0 (.create (.ok (List.replicate 16 0)) none), .acts 0 (.inspect none), .acts 0 (.openParent none),
      .joins ⟨⟨[1], 1, [], ⟨1⟩⟩, ⟨rfl, rfl, rfl⟩, 10, 8⟩] rfl
  rcases h _ _ _ _ _ (fun _ _ hname => by cases hname) hrun with hsame | ⟨a, ha, ino, hfind, hfile⟩
  · cases Links.Dir.find_create_self.symm.trans hsame
  · obtain rfl := Option.some.inj (Links.Dir.find_create_self.symm.trans hfind)
    obtain rfl := List.mem_singleton.mp ha
    cases hfile

end Runs

end DeployCore
