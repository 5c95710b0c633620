import Mathlib

/-! # A directory tree under the Unix permission rules

Directories by inode, who may change which entry, and what such a change leaves as it was: the entries of a directory one
may not write, an entry of a sticky directory that is another's, and the owner and mode of what is another's. -/

namespace UnixTree

/-- The owner, the group and the mode of an inode. -/
structure Facts where
  uid : Nat
  gid : Nat
  mode : Nat
  deriving DecidableEq

inductive Node (Ino Name : Type)
  | directory (facts : Facts) (entries : Name → Option Ino)
  | symlink (facts : Facts)
  | other (facts : Facts)

/-- Whom a process acts for. -/
structure Creds where
  uid : Nat
  gids : List Nat
  deriving DecidableEq

abbrev Tree (Ino Name : Type) := Ino → Option (Node Ino Name)

/-- What one system call changes. -/
inductive Op (Ino Name : Type)
  | create (dir : Ino) (name : Name) (ino : Ino) (node : Node Ino Name)
  | link (dir : Ino) (name : Name) (ino : Ino)
  | remove (dir : Ino) (name : Name)
  | rename (dir : Ino) (name : Name) (dir' : Ino) (name' : Name)
  | chmod (ino : Ino) (mode : Nat)
  | chown (ino : Ino) (uid gid : Nat)

namespace Node
variable {Ino Name : Type}

def facts : Node Ino Name → Facts
  | directory facts _ => facts
  | symlink facts => facts
  | other facts => facts

/-- The owner and mode of a directory. -/
def dirFacts : Node Ino Name → Option Facts
  | directory facts _ => some facts
  | symlink _ => none
  | other _ => none

/-- The node without its entries. -/
def strip : Node Ino Name → Node Ino Name
  | directory facts _ => directory facts fun _ => none
  | symlink facts => symlink facts
  | other facts => other facts

def withFacts (facts : Facts) : Node Ino Name → Node Ino Name
  | directory _ entries => directory facts entries
  | symlink _ => symlink facts
  | other _ => other facts

end Node

/-- The bits of a mode: execute or search is 0, write is 1, read is 2; the owner's, the group's or the others' apply. -/
def Facts.Grants (f : Facts) (c : Creds) (bit : Nat) : Prop :=
  c.uid = 0 ∨ f.mode.testBit (bit + if c.uid = f.uid then 6 else if f.gid ∈ c.gids then 3 else 0) = true

def Facts.Sticky (f : Facts) : Prop := f.mode.testBit 9 = true

variable {Ino Name : Type} [DecidableEq Ino] [DecidableEq Name]

namespace Tree

def facts (t : Tree Ino Name) (ino : Ino) : Option Facts := (t ino).map Node.facts

def dirFacts (t : Tree Ino Name) (ino : Ino) : Option Facts := (t ino).bind Node.dirFacts

def entry (t : Tree Ino Name) (dir : Ino) (name : Name) : Option Ino :=
  match t dir with
  | some (.directory _ entries) => entries name
  | _ => none

/-- The tree with an entry of a directory set. -/
def setEntry (t : Tree Ino Name) (dir : Ino) (name : Name) (target : Option Ino) : Tree Ino Name :=
  match t dir with
  | some (.directory facts entries) => Function.update t dir (some (.directory facts (Function.update entries name target)))
  | _ => t

def setFacts (t : Tree Ino Name) (ino : Ino) (change : Facts → Facts) : Tree Ino Name :=
  Function.update t ino ((t ino).map fun node => node.withFacts (change node.facts))

def apply (t : Tree Ino Name) : Op Ino Name → Tree Ino Name
  | .create dir name ino node => setEntry (Function.update t ino (some node)) dir name (some ino)
  | .link dir name ino => t.setEntry dir name (some ino)
  | .remove dir name => t.setEntry dir name none
  | .rename dir name dir' name' =>
    match t.entry dir name with
    | some ino => (t.setEntry dir name none).setEntry dir' name' (some ino)
    | none => t
  | .chmod ino mode => t.setFacts ino fun facts => { facts with mode }
  | .chown ino uid gid => t.setFacts ino fun facts => { facts with uid, gid }

/-- The entries a walk over names goes by: the directory, the name and what it stands for. -/
def walk (t : Tree Ino Name) : Ino → List Name → Option (List (Ino × Name × Ino))
  | _, [] => some []
  | dir, name :: names => do
    let child ← t.entry dir name
    let rest ← walk t child names
    some ((dir, name, child) :: rest)

/-- What a walk over names ends at. -/
def resolve (t : Tree Ino Name) : Ino → List Name → Option Ino
  | dir, [] => some dir
  | dir, name :: names => do
    let child ← t.entry dir name
    resolve t child names

end Tree

/-! ### What a process may do -/

section Permission
variable {t : Tree Ino Name} {c : Creds} {f : Facts} {op : Op Ino Name} {dir ino child : Ino} {name : Name}

def MayWrite (c : Creds) (t : Tree Ino Name) (dir : Ino) : Prop :=
  ∃ f, t.dirFacts dir = some f ∧ f.Grants c 1 ∧ f.Grants c 0

/-- An entry is taken away by who may write its directory; of a sticky one, by the owner of either only. -/
def MayRemove (c : Creds) (t : Tree Ino Name) (dir : Ino) (name : Name) : Prop :=
  ∃ f, t.dirFacts dir = some f ∧ f.Grants c 1 ∧ f.Grants c 0 ∧
    (f.Sticky → c.uid = 0 ∨ c.uid = f.uid ∨ ∃ child g, t.entry dir name = some child ∧ t.facts child = some g ∧ c.uid = g.uid)

def Owns (c : Creds) (t : Tree Ino Name) (ino : Ino) : Prop :=
  c.uid = 0 ∨ ∃ f, t.facts ino = some f ∧ c.uid = f.uid

/-- The permission rules of the calls: an entry is made where there is none, what stands under a new name is taken away
first, and owner and mode are the owner's to change; only root gives away what it owns. -/
def Allowed (c : Creds) (t : Tree Ino Name) : Op Ino Name → Prop
  | .create dir name ino _ => MayWrite c t dir ∧ t.entry dir name = none ∧ t ino = none
  | .link dir name _ => MayWrite c t dir ∧ t.entry dir name = none
  | .remove dir name => MayRemove c t dir name
  | .rename dir name dir' name' =>
    MayRemove c t dir name ∧ MayWrite c t dir' ∧ (t.entry dir' name' ≠ none → MayRemove c t dir' name')
  | .chmod ino _ => Owns c t ino
  | .chown ino uid _ => c.uid = 0 ∨ Owns c t ino ∧ uid = c.uid

/-- A tree reached from another by calls that processes of a kind may make. -/
def Reached (P : Creds → Prop) : Tree Ino Name → Tree Ino Name → Prop :=
  Relation.ReflTransGen fun t t' => ∃ c op, P c ∧ Allowed c t op ∧ t' = t.apply op

/-! ### What one change leaves as it was -/

theorem entry_setEntry_ne {dir' : Ino} {name' : Name} {target : Option Ino} (h : ¬ (dir' = dir ∧ name' = name)) :
    (t.setEntry dir name target).entry dir' name' = t.entry dir' name' := by
  unfold Tree.setEntry
  split
  · next facts entries hdir =>
    by_cases hsame : dir' = dir
    · subst hsame
      have hname : name' ≠ name := fun heq => h ⟨rfl, heq⟩
      simp [Tree.entry, hdir, hname]
    · simp [Tree.entry, hsame]
  · rfl

/-- Setting an entry changes no node but for its entries. -/
theorem strip_setEntry {target : Option Ino} : ((t.setEntry dir name target) ino).map Node.strip = (t ino).map Node.strip := by
  rcases hdir : t dir with _ | ⟨facts, entries⟩ | facts | facts
  · simp only [Tree.setEntry, hdir]
  · by_cases hsame : ino = dir
    · subst hsame
      simp only [Tree.setEntry, hdir, Function.update_self]
      rfl
    · simp only [Tree.setEntry, hdir, Function.update_of_ne hsame]
  · simp only [Tree.setEntry, hdir]
  · simp only [Tree.setEntry, hdir]

omit [DecidableEq Name] in
theorem entry_setFacts {change : Facts → Facts} : (t.setFacts ino change).entry dir name = t.entry dir name := by
  unfold Tree.setFacts
  by_cases hsame : dir = ino
  · subst hsame
    rcases hdir : t dir with _ | ⟨facts, entries⟩ | facts | facts <;> simp [Tree.entry, hdir, Node.withFacts]
  · simp [Tree.entry, hsame]

omit [DecidableEq Name] in
theorem setFacts_ne {ino' : Ino} {change : Facts → Facts} (h : ino' ≠ ino) : t.setFacts ino change ino' = t ino' :=
  Function.update_of_ne h ..

omit [DecidableEq Ino] [DecidableEq Name] in
theorem facts_of_dirFacts (h : t.dirFacts ino = some f) : t.facts ino = some f := by
  rw [Tree.dirFacts] at h
  rw [Tree.facts]
  rcases hnode : t ino with _ | ⟨facts, entries⟩ | facts | facts <;> rw [hnode] at h <;> cases h
  rfl

/-- What is another's is left as it was, but for the entries of a directory. -/
theorem strip_apply (h : Allowed c t op) (hroot : c.uid ≠ 0) (hfacts : t.facts ino = some f) (howner : c.uid ≠ f.uid) :
    ((t.apply op) ino).map Node.strip = (t ino).map Node.strip := by
  have hown {ino' : Ino} (howns : Owns c t ino') : ino ≠ ino' := by
    rintro rfl
    rcases howns with hzero | ⟨g, hg, huid⟩
    · exact hroot hzero
    · rw [hfacts] at hg
      cases hg
      exact howner huid
  rcases op with ⟨dir, name, ino', node⟩ | ⟨dir, name, ino'⟩ | ⟨dir, name⟩ | ⟨dir, name, dir', name'⟩ | ⟨ino', mode⟩ |
    ⟨ino', uid, gid⟩
  · obtain ⟨-, -, hfresh⟩ := h
    have hne : ino ≠ ino' := by
      rintro rfl
      rw [Tree.facts, hfresh] at hfacts
      cases hfacts
    rw [Tree.apply, strip_setEntry, Function.update_of_ne hne]
  · exact strip_setEntry
  · exact strip_setEntry
  · rcases hentry : t.entry dir name with _ | target
    · simp only [Tree.apply, hentry]
    · simp only [Tree.apply, hentry, strip_setEntry]
  · rw [Tree.apply, setFacts_ne (hown h)]
  · rcases h with hzero | ⟨howns, -⟩
    · exact absurd hzero hroot
    · rw [Tree.apply, setFacts_ne (hown howns)]

omit [DecidableEq Ino] [DecidableEq Name] in
theorem dirFacts_strip {node : Node Ino Name} : node.strip.dirFacts = node.dirFacts := by
  cases node <;> rfl

/-- A directory that is another's is one still. -/
theorem dirFacts_apply (h : Allowed c t op) (hroot : c.uid ≠ 0) (hfacts : t.dirFacts ino = some f) (howner : c.uid ≠ f.uid) :
    (t.apply op).dirFacts ino = some f := by
  have hstrip := congrArg (fun node => Option.bind node Node.dirFacts)
    (strip_apply h hroot (facts_of_dirFacts hfacts) howner)
  simp only [Option.bind_map, Function.comp_def, dirFacts_strip] at hstrip
  exact hstrip.trans hfacts

/-- An entry one may neither make nor take away stands for what it did. -/
theorem entry_apply (h : Allowed c t op) (hdir : t.dirFacts dir ≠ none)
    (hmake : t.entry dir name = none → ¬ MayWrite c t dir) (htake : ¬ MayRemove c t dir name) :
    (t.apply op).entry dir name = t.entry dir name := by
  have hset {dir' : Ino} {name' : Name} {target : Option Ino} {t' : Tree Ino Name} (hne : ¬ (dir = dir' ∧ name = name')) :
      (t'.setEntry dir' name' target).entry dir name = t'.entry dir name := entry_setEntry_ne hne
  rcases op with ⟨dir', name', ino', node⟩ | ⟨dir', name', ino'⟩ | ⟨dir', name'⟩ | ⟨dir', name', dir'', name''⟩ | ⟨ino', mode⟩ |
    ⟨ino', uid, gid⟩
  · obtain ⟨hwrite, habsent, hfresh⟩ := h
    have hne : dir ≠ ino' := by
      rintro rfl
      refine hdir ?_
      rw [Tree.dirFacts, hfresh]
      rfl
    rw [Tree.apply, hset]
    · rw [Tree.entry, Function.update_of_ne hne]
      rfl
    · rintro ⟨rfl, rfl⟩
      exact hmake habsent hwrite
  · obtain ⟨hwrite, habsent⟩ := h
    rw [Tree.apply, hset]
    rintro ⟨rfl, rfl⟩
    exact hmake habsent hwrite
  · rw [Tree.apply, hset]
    rintro ⟨rfl, rfl⟩
    exact htake h
  · obtain ⟨hremove, hwrite, hover⟩ := h
    rcases hentry : t.entry dir' name' with _ | target
    · simp only [Tree.apply, hentry]
    · simp only [Tree.apply, hentry]
      rw [hset, hset]
      · rintro ⟨rfl, rfl⟩
        exact htake hremove
      · rintro ⟨rfl, rfl⟩
        by_cases habsent : t.entry dir name = none
        · exact hmake habsent hwrite
        · exact htake (hover habsent)
  · rw [Tree.apply, entry_setFacts]
  · rw [Tree.apply, entry_setFacts]

omit [DecidableEq Ino] [DecidableEq Name] in
theorem not_mayWrite (hfacts : t.dirFacts dir = some f) (h : ¬ f.Grants c 1) : ¬ MayWrite c t dir := by
  rintro ⟨g, hg, hgrants, -⟩
  rw [hfacts] at hg
  cases hg
  exact h hgrants

omit [DecidableEq Ino] [DecidableEq Name] in
theorem not_mayRemove_of_not_write (hfacts : t.dirFacts dir = some f) (h : ¬ f.Grants c 1) : ¬ MayRemove c t dir name := by
  rintro ⟨g, hg, hgrants, -⟩
  rw [hfacts] at hg
  cases hg
  exact h hgrants

omit [DecidableEq Ino] [DecidableEq Name] in
/-- Of a sticky directory that is another's, what is another's is not to be taken away. -/
theorem not_mayRemove_of_sticky {g : Facts} (hfacts : t.dirFacts dir = some f) (hsticky : f.Sticky) (hroot : c.uid ≠ 0)
    (howner : c.uid ≠ f.uid) (hentry : t.entry dir name = some child) (hchild : t.facts child = some g)
    (howner' : c.uid ≠ g.uid) : ¬ MayRemove c t dir name := by
  rintro ⟨f', hf', -, -, hmay⟩
  rw [hfacts] at hf'
  cases hf'
  rcases hmay hsticky with hzero | huid | ⟨child', g', hentry', hg', huid⟩
  · exact hroot hzero
  · exact howner huid
  · rw [hentry] at hentry'
    cases hentry'
    rw [hchild] at hg'
    cases hg'
    exact howner' huid

/-- Where the group's and the others' write bits are off, only the owner and root may write. -/
theorem not_grants_write (hroot : c.uid ≠ 0) (howner : c.uid ≠ f.uid) (hgroup : f.mode.testBit 4 = false)
    (hothers : f.mode.testBit 1 = false) : ¬ f.Grants c 1 := by
  rintro (hzero | hbit)
  · exact hroot hzero
  · rw [if_neg howner] at hbit
    split at hbit
    · rw [hgroup] at hbit
      cases hbit
    · rw [hothers] at hbit
      cases hbit

end Permission

end UnixTree
