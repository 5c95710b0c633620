import DeployCore.TarRounds

/-! # Two walks of one stream

Two walkers over the same bytes do the same, whatever pieces the bytes come in and however much of each entry's data
their callers read. -/

namespace DeployCore
open Fallible CountingReader LittleEndian

namespace TarWalker
variable {w w' : TarWalker}

/-- The walker over the same bytes in other pieces. -/
def withServes (w : TarWalker) (serves : Nat → Nat → Nat) : TarWalker :=
  { w with source := { w.source with source := { w.source.source with serves } } }

/-- A walker, and one that is the same but for the pieces its bytes come in. -/
structure Twin (w w' : TarWalker) : Prop where
  ready : Ready w.source
  same : ∃ serves, w' = w.withServes serves

def SameRules (w w' : TarWalker) : Prop :=
  w.rules = w'.rules

/-- What two walkers are to each other after a round. -/
def Follow : Round → TarWalker → TarWalker → Prop
  | .finished => SameRules
  | _ => Twin

namespace Twin

theorem rules (h : Twin w w') : SameRules w w' := by
  obtain ⟨serves, rfl⟩ := h.same
  rfl

theorem ready' (h : Twin w w') : Ready w'.source := by
  obtain ⟨serves, rfl⟩ := h.same
  exact ⟨h.ready.latch, h.ready.copyBuffer, h.ready.room⟩

theorem readFull (h : Twin w w') (len : Nat) :
    Agree (fun _ => Twin) SameRules (onSource (fun source => source.readFull len) w)
      (onSource (fun source => source.readFull len) w') := by
  have hready' := h.ready'
  obtain ⟨serves, rfl⟩ := h.same
  rcases Nat.lt_or_ge w.source.readable len with hshort | hlen
  · obtain ⟨source, hread⟩ := readFull_cut h.ready hshort
    obtain ⟨source', hread'⟩ := readFull_cut hready' hshort
    rw [hread, hread']
    exact .error rfl
  · rw [readFull_whole h.ready hlen, readFull_whole hready' hlen]
    exact .ok ⟨h.ready.advanceBy (hlen.trans (Nat.min_le_left _ _)), serves, rfl⟩

theorem onRules {α : Type} (h : Twin w w') (step : EStateM ContentFault Rules α) :
    Agree (fun _ => Twin) SameRules (TarWalker.onRules step w) (TarWalker.onRules step w') := by
  obtain ⟨serves, rfl⟩ := h.same
  unfold TarWalker.onRules
  have hrules : (w.withServes serves).rules = w.rules := rfl
  rw [hrules]
  rcases step w.rules with ⟨a, rules⟩ | ⟨fault, rules⟩
  · exact .ok ⟨h.ready, serves, rfl⟩
  · exact .error rfl

theorem checkAvailable (h : Twin w w') (n : Nat) :
    Agree (fun _ => Twin) SameRules (TarWalker.checkAvailable n w) (TarWalker.checkAvailable n w') := by
  obtain ⟨serves, rfl⟩ := h.same
  exact Agree.lift (x := w.source.checkAvailable n) (fun _ => ⟨h.ready, serves, rfl⟩) rfl

theorem lift {α : Type} (h : Twin w w') (x : Except ContentFault α) :
    Agree (fun _ => Twin) SameRules (Fallible.lift x w) (Fallible.lift x w') :=
  Agree.lift (fun _ => h) h.rules

/-- An update of what is left unread. -/
theorem unread (h : Twin w w') (data padding : TarWalker → Nat) (hdata : ∀ serves, data (w.withServes serves) = data w)
    (hpadding : ∀ serves, padding (w.withServes serves) = padding w) :
    Agree (fun _ => Twin) SameRules
      ((modify fun w => { w with unreadData := data w, unreadPadding := padding w } : Walk Unit) w)
      ((modify fun w => { w with unreadData := data w, unreadPadding := padding w } : Walk Unit) w') := by
  obtain ⟨serves, rfl⟩ := h.same
  refine .ok ⟨h.ready, serves, ?_⟩
  dsimp only
  rw [hdata, hpadding]
  rfl

theorem finishTail (h : Twin w w') :
    Agree (fun _ => SameRules) SameRules (TarWalker.finishTail w) (TarWalker.finishTail w') := by
  have hready' := h.ready'
  obtain ⟨serves, rfl⟩ := h.same
  obtain ⟨source, hcases⟩ := finishTail_outcomes h.ready
  obtain ⟨source', hcases'⟩ := finishTail_outcomes hready'
  rcases hcases with ⟨htail, hread⟩ | ⟨fault, htail, hread⟩ <;>
    rcases hcases' with ⟨htail', hread'⟩ | ⟨fault', htail', hread'⟩
  · rw [hread, hread']
    exact .ok rfl
  · cases htail.symm.trans htail'
  · cases htail.symm.trans htail'
  · cases htail.symm.trans htail'
    rw [hread, hread']
    exact .error rfl

theorem finish (h : Twin w w') : Agree Follow SameRules (TarWalker.finish w) (TarWalker.finish w') := by
  have hrules : w.rules = w'.rules := h.rules
  show Agree _ _ ((if w.rules.hasPending then throw _ else _ : Walk Round) w)
    ((if w'.rules.hasPending then throw _ else _ : Walk Round) w')
  rw [hrules]
  split
  · exact .error h.rules
  · refine h.finishTail.bind fun _ w w' hrules => ?_
    exact .ok hrules

theorem readHeader (h : Twin w w') (block : Bytes) (headerOffset : Nat) :
    Agree (fun _ => Twin) SameRules (TarWalker.readHeader block headerOffset w)
      (TarWalker.readHeader block headerOffset w') := by
  refine (h.onRules _).bind fun _ w w' h => ?_
  have hrules : w.rules = w'.rules := h.rules
  show Agree _ _ ((Fallible.lift (decodeHeader w.rules block) >>= _ : Walk _) w)
    ((Fallible.lift (decodeHeader w'.rules block) >>= _ : Walk _) w')
  rw [hrules]
  refine (h.lift _).bind fun decoded w w' h => ?_
  obtain ⟨typeflag, header⟩ := decoded
  dsimp only
  split
  · exact .error h.rules
  · exact .ok h

theorem readExtension (h : Twin w w') (extension : Extension) (len dataOffset : Nat) (flag : UInt8) :
    Agree (fun _ => Twin) SameRules (TarWalker.readExtension extension len dataOffset flag w)
      (TarWalker.readExtension extension len dataOffset flag w') := by
  refine (h.onRules _).bind fun limit w w' h => (h.lift _).bind fun padded w w' h => ?_
  refine (h.checkAvailable _).bind fun _ w w' h => (h.lift _).bind fun len w w' h => ?_
  refine (h.readFull _).bind fun payload w w' h => ?_
  refine (h.unread (fun w => w.unreadData) _ (fun _ => rfl) fun _ => rfl).bind fun _ w w' h => ?_
  exact h.onRules _

theorem readEntry (h : Twin w w') (kind : EntryKind) (header : HeaderFields) (headerOffset dataOffset : Nat) :
    Agree (fun _ => Twin) SameRules (TarWalker.readEntry kind header headerOffset dataOffset w)
      (TarWalker.readEntry kind header headerOffset dataOffset w') := by
  refine (h.onRules _).bind fun admitted w w' h => (h.lift _).bind fun padded w w' h => ?_
  refine (h.checkAvailable _).bind fun _ w w' h => ?_
  exact (h.unread _ _ (fun _ => rfl) fun _ => rfl).bind fun _ w w' h => .ok h

theorem readRecord (h : Twin w w') (block : Bytes) (headerOffset : Nat) :
    Agree Follow SameRules (TarWalker.readRecord block headerOffset w) (TarWalker.readRecord block headerOffset w') := by
  refine (h.readHeader _ _).bind fun parsed w w' h => ?_
  obtain ⟨typeflag, header, dataOffset⟩ := parsed
  rcases typeflag with kind | extension
  · exact (h.readEntry _ _ _ _).bind fun entry w w' h => .ok h
  · exact (h.readExtension _ _ _ _).bind fun _ w w' h => .ok h

theorem readNext (h : Twin w w') : Agree Follow SameRules (TarWalker.readNext w) (TarWalker.readNext w') := by
  have hposition : w.source.position = w'.source.position := by
    obtain ⟨serves, rfl⟩ := h.same
    rfl
  show Agree _ _ ((onSource (fun source => source.readFull BLOCK) >>= fun block =>
      if isZero block then TarWalker.finish else TarWalker.readRecord block w.source.position : Walk Round) w)
    ((onSource (fun source => source.readFull BLOCK) >>= fun block =>
      if isZero block then TarWalker.finish else TarWalker.readRecord block w'.source.position : Walk Round) w')
  rw [hposition]
  refine (h.readFull _).bind fun block w w' h => ?_
  split
  · exact h.finish
  · exact h.readRecord _ _

end Twin

/-! ### From call to call -/

/-- Two walkers whose next calls do the same. -/
inductive Paired (w w' : TarWalker) : Prop
  | steady (h : Steady w) (h' : Steady w') (htwin : Twin w.settled w'.settled)
  | doomed (h : Doomed w) (h' : Doomed w') (hrules : SameRules w w')

theorem Paired.rules (h : Paired w w') : SameRules w w' := by
  rcases h with ⟨_, _, htwin⟩ | ⟨_, _, hrules⟩
  · exact htwin.rules
  · exact hrules

theorem Twin.settled (h : Twin w w') (hopen : Open w) : Twin w.settled w'.settled := by
  obtain ⟨serves, rfl⟩ := h.same
  exact ⟨h.ready.advanceBy hopen.unread, serves, rfl⟩

theorem Twin.paired (h : Twin w w') (hopen : Open w) : Paired w w' ∧ w.latch = none ∧ w'.latch = none := by
  have htwin := h.settled hopen
  have hready' := h.ready'
  obtain ⟨serves, rfl⟩ := h.same
  have hopen' : Open (w.withServes serves) := ⟨hopen.latch, hopen.finished, hready', hopen.copyBuffer, hopen.unread⟩
  refine ⟨?_, hopen.latch, hopen.latch⟩
  rcases Nat.lt_or_ge w.source.source.bytes.length w.unread with hshort | hwhole
  · exact .doomed (.inr ⟨hopen, hshort⟩) (.inr ⟨hopen', hshort⟩) rfl
  · exact .steady ⟨hopen, hwhole⟩ ⟨hopen', hwhole⟩ htwin

/-- What two walkers are to each other after a round of each. -/
def Abreast : Round → TarWalker → TarWalker → Prop
  | .finished => SameRules
  | _ => fun w w' => Paired w w' ∧ w.latch = none ∧ w'.latch = none

theorem Paired.round (h : Paired w w') (hlatch : w.latch = none) (hlatch' : w'.latch = none) :
    Agree Abreast SameRules (TarWalker.round w) (TarWalker.round w') := by
  rcases h with ⟨hsteady, hsteady', htwin⟩ | ⟨hdoomed, hdoomed', hrules⟩
  · rw [round_of_steady hsteady, round_of_steady hsteady']
    rcases htwin.readNext.cases with ⟨step, w₁, w₁', hread, hread', hfollow⟩ | ⟨fault, w₁, w₁', hread, hread', hrules⟩ <;>
      rw [hread, hread']
    · refine .ok ?_
      cases readNext_ok hsteady.settled.toOpen hread with
      | finished => exact hfollow
      | extension h => exact Twin.paired hfollow (h.opened hsteady.settled.toOpen rfl)
      | entry h => exact Twin.paired hfollow (h.opened hsteady.settled.toOpen)
    · exact .error hrules
  · obtain ⟨w₁, hround, hsame, -⟩ := round_of_doomed hlatch hdoomed
    obtain ⟨w₁', hround', hsame', -⟩ := round_of_doomed hlatch' hdoomed'
    rw [hround, hround']
    exact .error (hsame.trans (Eq.trans hrules hsame'.symm))

/-- What two walkers are to each other after a call of each. -/
def Called : Option TarEntry → TarWalker → TarWalker → Prop
  | none => SameRules
  | some _ => Paired

theorem Paired.advanceFrom (fuel : Nat) (h : Paired w w') (hlatch : w.latch = none) (hlatch' : w'.latch = none) :
    Agree Called SameRules (TarWalker.advanceFrom fuel w) (TarWalker.advanceFrom fuel w') := by
  induction fuel generalizing w w' with
  | zero => exact .error h.rules
  | succ fuel ih =>
    refine (h.round hlatch hlatch').bind fun step w w' habreast => ?_
    cases step with
    | again => exact ih habreast.1 habreast.2.1 habreast.2.2
    | finished => exact .ok habreast
    | entry entry => exact .ok habreast.1

theorem nextEntry_of_open (h : Open w) : nextEntry w =
    match advance w with
    | .ok a w => .ok a w
    | .error fault w => .error fault { w with latch := w.latch.record fault } := by
  have hrun : (do let w ← get; if w.finished then pure none else advance : Walk (Option TarEntry)) w = advance w := by
    show (if w.finished then pure none else advance : Walk (Option TarEntry)) w = _
    rw [h.finished]
    rfl
  unfold nextEntry
  rw [latched_of_open h.latch, hrun]
  rcases advance w with ⟨_, _⟩ | ⟨_, _⟩ <;> rfl

theorem nextEntry_of_doomed (h : Doomed w) :
    ∃ w', nextEntry w = .error (.malformed .truncated) w' ∧ w'.rules = w.rules := by
  rcases h with hlatch | ⟨hopen, hshort⟩
  · refine ⟨w, ?_, rfl⟩
    unfold nextEntry latched
    rw [hlatch]
    rfl
  · obtain ⟨w', hround, hrules, -⟩ := round_of_doomed hopen.latch (.inr ⟨hopen, hshort⟩)
    rw [nextEntry_of_open hopen]
    have hadvance : advance w = .error (.malformed .truncated) w' :=
      (bind_of_ok rfl).trans (bind_of_error hround)
    rw [hadvance]
    exact ⟨_, rfl, hrules⟩

theorem Paired.nextEntry (h : Paired w w') :
    Agree Called SameRules (TarWalker.nextEntry w) (TarWalker.nextEntry w') := by
  have hrules : w.rules = w'.rules := h.rules
  rcases id h with ⟨hsteady, hsteady', -⟩ | ⟨hdoomed, hdoomed', -⟩
  · rw [nextEntry_of_open hsteady.toOpen, nextEntry_of_open hsteady'.toOpen]
    have hagree := h.advanceFrom (w.rules.headersLeft + 1) hsteady.latch hsteady'.latch
    have hadvance : TarWalker.advance w = TarWalker.advanceFrom (w.rules.headersLeft + 1) w := rfl
    have hadvance' : TarWalker.advance w' = TarWalker.advanceFrom (w.rules.headersLeft + 1) w' := by
      rw [hrules]
      rfl
    rw [← hadvance, ← hadvance'] at hagree
    rcases hagree.cases with ⟨called, w₁, w₁', hcall, hcall', hcalled⟩ | ⟨fault, w₁, w₁', hcall, hcall', hsame⟩ <;>
      rw [hcall, hcall']
    · exact .ok hcalled
    · exact .error hsame
  · obtain ⟨w₁, hnext, hsame⟩ := nextEntry_of_doomed hdoomed
    obtain ⟨w₁', hnext', hsame'⟩ := nextEntry_of_doomed hdoomed'
    rw [hnext, hnext']
    exact .error (hsame.trans (hrules.trans hsame'.symm))

theorem Paired.readAll (h : Paired w w') (bufs bufs' : List Nat) :
    Paired (TarWalker.readAll bufs w) (TarWalker.readAll bufs' w') := by
  rcases h with ⟨hsteady, hsteady', htwin⟩ | ⟨hdoomed, hdoomed', hrules⟩
  · obtain ⟨hafter, hsettled⟩ := hsteady.readAll bufs
    obtain ⟨hafter', hsettled'⟩ := hsteady'.readAll bufs'
    refine .steady hafter hafter' ?_
    rw [hsettled, hsettled']
    exact htwin
  · obtain ⟨hafter, hsame⟩ := hdoomed.readAll bufs
    obtain ⟨hafter', hsame'⟩ := hdoomed'.readAll bufs'
    exact .doomed hafter hafter' (hsame.trans (Eq.trans hrules hsame'.symm))

/-- Whatever is read of the data, and in whatever pieces, a walk comes to the same. -/
theorem Paired.walk (h : Paired w w') (reads reads' : Nat → List Nat) (calls i : Nat) :
    (TarWalker.walk reads calls i w).entries = (TarWalker.walk reads' calls i w').entries ∧
    (TarWalker.walk reads calls i w).verdict = (TarWalker.walk reads' calls i w').verdict ∧
    (TarWalker.walk reads calls i w).walker.rules = (TarWalker.walk reads' calls i w').walker.rules := by
  induction calls generalizing i w w' with
  | zero => exact ⟨rfl, rfl, h.rules⟩
  | succ calls ih =>
    unfold TarWalker.walk
    rcases h.nextEntry.cases with ⟨called, w₁, w₁', hcall, hcall', hcalled⟩ | ⟨fault, w₁, w₁', hcall, hcall', hrules⟩ <;>
      rw [hcall, hcall']
    · rcases called with _ | entry
      · exact ⟨rfl, rfl, hcalled⟩
      · obtain ⟨hentries, hverdict, hrules⟩ := ih (Paired.readAll hcalled (reads i) (reads' i)) (i + 1)
        exact ⟨congrArg (entry :: ·) hentries, hverdict, hrules⟩
    · exact ⟨rfl, rfl, hrules⟩

end TarWalker

end DeployCore
