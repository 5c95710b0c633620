import DeployCore.Lib.Checks
import DeployCore.TarReads

/-! # What one round of the walk does

Each outcome of a round, from a walker with nothing unread: what was read of the stream, and what became of the
rules. -/

namespace DeployCore
open Fallible CountingReader LittleEndian Checks

/-- A fault that is not about names that collide. -/
def ContentFault.Placeless (fault : ContentFault) : Prop :=
  fault ≠ .malformed .duplicatePath ∧ fault ≠ .malformed .pathConflict

namespace TarWalker
/-- The block at a walker with nothing unread. -/
def block (w : TarWalker) : Bytes :=
  w.source.source.bytes.take BLOCK

/-- A header that was read, counted and decoded. -/
structure HeaderRead (w : TarWalker) (typeflag : Typeflag) (header : HeaderFields) (rules : Rules) : Prop where
  readable : BLOCK ≤ w.source.readable
  nonzero : isZero w.block = false
  counted : Rules.countHeader w.rules = .ok () rules
  decoded : decodeHeader rules w.block = .ok (typeflag, header)

/-- A round that reads an extension record. -/
inductive Extended (w : TarWalker) (extension : Extension) (header : HeaderFields) : TarWalker → Prop
  | read {limit padded counted charged recorded} (hread : HeaderRead w (.extension extension) header counted)
      (hcharge : chargeExtension extension header.size (w.block.getD TYPEFLAG 0) counted = .ok limit charged)
      (hpadded : paddedLen (w.source.position + BLOCK) header.size = .ok padded)
      (havailable : padded ≤ (w.source.advanceBy BLOCK).remaining)
      (hpayload : header.size ≤ (w.source.advanceBy BLOCK).readable)
      (hrecord : recordExtension extension (slice w.source.source.bytes BLOCK header.size) charged = .ok () recorded) :
      Extended w extension header { w with
        source := (w.source.advanceBy BLOCK).advanceBy header.size
        rules := recorded
        unreadPadding := padded - header.size }

/-- A round that comes to an entry. -/
inductive Entered (w : TarWalker) (kind : EntryKind) (header : HeaderFields) : TarEntry → TarWalker → Prop
  | read {admitted padded counted taken} (hread : HeaderRead w (.entry kind) header counted)
      (hadmitted : Rules.admitHeader kind header counted = .ok admitted taken)
      (hpadded : paddedLen (w.source.position + BLOCK) admitted.size = .ok padded)
      (havailable : padded ≤ (w.source.advanceBy BLOCK).remaining) :
      Entered w kind header
        { kind
          name := admitted.name
          linkTarget := admitted.linkTarget
          size := admitted.size
          headerOffset := w.source.position
          dataOffset := w.source.position + BLOCK
          dataLen := admitted.size }
        { w with
          source := w.source.advanceBy BLOCK
          rules := taken
          unreadData := admitted.size
          unreadPadding := padded - admitted.size }

/-- A round that comes to the end. -/
structure Finished (w w' : TarWalker) : Prop where
  readable : BLOCK ≤ w.source.readable
  zero : isZero w.block
  pending : w.rules.hasPending = false
  tail : tailVerdict (w.source.advanceBy BLOCK).spent BLOCK (w.source.advanceBy BLOCK).remaining
    (w.source.source.bytes.drop BLOCK) = .ok ()
  rules : w'.rules = w.rules

/-- A round that goes on. -/
inductive Next (w : TarWalker) : Round → TarWalker → Prop
  | finished {w₁} (h : Finished w w₁) : Next w .finished w₁
  | extension {extension header w₁} (h : Extended w extension header w₁) : Next w .again w₁
  | entry {kind header entry w₁} (h : Entered w kind header entry w₁) : Next w (.entry entry) w₁

/-- A round that stops at a fault, and the rules it leaves. -/
inductive Stops (w : TarWalker) : ContentFault → Rules → Prop
  | idle {fault} (hfault : fault.Placeless) : Stops w fault w.rules
  | counted {fault counted} (hcount : Rules.countHeader w.rules = .ok () counted) (hfault : fault.Placeless) :
      Stops w fault counted
  | refused {extension header fault counted rules} (hread : HeaderRead w (.extension extension) header counted)
      (hcharge : chargeExtension extension header.size (w.block.getD TYPEFLAG 0) counted = .error fault rules) :
      Stops w fault rules
  | charged {extension header limit fault counted charged} (hread : HeaderRead w (.extension extension) header counted)
      (hcharge : chargeExtension extension header.size (w.block.getD TYPEFLAG 0) counted = .ok limit charged)
      (hfault : fault.Placeless) : Stops w fault charged
  | unrecorded {extension header limit fault counted charged rules}
      (hread : HeaderRead w (.extension extension) header counted)
      (hcharge : chargeExtension extension header.size (w.block.getD TYPEFLAG 0) counted = .ok limit charged)
      (hpayload : header.size ≤ (w.source.advanceBy BLOCK).readable)
      (hrecord : recordExtension extension (slice w.source.source.bytes BLOCK header.size) charged =
        .error fault rules) : Stops w fault rules
  | unadmitted {kind header fault counted rules} (hread : HeaderRead w (.entry kind) header counted)
      (hadmitted : Rules.admitHeader kind header counted = .error fault rules) : Stops w fault rules
  | admitted {kind header admitted fault counted taken} (hread : HeaderRead w (.entry kind) header counted)
      (hadmitted : Rules.admitHeader kind header counted = .ok admitted taken) (hfault : fault.Placeless) : Stops w fault taken

variable {w w' : TarWalker} {fault : ContentFault}

/-! ### Faults that are not about names -/

theorem placeless_malformed {reason : MalformedReason} (h : reason ≠ .duplicatePath) (h' : reason ≠ .pathConflict) :
    (ContentFault.malformed reason).Placeless :=
  ⟨fun heq => h (ContentFault.malformed.inj heq), fun heq => h' (ContentFault.malformed.inj heq)⟩

theorem placeless_unsupported (feature : UnsupportedFeature) : (ContentFault.unsupported feature).Placeless :=
  ⟨nofun, nofun⟩

theorem placeless_limit (resource : LimitResource) (limit : Nat) :
    (ContentFault.limitExceeded resource limit).Placeless :=
  ⟨nofun, nofun⟩

theorem placeless_spent (r : StreamReader) : r.spent.Placeless := by
  unfold spent
  rcases r.chain.find? _ with _ | budget
  · exact placeless_limit _ _
  · exact placeless_limit _ _

theorem placeless_shortfall (r : StreamReader) : r.shortfall.Placeless := by
  unfold shortfall
  split
  · exact placeless_malformed nofun nofun
  · exact placeless_spent r

theorem refuses_malformed {α : Type} {reason : MalformedReason} (h : reason ≠ .duplicatePath)
    (h' : reason ≠ .pathConflict) : Refuses ContentFault.Placeless (.error (.malformed reason) : Except ContentFault α) :=
  .error (placeless_malformed h h')

theorem refuses_checkAvailable (r : StreamReader) (n : Nat) : Refuses ContentFault.Placeless (r.checkAvailable n) := by
  intro fault h
  obtain ⟨budget, -, rfl⟩ := checkAvailable_error h
  exact placeless_limit _ _

theorem refuses_paddedLen (dataOffset size : Nat) : Refuses ContentFault.Placeless (paddedLen dataOffset size) :=
  .ite (refuses_malformed (by simp) (by simp)) (.ok _)

theorem refuses_tailVerdict {spent : ContentFault} (hspent : spent.Placeless) (tail allowance : Nat) (bytes : Bytes) :
    Refuses ContentFault.Placeless (tailVerdict spent tail allowance bytes) := by
  induction bytes generalizing tail allowance with
  | nil =>
    unfold tailVerdict
    exact .ite (.ok _) (refuses_malformed (by simp) (by simp))
  | cons byte bytes ih =>
    rcases allowance with _ | allowance
    · exact .error hspent
    · exact .ite (refuses_malformed (by simp) (by simp)) (.ite (refuses_malformed (by simp) (by simp)) (ih _ _))

theorem refuses_charge (budget : Budget) (n : Nat) : Refuses ContentFault.Placeless (budget.charge n) := by
  unfold Budget.charge
  split
  · exact .ok _
  · exact .error (placeless_limit _ _)

theorem countHeader_error {rules rules' : Rules} (h : Rules.countHeader rules = .error fault rules') :
    fault.Placeless ∧ rules' = rules := by
  rcases rules with rules | rules <;> unfold Rules.countHeader at h <;> dsimp only at h <;> split at h <;> cases h
  · next hcharge => exact ⟨refuses_charge _ _ _ hcharge, rfl⟩
  · next hcharge => exact ⟨refuses_charge _ _ _ hcharge, rfl⟩

theorem refuses_parseNumeric (field : Bytes) (which : TarField) :
    Refuses ContentFault.Placeless (parseNumeric field which) := by
  unfold parseNumeric
  dsimp only
  split
  · exact .ok _
  · exact refuses_malformed (by simp) (by simp)

theorem refuses_parseName (field : Bytes) (which : TarField) : Refuses ContentFault.Placeless (parseName field which) :=
  .ite (.ok _) (refuses_malformed (by simp) (by simp))

theorem refuses_verifyChecksum (block : Bytes) : Refuses ContentFault.Placeless (verifyChecksum block) := by
  unfold verifyChecksum
  split
  · exact refuses_malformed (by simp) (by simp)
  · exact .ite (.ok _) (refuses_malformed (by simp) (by simp))

theorem refuses_readMagic (block : Bytes) : Refuses ContentFault.Placeless (readMagic block) :=
  .ite (.ok _) (.ite (.ok _) (.error (placeless_unsupported _)))

theorem refuses_checkDevice (block : Bytes) (flag : UInt8) : Refuses ContentFault.Placeless (checkDevice block flag) :=
  .ite ((refuses_parseNumeric _ _).bind fun _ => (refuses_parseNumeric _ _).bind fun _ => .ok _) (.ok _)

theorem refuses_parsePrefix (block : Bytes) (magic : Magic) : Refuses ContentFault.Placeless (parsePrefix block magic) := by
  cases magic with
  | posix => exact refuses_parseName _ _
  | gnu => exact .ok _

theorem refuses_parseFields (block : Bytes) (magic : Magic) (flag : UInt8) :
    Refuses ContentFault.Placeless (parseFields block magic flag) :=
  (refuses_parseName _ _).bind fun _ => (refuses_parseNumeric _ _).bind fun _ => (refuses_parseNumeric _ _).bind fun _ =>
  (refuses_parseNumeric _ _).bind fun _ => (refuses_parseNumeric _ _).bind fun _ =>
  (refuses_parseNumeric _ _).bind fun _ => (refuses_parseName _ _).bind fun _ =>
  (refuses_checkDevice _ _).bind fun _ => (refuses_parsePrefix _ _).bind fun _ => .ok _

theorem refuses_decodeHeader (rules : Rules) (block : Bytes) :
    Refuses ContentFault.Placeless (decodeHeader rules block) := by
  refine (refuses_verifyChecksum _).bind fun _ => (refuses_readMagic _).bind fun magic => ?_
  dsimp only
  split
  · exact .error (placeless_unsupported _)
  · exact (refuses_parseFields _ _ _).bind fun _ => .ok _

/-! ### The outcomes of a round -/

theorem room_block (h : Open w) (hblock : BLOCK ≤ w.source.readable) : w.source.position + BLOCK ≤ U64_MAX := by
  have hroom := h.ready.room
  have := hblock.trans (Nat.min_le_left _ _)
  omega

theorem onRules_ok {α : Type} {step : EStateM ContentFault Rules α} {a : α} (h : onRules step w = .ok a w') :
    ∃ rules, step w.rules = .ok a rules ∧ w' = { w with rules } := by
  unfold onRules at h
  rcases hstep : step w.rules with ⟨a', rules⟩ | ⟨fault, rules⟩ <;> rw [hstep] at h <;> cases h
  exact ⟨rules, rfl, rfl⟩

theorem onRules_error {α : Type} {step : EStateM ContentFault Rules α} (h : onRules step w = .error fault w') :
    ∃ rules, step w.rules = .error fault rules ∧ w' = { w with rules } := by
  unfold onRules at h
  rcases hstep : step w.rules with ⟨a', rules⟩ | ⟨fault', rules⟩ <;> rw [hstep] at h <;> cases h
  exact ⟨rules, rfl, rfl⟩

theorem checkAvailable_ok {n : Nat} (h : checkAvailable n w = .ok () w') : n ≤ w.source.remaining ∧ w' = w := by
  obtain ⟨havailable, rfl⟩ := lift_ok (x := w.source.checkAvailable n) h
  exact ⟨checkAvailable_ok_iff.mp havailable, rfl⟩

theorem checkAvailable_error' {n : Nat} (h : checkAvailable n w = .error fault w') : fault.Placeless ∧ w' = w := by
  obtain ⟨havailable, rfl⟩ := lift_error (x := w.source.checkAvailable n) h
  exact ⟨refuses_checkAvailable _ _ _ havailable, rfl⟩

theorem readFull_whole {len : Nat} (h : Ready w.source) (hlen : len ≤ w.source.readable) :
    onSource (fun source => source.readFull len) w =
      .ok (w.source.source.bytes.take len) { w with source := w.source.advanceBy len } :=
  onSource_ok (readFull_ok h hlen)

theorem readFull_cut {len : Nat} (h : Ready w.source) (hlen : w.source.readable < len) :
    ∃ source, onSource (fun source => source.readFull len) w = .error w.source.shortfall { w with source } := by
  have hfault : ((fun source : StreamReader => source.readFull len) w.source).1 = .error w.source.shortfall :=
    readFull_short h hlen
  exact onSource_error hfault

theorem readFull_outcomes (len : Nat) (h : Ready w.source) :
    (len ≤ w.source.readable ∧ onSource (fun source => source.readFull len) w =
      .ok (w.source.source.bytes.take len) { w with source := w.source.advanceBy len }) ∨
    ∃ source, onSource (fun source => source.readFull len) w = .error w.source.shortfall { w with source } := by
  rcases Nat.lt_or_ge w.source.readable len with hshort | hlen
  · exact .inr (readFull_cut h hshort)
  · exact .inl ⟨hlen, readFull_whole h hlen⟩

variable {typeflag : Typeflag} {header : HeaderFields} {block : Bytes} {headerOffset dataOffset : Nat}

theorem readHeader_ok (h : readHeader block headerOffset w = .ok (typeflag, header, dataOffset) w') :
    ∃ counted, Rules.countHeader w.rules = .ok () counted ∧ decodeHeader counted block = .ok (typeflag, header) ∧
      dataOffset = headerOffset + BLOCK ∧ w' = { w with rules := counted } := by
  obtain ⟨_, _, hrun, h⟩ := bind_ok h
  obtain ⟨counted, hcount, rfl⟩ := onRules_ok hrun
  obtain ⟨_, _, hget, h⟩ := bind_ok h
  cases hget
  obtain ⟨⟨typeflag', header'⟩, _, hrun, h⟩ := bind_ok h
  obtain ⟨hdecode, rfl⟩ := lift_ok hrun
  dsimp only at h
  split at h
  · exact absurd h nofun
  · obtain ⟨hpair, rfl⟩ := EStateM.Result.ok.inj h
    simp only [Prod.mk.injEq] at hpair
    obtain ⟨rfl, rfl, rfl⟩ := hpair
    exact ⟨counted, hcount, hdecode, rfl, rfl⟩

theorem readHeader_error (h : readHeader block headerOffset w = .error fault w') :
    fault.Placeless ∧ (w'.rules = w.rules ∨ Rules.countHeader w.rules = .ok () w'.rules) := by
  rcases bind_error h with hrun | ⟨_, _, hrun, h⟩
  · obtain ⟨rules, hcount, rfl⟩ := onRules_error hrun
    obtain ⟨hfault, rfl⟩ := countHeader_error hcount
    exact ⟨hfault, .inl rfl⟩
  obtain ⟨counted, hcount, rfl⟩ := onRules_ok hrun
  rcases bind_error h with hget | ⟨_, _, hget, h⟩
  · cases hget
  cases hget
  rcases bind_error h with hrun | ⟨⟨typeflag, header⟩, _, hrun, h⟩
  · obtain ⟨hdecode, rfl⟩ := lift_error hrun
    exact ⟨refuses_decodeHeader _ _ _ hdecode, .inr hcount⟩
  obtain ⟨-, rfl⟩ := lift_ok hrun
  dsimp only at h
  split at h
  · obtain ⟨rfl, rfl⟩ := EStateM.Result.error.inj h
    exact ⟨placeless_malformed nofun nofun, .inr hcount⟩
  · exact absurd h nofun

theorem allocLen_ok {len len' : Nat} {limit : ResourceLimit} (h : allocLen len limit = .ok len') : len = len' := by
  unfold allocLen at h
  split at h
  · cases h
  · cases h
    rfl

theorem readExtension_ok {extension : Extension} {len : Nat} {flag : UInt8} (hready : Ready w.source)
    (h : readExtension extension len dataOffset flag w = .ok () w') :
    ∃ limit charged recorded padded, chargeExtension extension len flag w.rules = .ok limit charged ∧
      paddedLen dataOffset len = .ok padded ∧ padded ≤ w.source.remaining ∧ len ≤ w.source.readable ∧
      recordExtension extension (w.source.source.bytes.take len) charged = .ok () recorded ∧
      w' = { w with
        source := w.source.advanceBy len
        rules := recorded
        unreadPadding := padded - len } := by
  obtain ⟨limit, _, hrun, h⟩ := bind_ok h
  obtain ⟨charged, hcharge, rfl⟩ := onRules_ok hrun
  obtain ⟨padded, _, hrun, h⟩ := bind_ok h
  obtain ⟨hpadded, rfl⟩ := lift_ok hrun
  obtain ⟨_, _, hrun, h⟩ := bind_ok h
  obtain ⟨havailable, rfl⟩ := checkAvailable_ok hrun
  obtain ⟨_, _, hrun, h⟩ := bind_ok h
  obtain ⟨halloc, rfl⟩ := lift_ok hrun
  obtain rfl := allocLen_ok halloc
  obtain ⟨payload, _, hrun, h⟩ := bind_ok h
  rcases readFull_outcomes (w := { w with rules := charged }) len hready with ⟨hlen, hread⟩ | ⟨source, hread⟩
  · cases hread.symm.trans hrun
    obtain ⟨_, _, hmodify, h⟩ := bind_ok h
    cases hmodify
    obtain ⟨recorded, hrecord, rfl⟩ := onRules_ok h
    exact ⟨limit, charged, recorded, padded, hcharge, hpadded, havailable, hlen, hrecord, rfl⟩
  · cases hread.symm.trans hrun

theorem refuses_allocLen (len : Nat) (limit : ResourceLimit) : Refuses ContentFault.Placeless (allocLen len limit) :=
  .ite (.error (placeless_limit _ _)) (.ok _)

/-- A record that is refused was not charged, or was charged and then could not be read or recorded. -/
theorem readExtension_error {extension : Extension} {len : Nat} {flag : UInt8} (hready : Ready w.source)
    (h : readExtension extension len dataOffset flag w = .error fault w') :
    chargeExtension extension len flag w.rules = .error fault w'.rules ∨
    ∃ limit charged, chargeExtension extension len flag w.rules = .ok limit charged ∧
      (fault.Placeless ∧ w'.rules = charged ∨
        len ≤ w.source.readable ∧
          recordExtension extension (w.source.source.bytes.take len) charged = .error fault w'.rules) := by
  rcases bind_error h with hrun | ⟨limit, _, hrun, h⟩
  · obtain ⟨rules, hcharge, rfl⟩ := onRules_error hrun
    exact .inl hcharge
  obtain ⟨charged, hcharge, rfl⟩ := onRules_ok hrun
  refine .inr ⟨limit, charged, hcharge, ?_⟩
  rcases bind_error h with hrun | ⟨padded, _, hrun, h⟩
  · obtain ⟨hpadded, rfl⟩ := lift_error hrun
    exact .inl ⟨refuses_paddedLen _ _ _ hpadded, rfl⟩
  obtain ⟨-, rfl⟩ := lift_ok hrun
  rcases bind_error h with hrun | ⟨_, _, hrun, h⟩
  · obtain ⟨hfault, rfl⟩ := checkAvailable_error' hrun
    exact .inl ⟨hfault, rfl⟩
  obtain ⟨-, rfl⟩ := checkAvailable_ok hrun
  rcases bind_error h with hrun | ⟨len', _, hrun, h⟩
  · obtain ⟨halloc, rfl⟩ := lift_error hrun
    exact .inl ⟨refuses_allocLen _ _ _ halloc, rfl⟩
  obtain ⟨halloc, rfl⟩ := lift_ok hrun
  obtain rfl := allocLen_ok halloc
  rcases readFull_outcomes (w := { w with rules := charged }) len hready with ⟨hlen, hread⟩ | ⟨source, hread⟩
  · rcases bind_error h with hrun | ⟨payload, _, hrun, h⟩
    · cases hread.symm.trans hrun
    cases hread.symm.trans hrun
    rcases bind_error h with hmodify | ⟨_, _, hmodify, h⟩
    · cases hmodify
    cases hmodify
    obtain ⟨rules, hrecord, rfl⟩ := onRules_error h
    exact .inr ⟨hlen, hrecord⟩
  · rcases bind_error h with hrun | ⟨payload, _, hrun, h⟩
    · cases hread.symm.trans hrun
      exact .inl ⟨placeless_shortfall _, rfl⟩
    · cases hread.symm.trans hrun

theorem readEntry_ok {kind : EntryKind} {entry : TarEntry}
    (h : readEntry kind header headerOffset dataOffset w = .ok entry w') :
    ∃ admitted taken padded, Rules.admitHeader kind header w.rules = .ok admitted taken ∧
      paddedLen dataOffset admitted.size = .ok padded ∧ padded ≤ w.source.remaining ∧
      entry = {
        kind
        name := admitted.name
        linkTarget := admitted.linkTarget
        size := admitted.size
        headerOffset
        dataOffset
        dataLen := admitted.size } ∧
      w' = { w with
        rules := taken
        unreadData := admitted.size
        unreadPadding := padded - admitted.size } := by
  obtain ⟨admitted, _, hrun, h⟩ := bind_ok h
  obtain ⟨taken, hadmitted, rfl⟩ := onRules_ok hrun
  obtain ⟨padded, _, hrun, h⟩ := bind_ok h
  obtain ⟨hpadded, rfl⟩ := lift_ok hrun
  obtain ⟨_, _, hrun, h⟩ := bind_ok h
  obtain ⟨havailable, rfl⟩ := checkAvailable_ok hrun
  obtain ⟨_, _, hmodify, h⟩ := bind_ok h
  cases hmodify
  cases h
  exact ⟨admitted, taken, padded, hadmitted, hpadded, havailable, rfl, rfl⟩

theorem readEntry_error {kind : EntryKind} (h : readEntry kind header headerOffset dataOffset w = .error fault w') :
    Rules.admitHeader kind header w.rules = .error fault w'.rules ∨
    fault.Placeless ∧ ∃ admitted, Rules.admitHeader kind header w.rules = .ok admitted w'.rules := by
  rcases bind_error h with hrun | ⟨admitted, _, hrun, h⟩
  · obtain ⟨rules, hadmitted, rfl⟩ := onRules_error hrun
    exact .inl hadmitted
  obtain ⟨taken, hadmitted, rfl⟩ := onRules_ok hrun
  rcases bind_error h with hrun | ⟨padded, _, hrun, h⟩
  · obtain ⟨hpadded, rfl⟩ := lift_error hrun
    exact .inr ⟨refuses_paddedLen _ _ _ hpadded, admitted, hadmitted⟩
  obtain ⟨-, rfl⟩ := lift_ok hrun
  rcases bind_error h with hrun | ⟨_, _, hrun, h⟩
  · obtain ⟨hfault, rfl⟩ := checkAvailable_error' hrun
    exact .inr ⟨hfault, admitted, hadmitted⟩
  obtain ⟨-, rfl⟩ := checkAvailable_ok hrun
  rcases bind_error h with hmodify | ⟨_, _, hmodify, h⟩
  · cases hmodify
  cases hmodify
  cases h

theorem readRecord_ok {step : Round} (h : readRecord block headerOffset w = .ok step w') : ∃ typeflag header dataOffset w₁, readHeader block headerOffset w = .ok (typeflag, header, dataOffset) w₁ ∧
      ((∃ extension, typeflag = .extension extension ∧ step = .again ∧
          readExtension extension header.size dataOffset (block.getD TYPEFLAG 0) w₁ = .ok () w') ∨
        ∃ kind entry, typeflag = .entry kind ∧ step = .entry entry ∧
          readEntry kind header headerOffset dataOffset w₁ = .ok entry w') := by
  obtain ⟨⟨typeflag, header, dataOffset⟩, w₁, hheader, h⟩ := bind_ok h
  refine ⟨typeflag, header, dataOffset, w₁, hheader, ?_⟩
  rcases typeflag with kind | extension
  · obtain ⟨entry, _, hentry, h⟩ := bind_ok h
    cases h
    exact .inr ⟨kind, entry, rfl, rfl, hentry⟩
  · obtain ⟨_, _, hextension, h⟩ := bind_ok h
    cases h
    exact .inl ⟨extension, rfl, rfl, hextension⟩

theorem readRecord_error (h : readRecord block headerOffset w = .error fault w') :
    readHeader block headerOffset w = .error fault w' ∨
    ∃ typeflag header dataOffset w₁, readHeader block headerOffset w = .ok (typeflag, header, dataOffset) w₁ ∧
      ((∃ extension, typeflag = .extension extension ∧
          readExtension extension header.size dataOffset (block.getD TYPEFLAG 0) w₁ = .error fault w') ∨
        ∃ kind, typeflag = .entry kind ∧ readEntry kind header headerOffset dataOffset w₁ = .error fault w') := by
  rcases bind_error h with hheader | ⟨⟨typeflag, header, dataOffset⟩, w₁, hheader, h⟩
  · exact .inl hheader
  refine .inr ⟨typeflag, header, dataOffset, w₁, hheader, ?_⟩
  rcases typeflag with kind | extension
  · rcases bind_error h with hentry | ⟨_, _, -, h⟩
    · exact .inr ⟨kind, rfl, hentry⟩
    · cases h
  · rcases bind_error h with hextension | ⟨_, _, -, h⟩
    · exact .inl ⟨extension, rfl, hextension⟩
    · cases h

theorem finishTail_outcomes (hready : Ready w.source) :
    ∃ source, (tailVerdict w.source.spent BLOCK w.source.remaining w.source.source.bytes = .ok () ∧
        finishTail w = .ok () { w with source }) ∨
      ∃ fault, tailVerdict w.source.spent BLOCK w.source.remaining w.source.source.bytes = .error fault ∧
        finishTail w = .error fault { w with source } := by
  have htail : (readTail (w.source.source.bytes.length + 1) w.source BLOCK).1 = _ :=
    readTail_eq hready (Nat.lt_succ_self _) (by decide : BLOCK ≤ MAX_ZERO_TAIL)
  rw [← htail]
  rcases hread : readTail (w.source.source.bytes.length + 1) w.source BLOCK with ⟨fault | _, source⟩
  · exact ⟨source, .inr ⟨fault, rfl, onSource_fault hread⟩⟩
  · exact ⟨source, .inl ⟨rfl, onSource_ok hread⟩⟩

theorem finish_ok {step : Round} (hready : Ready w.source) (h : finish w = .ok step w') :
    step = .finished ∧ w.rules.hasPending = false ∧ w'.rules = w.rules ∧
      tailVerdict w.source.spent BLOCK w.source.remaining w.source.source.bytes = .ok () := by
  obtain ⟨_, _, hget, h⟩ := bind_ok h
  cases hget
  split at h
  · exact absurd h nofun
  next hpending =>
  obtain ⟨_, _, hrun, h⟩ := bind_ok h
  obtain ⟨_, _, hmodify, h⟩ := bind_ok h
  cases hmodify
  cases h
  rcases finishTail_outcomes hready with ⟨source, ⟨htail, hfinish⟩ | ⟨fault, -, hfinish⟩⟩
  · cases hfinish.symm.trans hrun
    exact ⟨rfl, Bool.eq_false_iff.mpr hpending, rfl, htail⟩
  · cases hfinish.symm.trans hrun

theorem finish_error (hready : Ready w.source) (h : finish w = .error fault w') :
    fault.Placeless ∧ w'.rules = w.rules := by
  rcases bind_error h with hget | ⟨_, _, hget, h⟩
  · cases hget
  cases hget
  split at h
  · obtain ⟨rfl, rfl⟩ := EStateM.Result.error.inj h
    exact ⟨placeless_malformed nofun nofun, rfl⟩
  rcases bind_error h with hrun | ⟨_, _, -, h⟩
  · rcases finishTail_outcomes hready with ⟨source, ⟨-, hfinish⟩ | ⟨fault, htail, hfinish⟩⟩
    · cases hfinish.symm.trans hrun
    · cases hfinish.symm.trans hrun
      exact ⟨refuses_tailVerdict (placeless_spent _) _ _ _ _ htail, rfl⟩
  · rcases bind_error h with hmodify | ⟨_, _, -, h⟩
    · cases hmodify
    · cases h

theorem readNext_block (h : Open w) (hblock : BLOCK ≤ w.source.readable) : readNext w =
    (if isZero w.block then finish else readRecord w.block w.source.position)
      { w with source := w.source.advanceBy BLOCK } :=
  (bind_of_ok rfl).trans (bind_of_ok (readFull_whole h.ready hblock))

/-- A round begins with a whole block, or there is none. -/
theorem readNext_cases (h : Open w) :
    (BLOCK ≤ w.source.readable ∧ readNext w =
      (if isZero w.block then finish else readRecord w.block w.source.position)
        { w with source := w.source.advanceBy BLOCK }) ∨
    ∃ source, readNext w = .error w.source.shortfall { w with source } := by
  rcases Nat.lt_or_ge w.source.readable BLOCK with hshort | hblock
  · obtain ⟨source, hread⟩ := readFull_cut h.ready hshort
    exact .inr ⟨source, (bind_of_ok rfl).trans (bind_of_error hread)⟩
  · exact .inl ⟨hblock, readNext_block h hblock⟩

theorem readNext_ok {step : Round} (h : Open w) (hok : readNext w = .ok step w') : Next w step w' := by
  rcases readNext_cases h with ⟨hblock, hread⟩ | ⟨source, hread⟩
  swap
  · cases hread.symm.trans hok
  rw [hread] at hok
  have hready := h.ready.advanceBy (hblock.trans (Nat.min_le_left _ _))
  rcases hzero : isZero w.block with _ | _ <;> rw [hzero] at hok
  · obtain ⟨typeflag, header, dataOffset, w₁, hheader, hcase⟩ := readRecord_ok hok
    obtain ⟨counted, hcount, hdecode, rfl, rfl⟩ := readHeader_ok hheader
    rcases hcase with ⟨extension, rfl, rfl, hextension⟩ | ⟨kind, entry, rfl, rfl, hentry⟩
    · obtain ⟨limit, charged, recorded, padded, hcharge, hpadded, havailable, hpayload, hrecord, rfl⟩ :=
        readExtension_ok hready hextension
      exact .extension (.read ⟨hblock, hzero, hcount, hdecode⟩ hcharge hpadded havailable hpayload hrecord)
    · obtain ⟨admitted, taken, padded, hadmitted, hpadded, havailable, rfl, rfl⟩ := readEntry_ok hentry
      exact .entry (.read ⟨hblock, hzero, hcount, hdecode⟩ hadmitted hpadded havailable)
  · obtain ⟨rfl, hpending, hrules, htail⟩ := finish_ok hready hok
    exact .finished ⟨hblock, hzero, hpending, htail, hrules⟩

theorem readNext_error (h : Open w) (herror : readNext w = .error fault w') : Stops w fault w'.rules := by
  rcases readNext_cases h with ⟨hblock, hread⟩ | ⟨source, hread⟩
  swap
  · cases hread.symm.trans herror
    exact .idle (placeless_shortfall _)
  rw [hread] at herror
  have hready := h.ready.advanceBy (hblock.trans (Nat.min_le_left _ _))
  rcases hzero : isZero w.block with _ | _ <;> rw [hzero] at herror
  · rcases readRecord_error herror with hheader | ⟨typeflag, header, dataOffset, w₁, hheader, hcase⟩
    · obtain ⟨hfault, hrules | hcount⟩ := readHeader_error hheader
      · exact hrules ▸ .idle hfault
      · exact .counted hcount hfault
    obtain ⟨counted, hcount, hdecode, rfl, rfl⟩ := readHeader_ok hheader
    rcases hcase with ⟨extension, rfl, hextension⟩ | ⟨kind, rfl, hentry⟩
    · have hread : HeaderRead w (.extension extension) header counted := ⟨hblock, hzero, hcount, hdecode⟩
      rcases readExtension_error hready hextension with hcharge | ⟨limit, charged, hcharge, ⟨hfault, hrules⟩ | ⟨hpayload, hrecord⟩⟩
      · exact .refused hread hcharge
      · exact hrules ▸ .charged hread hcharge hfault
      · exact .unrecorded hread hcharge hpayload hrecord
    · have hread : HeaderRead w (.entry kind) header counted := ⟨hblock, hzero, hcount, hdecode⟩
      rcases readEntry_error hentry with hadmitted | ⟨hfault, admitted, hadmitted⟩
      · exact .unadmitted hread hadmitted
      · exact .admitted hread hadmitted hfault
  · obtain ⟨hfault, hrules⟩ := finish_error hready herror
    exact hrules ▸ .idle hfault

/-! ### What a round leaves for the next -/

/-- What a record leaves unread, the allowance has room for. -/
theorem Extended.opened {extension : Extension} {header : HeaderFields} (h : Open w) (hunread : w.unread = 0)
    (hextended : Extended w extension header w') : Open w' := by
  have hdata : w.unreadData = 0 := by
    unfold TarWalker.unread at hunread
    omega
  obtain @⟨_, padded, _, _, _, hread, _, hpadded, havailable, hpayload, _⟩ := hextended
  have hready := h.ready.advanceBy (hread.readable.trans (Nat.min_le_left _ _))
  have hlen := hpayload.trans (Nat.min_le_left _ _)
  refine ⟨h.latch, h.finished, hready.advanceBy hlen, h.copyBuffer, ?_⟩
  show w.unreadData + (padded - header.size) ≤ ((w.source.advanceBy BLOCK).advanceBy header.size).remaining
  rw [remaining_advanceBy hlen]
  omega

theorem Entered.opened {kind : EntryKind} {header : HeaderFields} {entry : TarEntry} (h : Open w)
    (hentered : Entered w kind header entry w') : Open w' := by
  obtain ⟨hread, _, hpadded, havailable⟩ := hentered
  have hready := h.ready.advanceBy (hread.readable.trans (Nat.min_le_left _ _))
  refine ⟨h.latch, h.finished, hready, h.copyBuffer, ?_⟩
  show _ + (_ - _) ≤ CountingReader.remaining _
  rw [Nat.add_sub_cancel' (paddedLen_ok hpadded).2.1]
  exact havailable

theorem Open.steady_or_doomed (h : Open w) : Steady w ∨ Doomed w := by
  rcases Nat.lt_or_ge w.source.source.bytes.length w.unread with hshort | hwhole
  · exact .inr (.inr ⟨h, hshort⟩)
  · exact .inl ⟨h, hwhole⟩

theorem round_of_steady (h : Steady w) : round w = readNext w.settled :=
  bind_of_ok (skipUnread_ok h)

theorem round_of_doomed (hlatch : w.latch = none) (h : Doomed w) :
    ∃ w', round w = .error (.malformed .truncated) w' ∧ w'.rules = w.rules ∧ w'.latch = none := by
  rcases h with hdoomed | ⟨hopen, hshort⟩
  · rw [hlatch] at hdoomed
    cases hdoomed
  · obtain ⟨w', hskip, hrules, hlatch'⟩ := skipUnread_short hopen hshort
    exact ⟨w', bind_of_error hskip, hrules, hlatch'⟩

end TarWalker

end DeployCore
