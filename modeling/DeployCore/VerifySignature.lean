import DeployCore.Reader
import DeployCore.Trust
import DeployCore.VerifyError

/-! # Verifying one signature

`verifySignature` tries the anchors of one algorithm: the one the container's `key_id` block names first, then
the others, the revoked ones last. `TrustSet.Vouches` is what it decides, and the hint has no part in that. -/

namespace DeployCore

/-- The `key_id` block read as a hint: lowercase hexadecimal characters, or no hint. -/
def usableHint : EnvelopeBlock → Option String
  | .present bytes =>
    let text := bytes.map fun byte => Char.ofNat byte.toNat
    if text.all isLowerHexDigit then some (.ofList text) else none
  | .absent | .wrongLength => none

/-- Whether the anchor verifies the block; a block that was not read verifies under no anchor. -/
def verifiesBlock (lib : Externals) (message : Bytes) (signature : EnvelopeBlock) (anchor : TrustAnchor) : Bool :=
  match signature with
  | .present bytes => anchor.verifies lib message bytes
  | .absent | .wrongLength => false

/-- The set's anchors of one algorithm. -/
def TrustSet.anchorsOf (trust : TrustSet) (algorithm : SignatureAlgorithm) : List TrustAnchor :=
  trust.anchors.filter (·.algorithm = algorithm)

/-- Verifies the container's `algorithm` signature over its raw manifest bytes. -/
def verifySignature (lib : Externals) (algorithm : SignatureAlgorithm) (message : Bytes)
    (signature keyIdBlock : EnvelopeBlock) (trust : TrustSet) : Except VerifyError String :=
  if signature = .absent then .error (.badSignature algorithm)
  else
    let hint := usableHint keyIdBlock
    let verifies := verifiesBlock lib message signature
    let anchors := trust.anchorsOf algorithm
    let hinted := hint.bind fun hint => anchors.find? fun anchor => !anchor.revoked && anchor.keyId = hint
    match hinted.filter verifies with
    | some anchor => .ok anchor.keyId
    | none =>
      match (anchors.filter (!·.revoked)).find? verifies with
      | some anchor => .ok anchor.keyId
      | none =>
        match (anchors.filter (·.revoked)).find? verifies with
        | some anchor => .error (.revokedKey algorithm anchor.keyId)
        | none =>
          match hint with
          | some hint =>
            if anchors.any (·.keyId = hint) then .error (.badSignature algorithm)
            else .error (.unknownKeyId algorithm hint)
          | none => .error (.badSignature algorithm)

section
variable {lib : Externals} {algorithm : SignatureAlgorithm} {message : Bytes} {signature keyIdBlock : EnvelopeBlock}
  {trust : TrustSet} {anchor : TrustAnchor} {id : String}

/-- The anchor is one of the algorithm's, delivered with this revocation flag, and the signature verifies under
it. -/
structure TrustSet.Vouches (lib : Externals) (trust : TrustSet) (algorithm : SignatureAlgorithm) (message : Bytes)
    (signature : EnvelopeBlock) (revoked : Bool) (anchor : TrustAnchor) : Prop where
  mem : anchor ∈ trust.anchors
  algorithm_eq : anchor.algorithm = algorithm
  revoked_eq : anchor.revoked = revoked
  verifies : ∃ bytes, signature = .present bytes ∧ lib.verifies algorithm anchor.publicKey message bytes = true

theorem TrustSet.mem_anchorsOf : anchor ∈ trust.anchorsOf algorithm ↔ anchor ∈ trust.anchors ∧ anchor.algorithm = algorithm := by
  simp [anchorsOf]

theorem verifiesBlock_iff : verifiesBlock lib message signature anchor = true ↔
    ∃ bytes, signature = .present bytes ∧ lib.verifies anchor.algorithm anchor.publicKey message bytes = true := by
  cases signature <;> simp [verifiesBlock, TrustAnchor.verifies]

theorem TrustSet.vouches_iff {revoked : Bool} : trust.Vouches lib algorithm message signature revoked anchor ↔
    anchor ∈ trust.anchorsOf algorithm ∧ anchor.revoked = revoked ∧ verifiesBlock lib message signature anchor = true := by
  rw [mem_anchorsOf, verifiesBlock_iff]
  constructor
  · rintro ⟨hmem, rfl, hrevoked, hverifies⟩
    exact ⟨⟨hmem, rfl⟩, hrevoked, hverifies⟩
  · rintro ⟨⟨hmem, rfl⟩, hrevoked, hverifies⟩
    exact ⟨hmem, rfl, hrevoked, hverifies⟩

/-- The anchors that vouch, in the set's order. -/
def TrustSet.firstVouching (lib : Externals) (trust : TrustSet) (algorithm : SignatureAlgorithm) (message : Bytes)
    (signature : EnvelopeBlock) (revoked : Bool) : Option TrustAnchor :=
  ((trust.anchorsOf algorithm).filter (·.revoked = revoked)).find? (verifiesBlock lib message signature)

theorem TrustSet.firstVouching_eq_none {revoked : Bool} :
    trust.firstVouching lib algorithm message signature revoked = none ↔
      ∀ anchor, ¬trust.Vouches lib algorithm message signature revoked anchor := by
  rw [firstVouching, List.find?_eq_none]
  simp only [List.mem_filter, decide_eq_true_eq, vouches_iff, not_and, and_imp]

theorem TrustSet.vouches_of_firstVouching {revoked : Bool}
    (h : trust.firstVouching lib algorithm message signature revoked = some anchor) :
    trust.Vouches lib algorithm message signature revoked anchor := by
  have hmem := List.mem_of_find?_eq_some h
  rw [List.mem_filter, decide_eq_true_eq] at hmem
  exact vouches_iff.mpr ⟨hmem.1, hmem.2, List.find?_some h⟩

theorem TrustSet.not_vouches_absent {revoked : Bool} :
    ¬trust.Vouches lib algorithm message .absent revoked anchor := by
  rintro ⟨-, -, -, bytes, h, -⟩
  cases h

theorem find?_active : ((trust.anchorsOf algorithm).filter (!·.revoked)).find? (verifiesBlock lib message signature) =
    trust.firstVouching lib algorithm message signature false := by
  rw [TrustSet.firstVouching]
  congr 1
  exact List.filter_congr fun a _ => by cases a.revoked <;> rfl

theorem find?_revoked : ((trust.anchorsOf algorithm).filter (·.revoked)).find? (verifiesBlock lib message signature) =
    trust.firstVouching lib algorithm message signature true := by
  rw [TrustSet.firstVouching]
  congr 1
  exact List.filter_congr fun a _ => by cases a.revoked <;> rfl

/-- The anchor a hint names vouches, if it verifies. -/
theorem vouches_of_hinted {hint : Option String}
    (h : (hint.bind fun hint => (trust.anchorsOf algorithm).find? fun a => !a.revoked && a.keyId = hint).filter
      (verifiesBlock lib message signature) = some anchor) :
    trust.Vouches lib algorithm message signature false anchor := by
  obtain ⟨hfound, hverifies⟩ := Option.filter_eq_some_iff.mp h
  obtain ⟨hint, -, hfind⟩ := Option.bind_eq_some_iff.mp hfound
  have hnamed := List.find?_some hfind
  simp only [Bool.and_eq_true, Bool.not_eq_true', decide_eq_true_eq] at hnamed
  exact TrustSet.vouches_iff.mpr ⟨List.mem_of_find?_eq_some hfind, hnamed.1, hverifies⟩

/-- Some anchor vouches, and whatever the hint one of these is answered. -/
theorem verifySignature_of_vouches (keyIdBlock : EnvelopeBlock)
    (h : trust.Vouches lib algorithm message signature false anchor) :
    ∃ anchor', trust.Vouches lib algorithm message signature false anchor' ∧
      verifySignature lib algorithm message signature keyIdBlock trust = .ok anchor'.keyId := by
  have hpresent : signature ≠ .absent := by
    rintro rfl
    exact TrustSet.not_vouches_absent h
  rw [verifySignature, if_neg hpresent]
  simp only [find?_active]
  split
  · next hinted heq => exact ⟨hinted, vouches_of_hinted heq, rfl⟩
  · cases hfirst : trust.firstVouching lib algorithm message signature false with
    | some first => exact ⟨first, TrustSet.vouches_of_firstVouching hfirst, rfl⟩
    | none => exact absurd h (TrustSet.firstVouching_eq_none.mp hfirst anchor)

/-- No anchor vouches, and the refusal names the first revoked one that would, if there is one; the hint decides
between the two other refusals. -/
theorem verifySignature_of_none (keyIdBlock : EnvelopeBlock)
    (h : ∀ anchor, ¬trust.Vouches lib algorithm message signature false anchor) :
    match trust.firstVouching lib algorithm message signature true with
    | some anchor =>
      verifySignature lib algorithm message signature keyIdBlock trust = .error (.revokedKey algorithm anchor.keyId)
    | none =>
      verifySignature lib algorithm message signature keyIdBlock trust = .error (.badSignature algorithm) ∨
        ∃ hint, verifySignature lib algorithm message signature keyIdBlock trust = .error (.unknownKeyId algorithm hint) := by
  by_cases habsent : signature = .absent
  · subst habsent
    rw [TrustSet.firstVouching_eq_none.mpr fun _ => TrustSet.not_vouches_absent]
    exact .inl (if_pos rfl)
  · have hinted (hint : Option String) :
        (hint.bind fun hint => (trust.anchorsOf algorithm).find? fun a => !a.revoked && a.keyId = hint).filter
          (verifiesBlock lib message signature) = none :=
      Option.eq_none_iff_forall_not_mem.mpr fun anchor hanchor => h anchor (vouches_of_hinted hanchor)
    simp only [verifySignature, if_neg habsent, hinted, find?_active, find?_revoked,
      TrustSet.firstVouching_eq_none.mpr h]
    cases trust.firstVouching lib algorithm message signature true with
    | some anchor => rfl
    | none =>
      cases usableHint keyIdBlock with
      | none => exact .inl rfl
      | some hint =>
        dsimp only
        split
        · exact .inl rfl
        · exact .inr ⟨hint, rfl⟩

theorem verifySignature_ok_iff : (∃ id, verifySignature lib algorithm message signature keyIdBlock trust = .ok id) ↔
    ∃ anchor, trust.Vouches lib algorithm message signature false anchor := by
  constructor
  · rintro ⟨id, hid⟩
    by_contra hnone
    have hcases := verifySignature_of_none keyIdBlock (not_exists.mp hnone)
    split at hcases
    · rw [hid] at hcases
      cases hcases
    · rcases hcases with hbad | ⟨hint, hunknown⟩
      · rw [hid] at hbad
        cases hbad
      · rw [hid] at hunknown
        cases hunknown
  · rintro ⟨anchor, hanchor⟩
    obtain ⟨anchor', -, heq⟩ := verifySignature_of_vouches keyIdBlock hanchor
    exact ⟨_, heq⟩

/-- The key id of an acceptance is one of an anchor that vouches. -/
theorem exists_vouching_of_ok (h : verifySignature lib algorithm message signature keyIdBlock trust = .ok id) :
    ∃ anchor, trust.Vouches lib algorithm message signature false anchor ∧ anchor.keyId = id := by
  obtain ⟨anchor, hanchor⟩ := verifySignature_ok_iff.mp ⟨id, h⟩
  obtain ⟨anchor', hanchor', heq⟩ := verifySignature_of_vouches keyIdBlock hanchor
  exact ⟨anchor', hanchor', Except.ok.inj (heq.symm.trans h)⟩

/-- The refusal that names a revoked key, and the key it names. -/
theorem verifySignature_revoked_iff :
    verifySignature lib algorithm message signature keyIdBlock trust = .error (.revokedKey algorithm id) ↔
      (∀ anchor, ¬trust.Vouches lib algorithm message signature false anchor) ∧
        ∃ anchor, trust.firstVouching lib algorithm message signature true = some anchor ∧ anchor.keyId = id := by
  constructor
  · intro h
    have hnone : ∀ anchor, ¬trust.Vouches lib algorithm message signature false anchor := by
      intro anchor hanchor
      obtain ⟨anchor', -, heq⟩ := verifySignature_of_vouches keyIdBlock hanchor
      cases h.symm.trans heq
    refine ⟨hnone, ?_⟩
    have hcases := verifySignature_of_none keyIdBlock hnone
    split at hcases
    · next anchor hfirst =>
      cases h.symm.trans hcases
      exact ⟨anchor, hfirst, rfl⟩
    · rcases hcases with hbad | ⟨hint, hunknown⟩
      · cases h.symm.trans hbad
      · cases h.symm.trans hunknown
  · rintro ⟨hnone, anchor, hfirst, rfl⟩
    have hcases := verifySignature_of_none keyIdBlock hnone
    rwa [hfirst] at hcases

/-- Only the anchors of the algorithm are looked at. -/
theorem verifySignature_congr {trust' : TrustSet} (h : trust'.anchorsOf algorithm = trust.anchorsOf algorithm) :
    verifySignature lib algorithm message signature keyIdBlock trust' =
      verifySignature lib algorithm message signature keyIdBlock trust := by
  unfold verifySignature
  rw [h]

end

/-- The `key_id` block is a hint: whatever it holds, a signature is accepted just when an anchor of its algorithm
that is not revoked verifies it, and by such an anchor; it is refused for a revoked key, and for which one, just
when only revoked anchors of that algorithm do; and no other anchor has a part in the answer. -/
theorem verifySignature_hint_free (lib : Externals) (algorithm : SignatureAlgorithm) (message : Bytes)
    (signature : EnvelopeBlock) (trust : TrustSet) :
    (∀ hint hint', (∃ id, verifySignature lib algorithm message signature hint trust = .ok id) ↔
      ∃ id, verifySignature lib algorithm message signature hint' trust = .ok id) ∧
    (∀ hint, (∃ id, verifySignature lib algorithm message signature hint trust = .ok id) ↔
      ∃ anchor, trust.Vouches lib algorithm message signature false anchor) ∧
    (∀ hint id, verifySignature lib algorithm message signature hint trust = .ok id →
      ∃ anchor, trust.Vouches lib algorithm message signature false anchor ∧ anchor.keyId = id) ∧
    (∀ hint, (∃ id, verifySignature lib algorithm message signature hint trust = .error (.revokedKey algorithm id)) ↔
      (¬∃ anchor, trust.Vouches lib algorithm message signature false anchor) ∧
        ∃ anchor, trust.Vouches lib algorithm message signature true anchor) ∧
    (∀ hint hint' id, verifySignature lib algorithm message signature hint trust = .error (.revokedKey algorithm id) →
      verifySignature lib algorithm message signature hint' trust = .error (.revokedKey algorithm id)) ∧
    (∀ hint id, verifySignature lib algorithm message signature hint trust = .error (.revokedKey algorithm id) →
      ∃ anchor, trust.Vouches lib algorithm message signature true anchor ∧ anchor.keyId = id) ∧
    ∀ trust' : TrustSet, trust'.anchorsOf algorithm = trust.anchorsOf algorithm → ∀ hint,
      verifySignature lib algorithm message signature hint trust' =
        verifySignature lib algorithm message signature hint trust := by
  refine ⟨fun hint hint' => verifySignature_ok_iff.trans verifySignature_ok_iff.symm,
    fun hint => verifySignature_ok_iff, fun hint id => exists_vouching_of_ok, fun hint => ?_,
    fun hint hint' id h => verifySignature_revoked_iff.mpr (verifySignature_revoked_iff.mp h), fun hint id h => ?_,
    fun trust' h hint => verifySignature_congr h⟩
  · simp only [verifySignature_revoked_iff, not_exists]
    constructor
    · rintro ⟨id, hnone, anchor, hfirst, -⟩
      exact ⟨hnone, anchor, TrustSet.vouches_of_firstVouching hfirst⟩
    · rintro ⟨hnone, anchor, hanchor⟩
      cases hfirst : trust.firstVouching lib algorithm message signature true with
      | none => exact absurd hanchor (TrustSet.firstVouching_eq_none.mp hfirst anchor)
      | some first => exact ⟨first.keyId, hnone, first, rfl, rfl⟩
  · obtain ⟨-, anchor, hfirst, heq⟩ := verifySignature_revoked_iff.mp h
    exact ⟨anchor, TrustSet.vouches_of_firstVouching hfirst, heq⟩

end DeployCore
