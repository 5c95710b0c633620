import DeployCore.Lib.Serde

/-! # What a decoder guarantees

`Ensures` says of a decoder that whatever it reads from a text satisfies a property; the lemmas are one for each
combinator of `Decoder`. -/

namespace Serde
open Json

variable {α β : Type} {D : Decoder α} {P : α → Prop} {Q : β → Prop}

namespace Decoder

/-- Whatever is read satisfies `P`. -/
def Ensures (D : Decoder α) (P : α → Prop) : Prop := ∀ t d a, D.text t d = some a → P a

theorem Ensures.mono {P' : α → Prop} (h : D.Ensures P) (himp : ∀ a, P a → P' a) : D.Ensures P' :=
  fun _ _ _ ha => himp _ (h _ _ _ ha)

theorem ensures_true : D.Ensures fun _ => True := fun _ _ _ _ => trivial

theorem ensures_refine {f : α → Option β} (h : ∀ a b, f a = some b → Q b) : (D.refine f).Ensures Q := by
  intro t d b hb
  obtain ⟨a, -, hfa⟩ := Option.bind_eq_some_iff.mp hb
  exact h a b hfa

theorem Ensures.option (h : D.Ensures P) : D.option.Ensures fun o => ∀ a, o = some a → P a := by
  rintro t d o ho a rfl
  cases t with
  | null => cases ho
  | _ =>
    obtain ⟨b, hb, heq⟩ := Option.map_eq_some_iff.mp ho
    cases heq
    exact h _ _ _ hb

end Decoder

namespace Fields

/-- Whatever is read satisfies `P`, from members or from items. -/
structure Ensures (F : Fields α) (P : α → Prop) : Prop where
  text : ∀ {ms d a}, F.text ms d = some a → P a
  seqText : ∀ {ts d a}, F.seqText ts d = some a → P a

theorem ensures_nil : nil.Ensures fun _ => True := ⟨fun _ => trivial, fun _ => trivial⟩

theorem fieldText_ensures {name : String} {default : Option α} {ms : List (String × Text)} {d : Nat} {a : α}
    (h : D.Ensures P) (hdefault : ∀ a, default = some a → P a) (ha : fieldText name default D ms d = some a) : P a := by
  unfold fieldText at ha
  split at ha
  · exact hdefault a ha
  · exact h _ _ _ ha
  · cases ha

theorem Ensures.cons {name : String} {default : Option α} {F : Fields β} (h : D.Ensures P)
    (hdefault : ∀ a, default = some a → P a) (hrest : F.Ensures Q) :
    (Fields.cons name default D F).Ensures fun ab => P ab.1 ∧ Q ab.2 := by
  constructor
  · intro ms d ab hab
    simp only [Fields.cons, Option.bind_eq_bind, Option.bind_eq_some_iff, Option.some.injEq] at hab
    obtain ⟨a, ha, b, hb, rfl⟩ := hab
    exact ⟨fieldText_ensures h hdefault ha, hrest.text hb⟩
  · intro ts d ab hab
    cases ts with
    | nil =>
      simp only [Fields.cons, Option.bind_eq_bind, Option.bind_eq_some_iff, Option.some.injEq] at hab
      obtain ⟨a, ha, b, hb, rfl⟩ := hab
      exact ⟨hdefault a ha, hrest.seqText hb⟩
    | cons t ts =>
      simp only [Fields.cons, Option.bind_eq_bind, Option.bind_eq_some_iff, Option.some.injEq] at hab
      obtain ⟨a, ha, b, hb, rfl⟩ := hab
      exact ⟨h _ _ _ ha, hrest.seqText hb⟩

/-- A field that is always written. -/
theorem Ensures.required {name : String} {F : Fields β} (h : D.Ensures P) (hrest : F.Ensures Q) :
    (Fields.cons name none D F).Ensures fun ab => P ab.1 ∧ Q ab.2 :=
  .cons h (fun _ he => by cases he) hrest

end Fields

theorem Decoder.ensures_record {deny : Bool} {F : Fields α} {f : α → β} (h : F.Ensures P) (hf : ∀ a, P a → Q (f a)) :
    (Decoder.record deny F f).Ensures Q := by
  intro t d b hb
  cases t with
  | arr items =>
    simp only [record] at hb
    split at hb
    · cases hb
    · obtain ⟨a, ha, rfl⟩ := Option.map_eq_some_iff.mp hb
      exact hf a (h.seqText ha)
  | obj members =>
    obtain ⟨ms, a, -, ha, rfl⟩ := record_text_obj hb
    exact hf a (h.text ha)
  | _ => cases hb

end Serde
