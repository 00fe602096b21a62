import Ordo.Document.Biography
import Ordo.Proofs.Document.Extension
import Ordo.Proofs.Document.Flat

namespace Ordo.Document

open Markup (Element Event Pruner)

-- Whether what remains of two documents is the same but for its order.
def Reordered (b : Bindings) (source source' : String) : Prop :=
  ∃ es es', survivors source b = .ok es ∧ survivors source' b = .ok es' ∧ es.Perm es'

instance (b : Bindings) (source source' : String) : Decidable (Reordered b source source') :=
  decidable_of_iff
    (∃ es ∈ (survivors source b).toOption, ∃ es' ∈ (survivors source' b).toOption, es.Perm es') <| by
    simp only [Option.mem_def, toOption_eq_some_iff, Reordered, exists_and_left]

-- Whether a document is still the same or, if it is one of a cycle, a reordered one.
def AlikeButOrder (b : Bindings) (source source' : String) : Prop :=
  source' = source ∨
    Reordered b source source' ∧ ∀ es, survivors source b = .ok es → ∀ e ∈ es, e.tag ∈ cycleTags

variable {α : Type} {b b' : Bindings} {source source' : String} {es : List Element}

theorem AlikeButOrder.exists_survivors (h : AlikeButOrder b source source')
    (hs : survivors source b = .ok es) : ∃ es', survivors source' b = .ok es' ∧ es.Perm es' := by
  rcases h with rfl | ⟨⟨es₁, es', h₁, h', hp⟩, -⟩
  case inl => exact ⟨es, hs, .refl es⟩
  case inr =>
    cases h₁.symm.trans hs
    exact ⟨es', h', hp⟩

-- A document of another kind can only be one of a cycle if nothing remains of it.
theorem AlikeButOrder.records_eq_ok {read : Element → Except Error (Option α)} {as : List α}
    (hr : ∀ e r, read e = .ok r → e.tag ∉ cycleTags) (h : AlikeButOrder b source source')
    (hb : b'.Extends b) (ha : records read source b' = .ok as) :
    records read source' b' = .ok as := by
  rcases h with rfl | ⟨⟨es, es', hs, hs', hp⟩, ht⟩
  case inl => exact ha
  case inr =>
    obtain ⟨es₁, rs, h₁, hrs, rfl⟩ := records_eq_ok_iff.mp ha
    cases (survivors_of_extends hb hs).symm.trans h₁
    cases es
    case nil =>
      cases hp.nil_eq
      exact records_eq_ok_iff.mpr ⟨[], rs, survivors_of_extends hb hs', hrs, rfl⟩
    case cons e es =>
      obtain ⟨r, _, he, _⟩ := mapM_cons_eq_ok_iff.mp hrs
      exact absurd (ht _ hs e List.mem_cons_self) (hr e r he)

namespace Walk

-- The elements of a cycle do not concern a biography that has not begun.
theorem step_of_cycle {e : Event} (he : ∀ d ∈ Markup.elements [e], d.tag ∈ cycleTags) :
    ({} : Walk).step e b = .ok ({}, b) := by
  cases e
  case text => rfl
  case exit tag =>
    simp only [step, exit]
    split
    case isTrue  => rfl
    case isFalse => split <;> rfl
  case enter tag attributes =>
    have ht : tag ∈ cycleTags := he ⟨tag, attributes⟩ List.mem_cons_self
    simp only [cycleTags, List.mem_cons, List.not_mem_nil, or_false] at ht
    rcases ht with rfl | rfl
    all_goals rfl

theorem run_of_cycle {p : Pruner} {es kept : List Event} (hr : Pruner.run b p es = (kept, none))
    (hk : ∀ d ∈ Markup.elements kept, d.tag ∈ cycleTags) :
    (({} : Walk).run p b es).1 = .ok {} := by
  induction es generalizing p kept
  case nil => rfl
  case cons e es hi =>
    obtain ⟨p', k, rest, hf, hrest, rfl⟩ := Pruner.run_cons_eq_none_iff.mp hr
    rw [Markup.elements, List.filterMap_append] at hk
    have hi := hi hrest fun d hd => hk d (List.mem_append_right _ hd)
    cases k
    case none =>
      rw [run]
      simp only [hf]
      exact hi
    case some e' =>
      have he := step_of_cycle (b := b) fun d hd => hk d (List.mem_append_left _ hd)
      rw [run]
      simp only [hf, he]
      exact hi

end Walk

theorem biography_of_cycle (hs : survivors source b = .ok es) (ht : ∀ e ∈ es, e.tag ∈ cycleTags) :
    (biography source b).1 = .ok {} := by
  obtain ⟨events, kept, he, hp, rfl⟩ := survivors_eq_ok_iff.mp hs
  rw [biography, he]
  exact Walk.run_of_cycle hp ht

theorem AlikeButOrder.biography_eq (h : AlikeButOrder b source source') (hb : b'.Extends b) :
    (biography source' b').1 = (biography source b').1 := by
  rcases h with rfl | ⟨⟨es, es', hs, hs', hp⟩, ht⟩
  case inl => rfl
  case inr =>
    have ht := ht es hs
    rw [biography_of_cycle (survivors_of_extends hb hs) ht]
    exact biography_of_cycle (survivors_of_extends hb hs') fun e he => ht e (hp.mem_iff.mpr he)

end Ordo.Document
