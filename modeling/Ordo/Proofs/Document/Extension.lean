import Ordo.Document.Basic
import Ordo.Proofs.Result

namespace Ordo

-- Whether each name that has a value in `b` has the same value in `b'`.
def Bindings.Extends (b' b : Bindings) : Prop :=
  ∀ n v, b.get? n = some v → b'.get? n = some v

variable {b b' : Bindings} {r : Bool}

theorem Bindings.extends_withRank (h : b.get? rankName = none) (rank : Float) :
    (b.withRank rank).Extends b := by
  intro n v hn
  rw [withRank, Dictionary.get?_insert]
  split
  case isTrue hr =>
    subst hr
    cases h.symm.trans hn
  case isFalse => exact hn

namespace Formula

theorem Tree.eval_of_extends (h : b'.Extends b) {t : Tree} {v : Value} (hv : t.eval b = .ok v) :
    t.eval b' = .ok v := by
  induction t generalizing v
  case literal => exact hv
  case name n =>
    rw [eval] at hv
    split at hv
    case h_1 hn =>
      cases hv
      rw [eval, h n v hn]
    case h_2 => cases hv
  case unary op x hx =>
    obtain ⟨w, hw, hv⟩ := bind_eq_ok_iff.mp hv
    exact bind_eq_ok_iff.mpr ⟨w, hx hw, hv⟩
  case binary op x y hx hy =>
    obtain ⟨w, hw, hv⟩ := bind_eq_ok_iff.mp hv
    obtain ⟨w', hw', hv⟩ := bind_eq_ok_iff.mp hv
    exact bind_eq_ok_iff.mpr ⟨w, hx hw, bind_eq_ok_iff.mpr ⟨w', hy hw', hv⟩⟩
  case logical op x y hx hy =>
    obtain ⟨w, hw, hv⟩ := bind_eq_ok_iff.mp hv
    refine bind_eq_ok_iff.mpr ⟨w, hx hw, ?_⟩
    split at hv
    case isTrue hd  => rwa [if_pos hd]
    case isFalse hd => rw [if_neg hd, hy hv]
  case conditional c x y hc hx hy =>
    obtain ⟨w, hw, hv⟩ := bind_eq_ok_iff.mp hv
    refine bind_eq_ok_iff.mpr ⟨w, hc hw, ?_⟩
    split at hv
    case isTrue hd  => rw [if_pos hd, hx hv]
    case isFalse hd => rw [if_neg hd, hy hv]

theorem evaluate_of_extends (h : b'.Extends b) {source : String} {v : Value}
    (hv : evaluate source b = .ok v) : evaluate source b' = .ok v := by
  obtain ⟨f, hf, hv⟩ := bind_eq_ok_iff.mp hv
  have hv := Tree.eval_of_extends h (mapError_eq_ok_iff.mp hv)
  exact bind_eq_ok_iff.mpr ⟨f, hf, mapError_eq_ok_iff.mpr hv⟩

end Formula

namespace Markup

variable {p : Pruner} {e : Event} {es kept : List Event}

theorem guardHolds_of_extends (h : b'.Extends b) {attributes : Attributes}
    (hr : guardHolds attributes b = .ok r) : guardHolds attributes b' = .ok r := by
  rw [guardHolds] at hr ⊢
  split at hr
  case h_1 => exact hr
  case h_2 =>
    obtain ⟨v, hv, hr⟩ := map_eq_ok_iff.mp hr
    exact map_eq_ok_iff.mpr ⟨v, Formula.evaluate_of_extends h hv, hr⟩

theorem Pruner.feed_of_extends (h : b'.Extends b) {q : Pruner × Option Event}
    (hq : p.feed e b = .ok q) : p.feed e b' = .ok q := by
  cases e
  case exit => exact hq
  case text => exact hq
  case enter tag attributes =>
    rw [feed] at hq ⊢
    split
    case isTrue hs => rwa [if_pos hs] at hq
    case isFalse hs =>
      rw [if_neg hs] at hq
      obtain ⟨r, hr, hq⟩ := bind_eq_ok_iff.mp hq
      exact bind_eq_ok_iff.mpr ⟨r, guardHolds_of_extends h hr, hq⟩

-- A run to the end, event by event.
theorem Pruner.run_cons_eq_none_iff : run b p (e :: es) = (kept, none) ↔
    ∃ p' k rest, p.feed e b = .ok (p', k) ∧ run b p' es = (rest, none) ∧ k.toList ++ rest = kept := by
  rw [run]
  rcases p.feed e b with f | ⟨p', k⟩
  case error => simp
  case ok =>
    constructor
    case mp =>
      intro h
      exact ⟨p', k, (run b p' es).1, rfl, Prod.ext rfl (congrArg (·.2) h), congrArg (·.1) h⟩
    case mpr =>
      rintro ⟨_, _, rest, hf, hr, rfl⟩
      cases hf
      simp only [hr]

theorem Pruner.run_of_extends (h : b'.Extends b) (hr : run b p es = (kept, none)) :
    run b' p es = (kept, none) := by
  induction es generalizing p kept
  case nil => exact hr
  case cons e es hi =>
    obtain ⟨p', k, rest, hf, hr, hk⟩ := run_cons_eq_none_iff.mp hr
    exact run_cons_eq_none_iff.mpr ⟨p', k, rest, feed_of_extends h hf, hi hr, hk⟩

end Markup

namespace Document

variable {source : String} {es : List Markup.Element}

theorem survivors_eq_ok_iff : survivors source b = .ok es ↔ ∃ events kept,
    Markup.read source = .ok events ∧ Markup.prune b events = (kept, none) ∧
      Markup.elements kept = es := by
  constructor
  case mp =>
    intro h
    obtain ⟨events, he, h⟩ := bind_eq_ok_iff.mp h
    split at h
    case h_1 kept hp =>
      cases h
      exact ⟨events, kept, mapError_eq_ok_iff.mp he, hp, rfl⟩
    case h_2 => cases h
  case mpr =>
    rintro ⟨events, kept, he, hp, rfl⟩
    refine bind_eq_ok_iff.mpr ⟨events, mapError_eq_ok_iff.mpr he, ?_⟩
    rw [hp]
    rfl

theorem survivors_of_extends (h : b'.Extends b) (hs : survivors source b = .ok es) :
    survivors source b' = .ok es := by
  obtain ⟨events, kept, he, hp, hk⟩ := survivors_eq_ok_iff.mp hs
  exact survivors_eq_ok_iff.mpr ⟨events, kept, he, Markup.Pruner.run_of_extends h hp, hk⟩

end Document

end Ordo
