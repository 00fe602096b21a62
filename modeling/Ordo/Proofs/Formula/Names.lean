import Ordo.Markup.Pruner
import Ordo.Proofs.Result

namespace Ordo

namespace Bindings

variable {b : Bindings} {names : List String}

def Binds (b : Bindings) (names : List String) : Prop :=
  ∀ n ∈ names, ∃ v, b.get? n = some v

theorem Binds.withRank (h : b.Binds names) (rank : Float) :
    (b.withRank rank).Binds (rankName :: names) := by
  intro n hn
  rw [Bindings.withRank, Dictionary.get?_insert]
  split
  case isTrue     => exact ⟨_, rfl⟩
  case isFalse hr => exact h n ((List.mem_cons.mp hn).resolve_left hr)

theorem Binds.withRank_again (h : b.Binds (rankName :: names)) (rank : Float) :
    (b.withRank rank).Binds (rankName :: names) :=
  fun n hn => h.withRank rank n (List.mem_cons_of_mem _ hn)

end Bindings

namespace Formula

-- The names in a tree, including those in parts that an evaluation would not come to.
def Tree.names : Tree → List String
  | literal _ => []
  | name n => [n]
  | unary _ x => x.names
  | binary _ x y | logical _ x y => x.names ++ y.names
  | conditional c x y => c.names ++ x.names ++ y.names

-- Whether `source` is a formula with no names other than `names`.
def MentionsOnly (names : List String) (source : String) : Prop :=
  ∃ f, parse source = .ok f ∧ ∀ n ∈ f.tree.names, n ∈ names

instance (names : List String) (source : String) : Decidable (MentionsOnly names source) :=
  match h : parse source with
  | .ok f =>
    decidable_of_iff (∀ n ∈ f.tree.names, n ∈ names) <| by
      simp [MentionsOnly, h]
  | .error _ => isFalse (by simp [MentionsOnly, h])

variable {b : Bindings} {names : List String} {source : String}

theorem Tree.exists_eval_eq {t : Tree} (h : b.Binds t.names) : ∃ v, t.eval b = .ok v := by
  induction t
  case literal v => exact ⟨v, rfl⟩
  case name n =>
    obtain ⟨v, hv⟩ := h n (List.mem_singleton.mpr rfl)
    exact ⟨v, by rw [eval, hv]⟩
  case unary op x hx =>
    obtain ⟨v, hv⟩ := hx h
    exact ⟨_, bind_eq_ok_iff.mpr ⟨v, hv, rfl⟩⟩
  case binary op x y hx hy =>
    obtain ⟨v, hv⟩ := hx fun n hn => h n (List.mem_append_left _ hn)
    obtain ⟨w, hw⟩ := hy fun n hn => h n (List.mem_append_right _ hn)
    exact ⟨_, bind_eq_ok_iff.mpr ⟨v, hv, bind_eq_ok_iff.mpr ⟨w, hw, rfl⟩⟩⟩
  case logical op x y hx hy =>
    obtain ⟨v, hv⟩ := hx fun n hn => h n (List.mem_append_left _ hn)
    obtain ⟨w, hw⟩ := hy fun n hn => h n (List.mem_append_right _ hn)
    refine ⟨if op.decidedBy v then v else w, bind_eq_ok_iff.mpr ⟨v, hv, ?_⟩⟩
    split
    case isTrue  => rfl
    case isFalse => exact hw
  case conditional c x y hc hx hy =>
    obtain ⟨v, hv⟩ := hc fun n hn => h n (List.mem_append_left _ (List.mem_append_left _ hn))
    obtain ⟨w, hw⟩ := hx fun n hn => h n (List.mem_append_left _ (List.mem_append_right _ hn))
    obtain ⟨w', hw'⟩ := hy fun n hn => h n (List.mem_append_right _ hn)
    refine ⟨if v.holds then w else w', bind_eq_ok_iff.mpr ⟨v, hv, ?_⟩⟩
    split
    case isTrue  => exact hw
    case isFalse => exact hw'

theorem MentionsOnly.exists_evaluate_eq (h : MentionsOnly names source) (hb : b.Binds names) :
    ∃ v, evaluate source b = .ok v := by
  obtain ⟨f, hf, hn⟩ := h
  obtain ⟨v, hv⟩ := Tree.exists_eval_eq (t := f.tree) fun n hm => hb n (hn n hm)
  refine ⟨v, bind_eq_ok_iff.mpr ⟨f, hf, ?_⟩⟩
  rw [eval, hv]
  rfl

end Formula

section

variable {b : Bindings} {names : List String}

theorem Markup.exists_guardHolds_eq {attributes : Attributes}
    (h : ∀ g, attributes.get? guardAttribute = some g → Formula.MentionsOnly names g)
    (hb : b.Binds names) : ∃ r, guardHolds attributes b = .ok r := by
  rw [guardHolds]
  split
  case h_1 => exact ⟨true, rfl⟩
  case h_2 g hg =>
    obtain ⟨v, hv⟩ := (h g hg).exists_evaluate_eq hb
    exact ⟨v.holds, by rw [hv]; rfl⟩

end

end Ordo
