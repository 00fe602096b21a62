import Ordo.Markup.Pruner
import Ordo.Proofs.Result

namespace Ordo.Markup

-- A row of elements and texts side by side, each with what is behind it.
inductive Forest
  | nil
  | element (tag : String) (attributes : Attributes) (content behind : Forest)
  | text (s : String) (behind : Forest)
deriving DecidableEq, Inhabited

namespace Forest

-- The events of a forest in the order of the document.
def events : Forest → List Event
  | nil => []
  | element tag attributes content behind =>
    .enter tag attributes :: (content.events ++ .exit tag :: behind.events)
  | text s behind => .text s :: behind.events

-- Leaves out each element whose guard does not hold, with all of its content. No guard in such an
-- element is evaluated.
def prune (b : Bindings) : Forest → Except Formula.Error Forest
  | nil => return nil
  | element tag attributes content behind => do
    if ← guardHolds attributes b then
      return element tag attributes (← content.prune b) (← behind.prune b)
    else
      behind.prune b
  | text s behind => return text s (← behind.prune b)

-- The first guard without a value is found behind the events `es` of the pruned forest.
inductive Fails (b : Bindings) : Forest → List Event → Formula.Error → Prop
  | here {tag attributes content behind f} :
    guardHolds attributes b = .error f → Fails b (element tag attributes content behind) [] f
  | inside {tag attributes content behind es f} :
    guardHolds attributes b = .ok true → Fails b content es f →
    Fails b (element tag attributes content behind) (.enter tag attributes :: es) f
  | behindKept {tag attributes content content' behind es f} :
    guardHolds attributes b = .ok true → content.prune b = .ok content' → Fails b behind es f →
    Fails b (element tag attributes content behind)
      ((element tag attributes content' nil).events ++ es) f
  | behindLeftOut {tag attributes content behind es f} :
    guardHolds attributes b = .ok false → Fails b behind es f →
    Fails b (element tag attributes content behind) es f
  | behindText {s behind es f} :
    Fails b behind es f → Fails b (text s behind) (.text s :: es) f

-- Forests that differ in nothing but the content of elements which are left out.
inductive AlikeKept (b : Bindings) : Forest → Forest → Prop
  | nil : AlikeKept b nil nil
  | element {tag attributes content content' behind behind'} :
    AlikeKept b content content' → AlikeKept b behind behind' →
    AlikeKept b (element tag attributes content behind) (element tag attributes content' behind')
  | leftOut {tag attributes content content' behind behind'} :
    guardHolds attributes b = .ok false → AlikeKept b behind behind' →
    AlikeKept b (element tag attributes content behind) (element tag attributes content' behind')
  | text {s behind behind'} :
    AlikeKept b behind behind' → AlikeKept b (text s behind) (text s behind')

variable {b : Bindings} {tag : String} {attributes : Attributes} {content behind t u : Forest}
  {es : List Event} {f : Formula.Error}

theorem prune_of_kept (h : guardHolds attributes b = .ok true) :
    (element tag attributes content behind).prune b = do
      return element tag attributes (← content.prune b) (← behind.prune b) := by
  simp [prune, h, bind, Except.bind]

theorem prune_of_left_out (h : guardHolds attributes b = .ok false) :
    (element tag attributes content behind).prune b = behind.prune b := by
  simp [prune, h, bind, Except.bind]

theorem prune_of_failed (h : guardHolds attributes b = .error f) :
    (element tag attributes content behind).prune b = .error f := by
  simp [prune, h, bind, Except.bind]

theorem Fails.prune_eq (h : t.Fails b es f) : t.prune b = .error f := by
  induction h
  case here h                  => exact prune_of_failed h
  case inside h _ hi           => simp [prune_of_kept h, hi, bind, Except.bind]
  case behindKept h hc _ hi    => simp [prune_of_kept h, hc, hi, bind, Except.bind]
  case behindLeftOut h _ hi    => rw [prune_of_left_out h, hi]
  case behindText hi           => simp [prune, hi, bind, Except.bind]

theorem exists_fails_of_prune_eq (h : t.prune b = .error f) : ∃ es, t.Fails b es f := by
  induction t
  case nil => cases h
  case text s behind hb =>
    rcases bind_eq_error_iff.mp h with h | ⟨_, _, h⟩
    case inl =>
      obtain ⟨es, hf⟩ := hb h
      exact ⟨_, .behindText hf⟩
    case inr => cases h
  case element tag attributes content behind hc hb =>
    rcases hg : guardHolds attributes b with f' | _ | _
    case error =>
      cases (prune_of_failed hg).symm.trans h
      exact ⟨_, .here hg⟩
    case ok.false =>
      obtain ⟨es, hf⟩ := hb (prune_of_left_out hg ▸ h)
      exact ⟨_, .behindLeftOut hg hf⟩
    case ok.true =>
      rw [prune_of_kept hg] at h
      rcases bind_eq_error_iff.mp h with h | ⟨content', hc', h⟩
      case inl =>
        obtain ⟨es, hf⟩ := hc h
        exact ⟨_, .inside hg hf⟩
      rcases bind_eq_error_iff.mp h with h | ⟨_, _, h⟩
      case inl =>
        obtain ⟨es, hf⟩ := hb h
        exact ⟨_, .behindKept hg hc' hf⟩
      case inr => cases h

theorem prune_eq_error_iff : t.prune b = .error f ↔ ∃ es, t.Fails b es f :=
  ⟨exists_fails_of_prune_eq, fun h => h.elim fun _ h => h.prune_eq⟩

theorem prune_eq_self_of_prune_eq (h : t.prune b = .ok u) : u.prune b = .ok u := by
  induction t generalizing u
  case nil =>
    cases h
    rfl
  case text s behind hb =>
    obtain ⟨behind', h', h⟩ := bind_eq_ok_iff.mp h
    cases h
    exact bind_eq_ok_iff.mpr ⟨_, hb h', rfl⟩
  case element tag attributes content behind hc hb =>
    rcases hg : guardHolds attributes b with _ | _ | _
    case error    => cases (prune_of_failed hg).symm.trans h
    case ok.false => exact hb (prune_of_left_out hg ▸ h)
    case ok.true =>
      rw [prune_of_kept hg] at h
      obtain ⟨content', hc', h⟩ := bind_eq_ok_iff.mp h
      obtain ⟨behind', hb', h⟩ := bind_eq_ok_iff.mp h
      cases h
      rw [prune_of_kept hg]
      exact bind_eq_ok_iff.mpr ⟨_, hc hc', bind_eq_ok_iff.mpr ⟨_, hb hb', rfl⟩⟩

theorem prune_eq_self_of_unguarded
    (h : ∀ tag attributes, .enter tag attributes ∈ t.events →
      attributes.get? guardAttribute = none) : t.prune b = .ok t := by
  induction t
  case nil => rfl
  case text s behind hb =>
    have hb := hb fun tag attributes hm => h tag attributes (List.mem_cons_of_mem _ hm)
    exact bind_eq_ok_iff.mpr ⟨_, hb, rfl⟩
  case element tag attributes content behind hc hb =>
    simp only [events, List.mem_cons, List.mem_append] at h
    have hg : guardHolds attributes b = .ok true := by
      simp [guardHolds, h tag attributes (.inl rfl)]
    have hc := hc fun tag attributes hm => h tag attributes (.inr (.inl hm))
    have hb := hb fun tag attributes hm => h tag attributes (.inr (.inr (.inr hm)))
    rw [prune_of_kept hg]
    exact bind_eq_ok_iff.mpr ⟨_, hc, bind_eq_ok_iff.mpr ⟨_, hb, rfl⟩⟩

end Forest

end Ordo.Markup
