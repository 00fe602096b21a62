import Ordo.Proofs.Markup.Forest

namespace Ordo.Markup

namespace Pruner

variable {b : Bindings} {marks : List Bool} {tag : String} {attributes : Attributes}
  {es es' : List Event} {f : Formula.Error} {t t' u : Forest}

section

-- Anything that goes through the events as the pruner does, and over those that are not kept.
variable {α : Type} {r : Pruner → List Event → α}
  (hr : ∀ p p' e es, feed p e b = .ok (p', none) → r p (e :: es) = r p' es)

include hr

-- The events of a forest in a part that is left out change nothing, since each element takes the
-- mark away again that it has set.
theorem skip_events (t : Forest) (marks : List Bool) (es : List Event) :
    r ⟨true, marks⟩ (t.events ++ es) = r ⟨true, marks⟩ es := by
  induction t generalizing marks es
  case nil => rfl
  case text s behind hb => exact (hr _ _ _ _ rfl).trans (hb marks es)
  case element tag attributes content behind hc hb =>
    calc r ⟨true, marks⟩ ((Forest.element tag attributes content behind).events ++ es)
      _ = r ⟨true, false :: marks⟩ (content.events ++ .exit tag :: (behind.events ++ es)) := by
        rw [Forest.events, List.cons_append, List.append_assoc, List.cons_append]
        exact hr _ _ _ _ rfl
      _ = r ⟨true, false :: marks⟩ (.exit tag :: (behind.events ++ es)) := hc _ _
      _ = r ⟨true, marks⟩ (behind.events ++ es) := hr _ _ _ _ rfl
      _ = r ⟨true, marks⟩ es := hb _ _

theorem skip_element (h : guardHolds attributes b = .ok false) (content behind : Forest)
    (marks : List Bool) (es : List Event) :
    r ⟨false, marks⟩ ((Forest.element tag attributes content behind).events ++ es) =
      r ⟨false, marks⟩ (behind.events ++ es) := by
  have he : feed ⟨false, marks⟩ (.enter tag attributes) b = .ok (⟨true, true :: marks⟩, none) := by
    simp [feed, h, bind, Except.bind, pure, Except.pure]
  calc r ⟨false, marks⟩ ((Forest.element tag attributes content behind).events ++ es)
    _ = r ⟨true, true :: marks⟩ (content.events ++ .exit tag :: (behind.events ++ es)) := by
      rw [Forest.events, List.cons_append, List.append_assoc, List.cons_append]
      exact hr _ _ _ _ he
    _ = r ⟨true, true :: marks⟩ (.exit tag :: (behind.events ++ es)) := skip_events hr _ _ _
    _ = r ⟨false, marks⟩ (behind.events ++ es) := hr _ _ _ _ rfl

end

theorem run_enter_kept (h : guardHolds attributes b = .ok true) :
    run b ⟨false, marks⟩ (.enter tag attributes :: es) =
      (.enter tag attributes :: (run b ⟨false, false :: marks⟩ es).1,
        (run b ⟨false, false :: marks⟩ es).2) := by
  simp [run, feed, h, bind, Except.bind, pure, Except.pure]

theorem run_enter_failed (h : guardHolds attributes b = .error f) :
    run b ⟨false, marks⟩ (.enter tag attributes :: es) = ([], some f) := by
  simp [run, feed, h, bind, Except.bind]

theorem run_left_out (h : guardHolds attributes b = .ok false) (content behind : Forest) :
    run b ⟨false, marks⟩ ((Forest.element tag attributes content behind).events ++ es) =
      run b ⟨false, marks⟩ (behind.events ++ es) :=
  skip_element (fun p p' e es he => by simp [run, he]) h content behind marks es

theorem run_kept (h : guardHolds attributes b = .ok true) (content behind : Forest) :
    run b ⟨false, marks⟩ ((Forest.element tag attributes content behind).events ++ es) =
      let rest := content.events ++ .exit tag :: (behind.events ++ es)
      (.enter tag attributes :: (run b ⟨false, false :: marks⟩ rest).1,
        (run b ⟨false, false :: marks⟩ rest).2) := by
  rw [Forest.events, List.cons_append, run_enter_kept h, List.append_assoc, List.cons_append]

theorem run_exit :
    run b ⟨false, false :: marks⟩ (.exit tag :: es) =
      (.exit tag :: (run b ⟨false, marks⟩ es).1, (run b ⟨false, marks⟩ es).2) := by
  simp [run, feed]

theorem run_text {s : String} :
    run b ⟨false, marks⟩ (.text s :: es) =
      (.text s :: (run b ⟨false, marks⟩ es).1, (run b ⟨false, marks⟩ es).2) := by
  simp [run, feed]

-- The simulation, for a forest in any open elements and with any events behind it. Outside of the
-- parts that are left out, the marks after a forest are those before it.
theorem run_of_prune_eq (h : t.prune b = .ok t') (marks : List Bool) (es : List Event) :
    run b ⟨false, marks⟩ (t.events ++ es) =
      (t'.events ++ (run b ⟨false, marks⟩ es).1, (run b ⟨false, marks⟩ es).2) := by
  induction t generalizing t' marks es
  case nil =>
    cases h
    rfl
  case text s behind hb =>
    obtain ⟨behind', h', h⟩ := bind_eq_ok_iff.mp h
    cases h
    simp only [Forest.events, List.cons_append, run_text, hb h']
  case element tag attributes content behind hc hb =>
    rcases hg : guardHolds attributes b with _ | _ | _
    case error => cases (Forest.prune_of_failed hg).symm.trans h
    case ok.false => rw [run_left_out hg, hb (Forest.prune_of_left_out hg ▸ h)]
    case ok.true =>
      rw [Forest.prune_of_kept hg] at h
      obtain ⟨content', hc', h⟩ := bind_eq_ok_iff.mp h
      obtain ⟨behind', hb', h⟩ := bind_eq_ok_iff.mp h
      cases h
      rw [run_kept hg]
      simp only [hc hc', run_exit, hb hb', Forest.events, List.cons_append, List.append_assoc]

theorem run_of_fails (h : t.Fails b es' f) (marks : List Bool) (es : List Event) :
    run b ⟨false, marks⟩ (t.events ++ es) = (es', some f) := by
  induction h generalizing marks es
  case here h => rw [Forest.events, List.cons_append, run_enter_failed h]
  case inside h _ hi =>
    rw [run_kept h]
    simp only [hi]
  case behindKept h hc _ hi =>
    rw [run_kept h]
    simp only [run_of_prune_eq hc, run_exit, hi]
    simp [Forest.events]
  case behindLeftOut h _ hi => rw [run_left_out h, hi]
  case behindText hi => simp only [Forest.events, List.cons_append, run_text, hi]

theorem run_of_alikeKept (h : t.AlikeKept b u) {es es' : List Event}
    (he : ∀ marks, run b ⟨false, marks⟩ es = run b ⟨false, marks⟩ es') (marks : List Bool) :
    run b ⟨false, marks⟩ (t.events ++ es) = run b ⟨false, marks⟩ (u.events ++ es') := by
  induction h generalizing marks es es'
  case nil => exact he marks
  case text hi => simp only [Forest.events, List.cons_append, run_text, hi he]
  case leftOut h _ hi => rw [run_left_out h, run_left_out h, hi he]
  case element tag attributes content content' behind behind' _ _ hc hb =>
    rcases hg : guardHolds attributes b with _ | _ | _
    case error =>
      simp only [Forest.events, List.cons_append, run_enter_failed hg]
    case ok.false => rw [run_left_out hg, run_left_out hg, hb he]
    case ok.true =>
      have hx (marks : List Bool) :
          run b ⟨false, marks⟩ (.exit tag :: (behind.events ++ es)) =
            run b ⟨false, marks⟩ (.exit tag :: (behind'.events ++ es')) := by
        rcases marks with _ | ⟨_ | _, marks⟩
        all_goals simp [run, feed, hb he]
      rw [run_kept hg, run_kept hg]
      simp only [hc hx]

end Pruner

section

variable {b : Bindings} {es : List Event} {f : Formula.Error} {t t' u : Forest}

theorem prune_of_prune_eq (h : t.prune b = .ok t') : prune b t.events = (t'.events, none) := by
  simpa [prune, Pruner.run] using Pruner.run_of_prune_eq h [] []

theorem prune_of_fails (h : t.Fails b es f) : prune b t.events = (es, some f) := by
  simpa [prune] using Pruner.run_of_fails h [] []

theorem prune_of_alikeKept (h : t.AlikeKept b u) : prune b t.events = prune b u.events := by
  have he (marks : List Bool) : Pruner.run b ⟨false, marks⟩ [] = Pruner.run b ⟨false, marks⟩ [] :=
    rfl
  simpa [prune] using Pruner.run_of_alikeKept h he []

theorem prune_eq_none_iff :
    prune b t.events = (es, none) ↔ ∃ t', t.prune b = .ok t' ∧ es = t'.events := by
  constructor
  case mp =>
    intro h
    rcases ht : t.prune b with f | t'
    case error =>
      obtain ⟨_, hf⟩ := Forest.prune_eq_error_iff.mp ht
      cases (prune_of_fails hf).symm.trans h
    case ok =>
      cases (prune_of_prune_eq ht).symm.trans h
      exact ⟨t', rfl, rfl⟩
  case mpr =>
    rintro ⟨t', ht, rfl⟩
    exact prune_of_prune_eq ht

theorem prune_eq_some_iff : prune b t.events = (es, some f) ↔ t.Fails b es f := by
  constructor
  case mp =>
    intro h
    rcases ht : t.prune b with f' | t'
    case error =>
      obtain ⟨_, hf⟩ := Forest.prune_eq_error_iff.mp ht
      cases (prune_of_fails hf).symm.trans h
      exact hf
    case ok => cases (prune_of_prune_eq ht).symm.trans h
  case mpr => exact prune_of_fails

end

-- The pruner gives the events of the pruned forest, or those before the first guard without a
-- value. What it gives does not depend on anything inside of the parts that are left out.
theorem prune_events (b : Bindings) (t : Forest) :
    (∀ es, prune b t.events = (es, none) ↔ ∃ t', t.prune b = .ok t' ∧ es = t'.events) ∧
    (∀ es f, prune b t.events = (es, some f) ↔ t.Fails b es f) ∧
    (∀ u, t.AlikeKept b u → prune b t.events = prune b u.events) ∧
    ((∀ tag attributes, .enter tag attributes ∈ t.events →
      attributes.get? guardAttribute = none) → prune b t.events = (t.events, none)) ∧
    (∀ es, prune b t.events = (es, none) → prune b es = (es, none)) := by
  refine ⟨fun _ => prune_eq_none_iff, fun _ _ => prune_eq_some_iff,
    fun _ => prune_of_alikeKept, fun h => ?_, fun es h => ?_⟩
  · exact prune_of_prune_eq (Forest.prune_eq_self_of_unguarded h)
  · obtain ⟨t', ht, he⟩ := prune_eq_none_iff.mp h
    subst he
    exact prune_of_prune_eq (Forest.prune_eq_self_of_prune_eq ht)

-- The element `B` is left out with its content, whatever that is.
def leavingOut (content : Forest) : Forest :=
  .element "A" ∅ (.element "B" (.ofList [(guardAttribute, "0")]) content (.text "a" .nil)) .nil

-- The name `x` has no value.
def withoutValue : Forest :=
  .element "C" (.ofList [(guardAttribute, "x")]) .nil .nil

theorem prune_leavingOut :
    let es := [.enter "A" ∅, .text "a", .exit "A"]
    withoutValue.Fails ∅ [] (.unbound "x" "x") ∧
    prune ∅ (leavingOut withoutValue).events = prune ∅ (leavingOut .nil).events ∧
    prune ∅ (leavingOut withoutValue).events = (es, none) ∧
    prune ∅ es = (es, none) ∧
    prune ∅ (Forest.text "a" .nil).events = ([.text "a"], none) := by
  have hf : prune ∅ withoutValue.events = ([], some (.unbound "x" "x")) := by decide +kernel
  have hl : (prune ∅ (leavingOut withoutValue).events) =
    ([.enter "A" ∅, .text "a", .exit "A"], none) := by decide +kernel
  have hb : guardHolds (.ofList [(guardAttribute, "0")]) ∅ = .ok false :=
    toOption_eq_some_iff.mp (by decide +kernel)
  obtain ⟨_, _, alike, _, again⟩ := prune_events ∅ (leavingOut withoutValue)
  refine ⟨?_, alike _ ?_, hl, again _ hl, ?_⟩
  · exact ((prune_events ∅ withoutValue).2.1 _ _).mp hf
  · exact .element (.leftOut hb (.text .nil)) .nil
  · exact (prune_events ∅ (.text "a" .nil)).2.2.2.1 (by simp [Forest.events])

end Ordo.Markup
