import Ordo.Document.Flat
import Ordo.Proofs.Document.Extension
import Ordo.Proofs.Document.Walk
import Ordo.Proofs.Formula.Names

namespace Ordo

namespace Markup

-- The formulas in an element: its guard, the tone of a saint and the value of a command.
structure Element.MentionsOnly (names : List String) (e : Element) : Prop where
  guard : ∀ s, e.attributes.get? guardAttribute = some s → Formula.MentionsOnly names s
  tone  : e.tag = "SAINT" → ∀ s, e.attributes.get? "Tone" = some s → Formula.MentionsOnly names s
  value : e.tag = "COMMAND" → ∀ s, e.attributes.get? "Value" = some s → Formula.MentionsOnly names s

instance (names : List String) (e : Element) : Decidable (e.MentionsOnly names) :=
  let mentions (name : String) := ∀ s ∈ e.attributes.get? name, Formula.MentionsOnly names s
  decidable_of_iff
    (mentions guardAttribute ∧ (e.tag = "SAINT" → mentions "Tone") ∧
      (e.tag = "COMMAND" → mentions "Value"))
    ⟨fun h => ⟨h.1, h.2.1, h.2.2⟩, fun h => ⟨h.guard, h.tone, h.value⟩⟩

variable {b : Bindings} {names : List String} {e : Event} {es kept : List Event}
  {f : Option Formula.Error} {p : Pruner}

theorem mem_elements_iff {d : Element} :
    d ∈ elements es ↔ .enter d.tag d.attributes ∈ es := by
  rw [elements, List.mem_filterMap]
  constructor
  case mp =>
    rintro ⟨e, he, h⟩
    cases e
    case enter => cases h; exact he
    all_goals cases h
  case mpr => exact fun h => ⟨_, h, rfl⟩

-- What the pruner keeps of an event is the event.
theorem Pruner.feed_eq_ok (h : ∀ tag attributes, e = .enter tag attributes →
      ∃ r, guardHolds attributes b = .ok r) :
    ∃ p' kept, p.feed e b = .ok (p', kept) ∧ ∀ e' ∈ kept, e' = e := by
  cases e
  case text s => exact ⟨p, _, rfl, by split <;> simp⟩
  case exit tag =>
    simp only [feed]
    split
    · exact ⟨_, _, rfl, by simp⟩
    · exact ⟨_, _, rfl, by split <;> simp⟩
  case enter tag attributes =>
    obtain ⟨r, hr⟩ := h tag attributes rfl
    simp only [feed]
    split
    · exact ⟨_, _, rfl, by simp⟩
    · rw [hr]
      cases r
      case true  => exact ⟨_, _, rfl, by simp⟩
      case false => exact ⟨_, _, rfl, by simp⟩

theorem Pruner.run_eq_none (h : ∀ d ∈ elements es, ∃ r, guardHolds d.attributes b = .ok r) :
    (run b p es).2 = none ∧ ∀ e ∈ (run b p es).1, e ∈ es := by
  induction es generalizing p
  case nil => exact ⟨rfl, nofun⟩
  case cons e es hi =>
    obtain ⟨p', kept, hf, hk⟩ := feed_eq_ok (p := p) (e := e) (b := b) fun tag attributes he =>
      h ⟨tag, attributes⟩ (mem_elements_iff.mpr (he ▸ List.mem_cons_self))
    obtain ⟨hn, hm⟩ := hi (p := p') fun d hd =>
      h d (mem_elements_iff.mpr (List.mem_cons_of_mem _ (mem_elements_iff.mp hd)))
    simp only [run, hf]
    refine ⟨hn, fun e' he' => ?_⟩
    rcases List.mem_append.mp he' with he' | he'
    case inl => exact hk e' (Option.mem_toList.mp he') ▸ List.mem_cons_self
    case inr => exact List.mem_cons_of_mem _ (hm e' he')

end Markup

namespace Document

def Error.IsFormula : Error → Prop
  | formula _ => True
  | _         => False

-- Whether no formula of the document, if the text is one, has other names than `names`. This is
-- also asked of elements that would be left out.
def MentionsOnly (names : List String) (source : String) : Prop :=
  ∀ es, Markup.read source = .ok es → ∀ e ∈ Markup.elements es, e.MentionsOnly names

instance (names : List String) (source : String) : Decidable (MentionsOnly names source) :=
  match h : Markup.read source with
  | .ok es =>
    decidable_of_iff (∀ e ∈ Markup.elements es, e.MentionsOnly names) <| by
      simp [MentionsOnly, h]
  | .error _ => isTrue (by simp [MentionsOnly, h])

variable {b : Bindings} {names : List String} {source : String} {α : Type}

theorem MentionsOnly.survivors (h : MentionsOnly names source) (hb : b.Binds names) :
    (∃ m, survivors source b = .error (.markup m)) ∨
      ∃ es, survivors source b = .ok es ∧ ∀ e ∈ es, e.MentionsOnly names := by
  rcases hr : Markup.read source with m | es
  case error => exact .inl ⟨m, by rw [Document.survivors, hr]; rfl⟩
  case ok =>
    obtain ⟨hn, hk⟩ := Markup.Pruner.run_eq_none (p := {}) fun d hd =>
      Markup.exists_guardHolds_eq (h es hr d hd).guard hb
    refine .inr ⟨Markup.elements (Markup.prune b es).1, ?_, fun e he => h es hr e ?_⟩
    · exact survivors_eq_ok_iff.mpr ⟨es, _, hr, Prod.ext rfl hn, rfl⟩
    · exact Markup.mem_elements_iff.mpr (hk _ (Markup.mem_elements_iff.mp he))

section

variable {read : Markup.Element → Except Error (Option α)}

theorem MentionsOnly.avoids_records (h : MentionsOnly names source) (hb : b.Binds names)
    (hr : ∀ e, e.MentionsOnly names → Avoids Error.IsFormula (read e)) :
    Avoids Error.IsFormula (records read source b) := by
  rcases h.survivors hb with ⟨m, hm⟩ | ⟨es, hes, hm⟩
  case inl =>
    rw [records, hm]
    exact avoids_error id
  case inr =>
    rw [records, hes]
    change Avoids _ (es.mapM read >>= _)
    exact avoids_bind (avoids_mapM fun e he => hr e (hm e he)) fun _ _ => avoids_ok _

theorem MentionsOnly.exists_of_mem_records (h : MentionsOnly names source) (hb : b.Binds names)
    {as : List α} {a : α} (hr : records read source b = .ok as) (ha : a ∈ as) :
    ∃ e : Markup.Element, e.MentionsOnly names ∧ read e = .ok (some a) := by
  rcases h.survivors hb with ⟨m, hm⟩ | ⟨es, hes, hm⟩
  case inl =>
    rw [records, hm] at hr
    cases hr
  case inr =>
    rw [records, hes] at hr
    change es.mapM read >>= _ = .ok as at hr
    obtain ⟨rs, hrs, hr⟩ := bind_eq_ok_iff.mp hr
    cases hr
    obtain ⟨r, hr, he⟩ := List.mem_filterMap.mp ha
    cases (show r = some a from he)
    obtain ⟨e, he, hf⟩ := exists_of_mem_mapM hrs hr
    exact ⟨e, hm e he, hf⟩

end

theorem avoids_expectTag (tags : List String) (e : Markup.Element) :
    Avoids Error.IsFormula (expectTag tags e) := by
  rw [expectTag]
  split
  case isTrue  => exact avoids_ok _
  case isFalse => exact avoids_error id

theorem avoids_required (e : Markup.Element) (name : String) :
    Avoids Error.IsFormula (required e name) := by
  rw [required]
  split
  case h_1 => exact avoids_ok _
  case h_2 => exact avoids_error id

theorem MentionsOnly.avoids_commemorations (h : MentionsOnly names source) (hb : b.Binds names)
    (cycle : Cycle) : Avoids Error.IsFormula (commemorations cycle source b) := by
  refine h.avoids_records hb fun e he => ?_
  refine avoids_bind (avoids_expectTag _ _) fun _ _ => ?_
  split
  case isFalse => exact avoids_ok _
  case isTrue ht =>
    refine avoids_bind (avoids_required _ _) fun _ _ => ?_
    refine avoids_bind ?_ fun _ _ => avoids_ok _
    rcases hs : e.attributes.get? "Tone" with _ | tone
    case none => exact avoids_ok _
    case some =>
      obtain ⟨v, hv⟩ := (he.tone ht tone hs).exists_evaluate_eq hb
      rw [Option.mapM_some, hv]
      exact avoids_ok _

theorem MentionsOnly.avoids_fastingCodes (h : MentionsOnly names source) (hb : b.Binds names) :
    Avoids Error.IsFormula (fastingCodes source b) := by
  refine h.avoids_records hb fun e _ => ?_
  refine avoids_bind (avoids_expectTag _ _) fun _ _ => ?_
  have hu : ¬Error.IsFormula (.unexpectedAttribute e.tag "Tone") := id
  split <;> split
  case isTrue.isFalse  => exact avoids_map some (avoids_required _ _)
  case isFalse.isFalse => exact avoids_ok _
  all_goals exact avoids_error hu

theorem MentionsOnly.avoids_commands (h : MentionsOnly names source) (hb : b.Binds names) :
    Avoids Error.IsFormula (commands source b) := by
  refine h.avoids_records hb fun e _ => ?_
  refine avoids_bind (avoids_expectTag _ _) fun _ _ => ?_
  split
  case isTrue =>
    refine avoids_bind (avoids_required _ _) fun _ _ => ?_
    exact avoids_bind (avoids_required _ _) fun _ _ => avoids_ok _
  case isFalse => exact avoids_ok _

theorem MentionsOnly.value_of_mem_commands (h : MentionsOnly names source) (hb : b.Binds names)
    {cs : List Command} {c : Command} (hc : commands source b = .ok cs) (hm : c ∈ cs) :
    Formula.MentionsOnly names c.value := by
  obtain ⟨e, he, hr⟩ := h.exists_of_mem_records hb hc hm
  obtain ⟨_, _, hr⟩ := bind_eq_ok_iff.mp hr
  split at hr
  case isTrue ht =>
    obtain ⟨name, _, hr⟩ := bind_eq_ok_iff.mp hr
    obtain ⟨value, hv, hr⟩ := bind_eq_ok_iff.mp hr
    cases hr
    refine he.value ht value ?_
    rw [required] at hv
    split at hv
    case h_1 hs => cases hv; exact hs
    case h_2 => cases hv
  case isFalse => cases hr

theorem Walk.avoids_enter (w : Walk) (e : Markup.Element) (b : Bindings) :
    Avoids Error.IsFormula (w.enter e b) := by
  unfold enter
  split
  case h_5 =>
    split
    case h_1 => exact avoids_ok _
    case h_2 =>
      refine avoids_map _ (avoids_bind (avoids_required _ _) fun _ _ => avoids_ok _)
  case h_3 => split <;> exact avoids_ok _
  case h_7 => split <;> exact avoids_ok _
  all_goals exact avoids_ok _

theorem Walk.avoids_step (w : Walk) (e : Markup.Event) (b : Bindings) :
    Avoids Error.IsFormula (w.step e b) := by
  cases e
  case enter => exact w.avoids_enter _ b
  case exit  => exact avoids_ok _
  case text  => exact avoids_ok _

-- A service changes the value of the rank, which therefore has one all the way.
theorem binds_rankedBy (hb : b.Binds (Bindings.rankName :: names)) (s : Option Markup.Element) :
    (rankedBy b s).Binds (Bindings.rankName :: names) := by
  cases s
  case none => exact hb
  case some => exact hb.withRank_again _

theorem Walk.avoids_run {es : List Markup.Event} (w : Walk) (p : Markup.Pruner)
    (h : ∀ d ∈ Markup.elements es, d.MentionsOnly (Bindings.rankName :: names))
    (hb : b.Binds (Bindings.rankName :: names)) :
    Avoids Error.IsFormula (w.run p b es).1 := by
  induction es generalizing w p b
  case nil => exact avoids_ok _
  case cons e es hi =>
    have hi := fun w p b => hi (w := w) (p := p) (b := b) fun d hd =>
      h d (Markup.mem_elements_iff.mpr (List.mem_cons_of_mem _ (Markup.mem_elements_iff.mp hd)))
    obtain ⟨p', kept, hf, -⟩ := Markup.Pruner.feed_eq_ok (p := p) fun tag attributes he =>
      Markup.exists_guardHolds_eq
        (h ⟨tag, attributes⟩ (Markup.mem_elements_iff.mpr (he ▸ List.mem_cons_self))).guard hb
    cases kept
    case none =>
      rw [run]
      simp only [hf]
      exact hi w p' b hb
    case some e' =>
      rw [run]
      simp only [hf]
      rcases hs : w.step e' b with f | ⟨w', b'⟩
      case error => exact avoids_error (w.avoids_step e' b f hs)
      case ok =>
        obtain ⟨_, _, hs⟩ := map_eq_ok_iff.mp (step_eq w e' b ▸ hs)
        cases hs
        exact hi _ _ _ (binds_rankedBy hb _)

theorem MentionsOnly.avoids_biography (h : MentionsOnly (Bindings.rankName :: names) source)
    (hb : b.Binds (Bindings.rankName :: names)) :
    Avoids Error.IsFormula (biography source b).1 := by
  rw [biography]
  rcases hr : Markup.read source with m | es
  case error => exact avoids_error id
  case ok    => exact Walk.avoids_run _ _ (h es hr) hb

end Document

end Ordo
