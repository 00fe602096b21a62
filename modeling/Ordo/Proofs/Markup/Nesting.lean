import Ordo.Markup.Reader
import Ordo.Proofs.Markup.Forest

namespace Ordo.Markup

-- Events that begin inside of the `opened` elements, innermost first, and leave all of them.
def Closes : List String → List Event → Prop
  | [], es => ∃ t : Forest, es = t.events
  | tag :: opened, es =>
    ∃ (t : Forest) (behind : List Event), es = t.events ++ .exit tag :: behind ∧ Closes opened behind

variable {opened : List String} {tag : String} {es : List Event}

-- The forest that such events begin with may be exchanged. No text follows on it.
theorem Closes.exists_forest (h : Closes opened es) :
    ∃ (t : Forest) (behind : List Event), es = t.events ++ behind ∧
      (∀ s es', behind ≠ .text s :: es') ∧ ∀ u : Forest, Closes opened (u.events ++ behind) := by
  cases opened
  case nil =>
    obtain ⟨t, rfl⟩ := h
    exact ⟨t, [], (List.append_nil _).symm, nofun, fun u => ⟨u, List.append_nil _⟩⟩
  case cons tag opened =>
    obtain ⟨t, behind, rfl, h⟩ := h
    exact ⟨t, .exit tag :: behind, rfl, nofun, fun u => ⟨u, behind, rfl, h⟩⟩

theorem Closes.enter (h : Closes (tag :: opened) es) (attributes : Attributes) :
    Closes opened (.enter tag attributes :: es) := by
  obtain ⟨content, behind, rfl, h⟩ := h
  obtain ⟨t, behind, rfl, -, h⟩ := h.exists_forest
  have h := h (.element tag attributes content t)
  rwa [Forest.events, List.cons_append, List.append_assoc, List.cons_append] at h

theorem Closes.exit (h : Closes opened es) (tag : String) :
    Closes (tag :: opened) (.exit tag :: es) :=
  ⟨.nil, es, rfl, h⟩

theorem exists_consText_eq (s : String) (t : Forest) {behind : List Event}
    (h : ∀ s es, behind ≠ .text s :: es) :
    ∃ t' : Forest, consText s (t.events ++ behind) = t'.events ++ behind := by
  by_cases hs : s.isEmpty
  case pos => exact ⟨t, if_pos hs⟩
  case neg =>
    simp only [consText, if_neg hs]
    cases t
    case text s' t => exact ⟨.text (s ++ s') t, rfl⟩
    case element   => exact ⟨.text s (.element _ _ _ _), rfl⟩
    case nil =>
      refine ⟨.text s .nil, ?_⟩
      rw [Forest.events, List.nil_append]
      split
      case h_1 s' es => exact absurd rfl (h s' es)
      case h_2       => rfl

theorem Closes.consText (h : Closes opened es) (s : String) : Closes opened (consText s es) := by
  obtain ⟨t, behind, rfl, hb, h⟩ := h.exists_forest
  obtain ⟨t', ht⟩ := exists_consText_eq s t hb
  exact ht ▸ h t'

theorem tag_of_elementOf {content : List Char} {e : Element} (h : elementOf content = .ok e) :
    e.tag = tagOf content := by
  obtain ⟨_, _, h⟩ := bind_eq_ok_iff.mp h
  cases h
  rfl

theorem name_of_close {content : List Char} {named : List String}
    (h : close content opened = .ok (tag, named)) : opened = tag :: named := by
  cases opened
  case nil => cases h
  case cons =>
    rw [close] at h
    split at h
    case isTrue =>
      cases h
      rfl
    case isFalse => cases h

-- What holds of the events of each piece in front of what is read behind it holds of all that is
-- read. The open elements are those whose names the closing tags are held against.
theorem Cut.of_events {P : List String → List Event → Prop} {c : Cut} (nil : P [] [])
    (text : ∀ {opened es} s, P opened es → P opened (consText s es))
    (enter : ∀ {opened es tag} attributes,
      P (tag :: opened) es → P opened (.enter tag attributes :: es))
    (exit : ∀ {opened es} tag, P opened es → P (tag :: opened) (.exit tag :: es))
    (h : (c.matched opened).events opened = .ok es) : P opened es := by
  induction c generalizing opened es
  case done =>
    cases opened
    case nil =>
      cases h
      exact nil
    case cons => cases h
  case stuck => cases h
  case piece p here behind hi =>
    cases p
    case text content =>
      obtain ⟨s, _, h⟩ := bind_eq_ok_iff.mp h
      obtain ⟨es, hb, h⟩ := bind_eq_ok_iff.mp h
      cases h
      exact text s (hi hb)
    case verbatim content =>
      obtain ⟨es, hb, h⟩ := bind_eq_ok_iff.mp h
      cases h
      exact text _ (hi hb)
    case opening content =>
      obtain ⟨e, he, h⟩ := bind_eq_ok_iff.mp h
      obtain ⟨es, hb, h⟩ := bind_eq_ok_iff.mp h
      cases h
      rw [← tag_of_elementOf (mapError_eq_ok_iff.mp he)] at hb
      exact enter e.attributes (hi hb)
    case empty content =>
      obtain ⟨e, _, h⟩ := bind_eq_ok_iff.mp h
      obtain ⟨es, hb, h⟩ := bind_eq_ok_iff.mp h
      cases h
      exact enter e.attributes (exit e.tag (hi hb))
    case closing content =>
      rw [matched] at h
      split at h
      case h_1 => cases h
      case h_2 tag named hc =>
        cases name_of_close hc
        obtain ⟨es, hb, h⟩ := bind_eq_ok_iff.mp h
        cases h
        rw [String.ofList_toList]
        exact exit tag (hi hb)
    case dropped => exact hi h

theorem Cut.closes_of_events {c : Cut} (h : (c.matched opened).events opened = .ok es) :
    Closes opened es :=
  of_events ⟨.nil, rfl⟩ (fun s h => h.consText s) (fun attributes h => h.enter attributes)
    (fun tag h => h.exit tag) h

theorem exists_forest_of_read {source : String} (h : read source = .ok es) :
    ∃ t : Forest, es = t.events :=
  Cut.closes_of_events (mapError_eq_ok_iff.mp h)

end Ordo.Markup
