import Ordo.Proofs.Document.Biography

namespace Ordo.Document

open Markup (Attributes Element Event Forest elements guardAttribute)

-- The value under `key` in the last element with the tag `tag` that has the key. A guard is none.
def lastGiven (tag key : String) (es : List Element) : Option String :=
  if key = guardAttribute then none
  else (es.filter (·.tag = tag)).reverse.findSome? (·.attributes.get? key)

-- The attributes `result` come from laying the elements with the tag `tag` over `base`.
structure IsOverlay (tag : String) (base : Option Attributes) (es : List Element)
    (result : Option Attributes) : Prop where
  absent : result = none ↔ base = none ∧ ∀ e ∈ es, e.tag ≠ tag
  given  : ∀ key, result.bind (·.get? key) = (lastGiven tag key es).or (base.bind (·.get? key))

-- The rank behind some elements, which is that of the last service.
def rankBehind (rank : Option Value) (es : List Element) : Option Value :=
  ((es.filter (·.tag = "SERVICE")).getLast?.map declaredRank).getD rank

variable {tag key : String} {base layer result result' : Option Attributes} {e : Element}
  {es es' : List Element} {rank : Option Value}

theorem overlaid_eq_none_iff : overlaid base layer = none ↔ base = none ∧ layer = none := by
  cases base <;> cases layer <;> simp [overlaid]

theorem get?_overlaid (key : String) :
    (overlaid base layer).bind (·.get? key) =
      (layer.bind (·.get? key)).or (base.bind (·.get? key)) := by
  cases base <;> cases layer <;> simp [overlaid, Dictionary.get?_overlay]

theorem lastGiven_nil : lastGiven tag key [] = none := by
  rw [lastGiven]
  exact ite_self none

theorem lastGiven_append :
    lastGiven tag key (es ++ es') = (lastGiven tag key es').or (lastGiven tag key es) := by
  simp only [lastGiven]
  split
  case isTrue  => rfl
  case isFalse => rw [List.filter_append, List.reverse_append, List.findSome?_append]

-- The attributes that an element adds.
def layerOf (tag : String) (e : Element) : Option Attributes :=
  if e.tag = tag then some (Walk.unguarded e) else none

theorem lastGiven_singleton :
    lastGiven tag key [e] = (layerOf tag e).bind (·.get? key) := by
  by_cases ht : e.tag = tag
  case pos =>
    simp only [lastGiven, layerOf, if_pos ht, Option.bind_some, Walk.unguarded,
      Dictionary.get?_erase]
    split
    case isTrue  => rfl
    case isFalse => simp [ht]
  case neg =>
    simp only [lastGiven, layerOf, if_neg ht, Option.bind_none]
    split
    case isTrue  => rfl
    case isFalse => simp [ht]

theorem isOverlay_nil : IsOverlay tag base [] base where
  absent  := by simp
  given _ := by rw [lastGiven_nil, Option.none_or]

theorem IsOverlay.append (h : IsOverlay tag base es result)
    (h' : IsOverlay tag result es' result') : IsOverlay tag base (es ++ es') result' where
  absent    := by rw [h'.absent, h.absent, List.forall_mem_append, and_assoc]
  given key := by rw [h'.given, h.given, lastGiven_append, Option.or_assoc]

-- What is made of some elements by themselves can be laid over anything.
theorem IsOverlay.onto (h : IsOverlay tag none es layer) (base : Option Attributes) :
    IsOverlay tag base es (overlaid base layer) where
  absent    := by rw [overlaid_eq_none_iff, h.absent, and_iff_right rfl]
  given key := by rw [get?_overlaid, h.given, Option.bind_none, Option.or_none]

theorem isOverlay_layerOf (tag : String) (e : Element) :
    IsOverlay tag none [e] (layerOf tag e) where
  absent    := by simp [layerOf]
  given key := by rw [lastGiven_singleton, Option.bind_none, Option.or_none]

theorem IsOverlay.unique (h : IsOverlay tag base es result)
    (h' : IsOverlay tag base es result') : result = result' := by
  have hn : result = none ↔ result' = none := h.absent.trans h'.absent.symm
  have hg (key : String) : result.bind (·.get? key) = result'.bind (·.get? key) :=
    (h.given key).trans (h'.given key).symm
  cases result
  case none => exact (hn.mp rfl).symm
  case some =>
    cases result'
    case none => exact hn.mpr rfl
    case some => exact congrArg some (Dictionary.eq_of_get?_eq hg)

theorem rankBehind_append :
    rankBehind rank (es ++ es') = rankBehind (rankBehind rank es) es' := by
  rw [rankBehind, List.filter_append, List.getLast?_append, rankBehind, rankBehind]
  cases (es'.filter (·.tag = "SERVICE")).getLast?
  case none => rfl
  case some => rfl

theorem elements_append (es es' : List Event) : elements (es ++ es') = elements es ++ elements es' :=
  List.filterMap_append

theorem elements_cons (e : Event) (es : List Event) :
    elements (e :: es) = elements [e] ++ elements es :=
  elements_append [e] es

-- The rank behind the elements of a row of events is that of the last service in the row.
theorem lastService?_eq (es : List Event) :
    lastService? es = ((elements es).filter (·.tag = "SERVICE")).getLast? := by
  rw [lastService?, elements, List.filter_filterMap, List.getLast?_filterMap]
  refine congrArg (List.findSome? · es.reverse) (funext fun e => ?_)
  cases e
  case enter tag attributes => simp [serviceOf?, Option.filter]
  case exit => rfl
  case text => rfl

namespace Walk

variable {w w' : Walk} {b b' : Bindings} {events : List Event}

-- What is known of names and infos behind some elements.
structure Overlays (w : Walk) (es : List Element) (w' : Walk) : Prop where
  name : IsOverlay "NAME" w.biography.name es w'.biography.name
  info : IsOverlay "INFO" w.biography.info es w'.biography.info

theorem Overlays.append {w'' : Walk} (h : Overlays w es w') (h' : Overlays w' es' w'') :
    Overlays w (es ++ es') w'' :=
  ⟨h.name.append h'.name, h.info.append h'.info⟩

-- Whether names and infos are the same in both.
def SameNames (w w' : Walk) : Prop :=
  w'.biography.name = w.biography.name ∧ w'.biography.info = w.biography.info

theorem SameNames.overlays_nil (h : SameNames w w') : Overlays w [] w' where
  name := h.1 ▸ isOverlay_nil
  info := h.2 ▸ isOverlay_nil

theorem overlays_singleton (hn : w'.biography.name = overlaid w.biography.name (layerOf "NAME" e))
    (hi : w'.biography.info = overlaid w.biography.info (layerOf "INFO" e)) :
    Overlays w [e] w' where
  name := hn ▸ (isOverlay_layerOf "NAME" e).onto _
  info := hi ▸ (isOverlay_layerOf "INFO" e).onto _

theorem SameNames.overlays_singleton (h : SameNames w w') (hn : e.tag ≠ "NAME")
    (hi : e.tag ≠ "INFO") : Overlays w [e] w' := by
  refine Walk.overlays_singleton ?_ ?_
  · rw [layerOf, if_neg hn, h.1, overlaid]
  · rw [layerOf, if_neg hi, h.2, overlaid]

theorem overlays_of_enter (h : w.enter e b = .ok (w', b')) : Overlays w [e] w' := by
  have hs (hs : SameNames w w') (ht : e.tag ≠ "NAME" ∧ e.tag ≠ "INFO") : Overlays w [e] w' :=
    hs.overlays_singleton ht.1 ht.2
  rw [enter] at h
  split at h
  case h_1 ht =>
    cases h
    exact overlays_singleton (by rw [layerOf, if_pos ht])
      (by rw [layerOf, if_neg (by simp [ht]), overlaid])
  case h_2 ht =>
    cases h
    exact overlays_singleton (by rw [layerOf, if_neg (by simp [ht]), overlaid])
      (by rw [layerOf, if_pos ht])
  case h_3 ht =>
    refine hs ?_ (by simp [ht])
    split at h
    all_goals
      cases h
      exact ⟨rfl, rfl⟩
  case h_5 ht =>
    refine hs ?_ (by simp [ht])
    split at h
    case h_1 =>
      cases h
      exact ⟨rfl, rfl⟩
    case h_2 =>
      obtain ⟨_, _, h⟩ := map_eq_ok_iff.mp h
      cases h
      exact ⟨rfl, rfl⟩
  case h_7 hn hi _ _ _ _ =>
    refine hs ?_ ⟨hn, hi⟩
    split at h
    all_goals
      cases h
      exact ⟨rfl, rfl⟩
  all_goals
    cases h
    exact hs ⟨rfl, rfl⟩ (by simp [*])

theorem sameNames_exit (w : Walk) (tag : String) : SameNames w (w.exit tag) := by
  rw [exit]
  split
  case isTrue => exact ⟨rfl, rfl⟩
  case isFalse =>
    split
    all_goals exact ⟨rfl, rfl⟩

theorem sameNames_text (w : Walk) (s : String) : SameNames w (w.text s) := by
  rw [text]
  split
  all_goals exact ⟨rfl, rfl⟩

theorem overlays_of_read {event : Event} (h : w.read event = .ok w') :
    Overlays w (elements [event]) w' := by
  obtain ⟨⟨_, b⟩, hs, rfl⟩ := map_eq_ok_iff.mp h
  cases event
  case enter => exact overlays_of_enter hs
  case exit tag =>
    cases hs
    exact (w.sameNames_exit tag).overlays_nil
  case text s =>
    cases hs
    exact (w.sameNames_text s).overlays_nil

theorem overlays_of_foldlM (h : events.foldlM read w = .ok w') :
    Overlays w (elements events) w' := by
  induction events generalizing w
  case nil =>
    cases h
    exact SameNames.overlays_nil ⟨rfl, rfl⟩
  case cons event events hi =>
    rw [List.foldlM_cons] at h
    obtain ⟨w'', he, h⟩ := bind_eq_ok_iff.mp h
    rw [elements_cons]
    exact (overlays_of_read he).append (hi h)

end Walk

-- Names, infos and the rank of a biography by the elements that remain of its document.
theorem overlays_of_biographyOf {b : Bindings} {t u : Forest} {r : Biography}
    (hu : remains b [] t = (u.events, none)) (h : biographyOf b t = .ok r) :
    IsOverlay "NAME" none (elements u.events) r.name ∧
      IsOverlay "INFO" none (elements u.events) r.info ∧
      ∀ rank, r.rank.getD rank = rankBehind rank (elements u.events) := by
  rw [biographyOf, hu] at h
  obtain ⟨w, hw, h⟩ := bind_eq_ok_iff.mp h
  cases h
  have ho := Walk.overlays_of_foldlM hw
  refine ⟨ho.name, ho.info, fun rank => ?_⟩
  have hr : w.biography.rank = (lastService? u.events).map declaredRank :=
    (Walk.rank_of_foldlM hw).trans Option.or_none
  rw [rankBehind, ← lastService?_eq, ← hr]
  rfl

end Ordo.Document
