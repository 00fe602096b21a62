import Mathlib.Data.List.Forall2
import Ordo.Proofs.Day.Saints
import Ordo.Proofs.Document.Overlay
import Ordo.Proofs.Document.Scripture

namespace Ordo

theorem forall₂_of_mapM {ε α β : Type} {f : α → Except ε β} {as : List α} {bs : List β}
    (h : as.mapM f = .ok bs) : List.Forall₂ (fun a b => f a = .ok b) as bs := by
  induction as generalizing bs
  case nil =>
    cases h
    exact .nil
  case cons a as hi =>
    obtain ⟨b, bs, ha, has, rfl⟩ := mapM_cons_eq_ok_iff.mp h
    exact .cons ha (hi has)

namespace Day

open Document (Heading IsOverlay Walk biography biographyOf rankBehind remains seeing)
open Markup (Element Forest elements)

-- A document of a biography, with the elements that remain of it and what it says.
structure Layer where
  document  : SourceText
  remaining : List Element
  record    : Biography

-- The layer is read with the bindings `b` behind the rank `rank`.
def Layer.IsRead (b : Bindings) (rank : Option Value) (y : Layer) : Prop :=
  let b := seeing b rank
  ∃ t u : Forest, Markup.read y.document.text = .ok t.events ∧ remains b [] t = (u.events, none) ∧
    y.remaining = elements u.events ∧ (biography y.document.text b).1 = .ok y.record

def remaining (ys : List Layer) : List Element :=
  ys.flatMap (·.remaining)

-- The documents are read as layers of the commemoration `c`, each with the rank that the layers
-- before it leave.
def AreRead (b : Bindings) (c : Commemoration) (ds : List SourceText) (ys : List Layer) : Prop :=
  ys.map (·.document) = ds ∧
    ∀ (i : Nat) (y : Layer), ys[i]? = some y →
      y.IsRead b (rankBehind c.rank (remaining (ys.take i)))

-- The commemoration `c'` is `c` with some layers of its biography.
structure IsLayered (c : Commemoration) (ys : List Layer) (c' : Commemoration) : Prop where
  heading   : Heading.ofCommemoration c' = .ofCommemoration c
  name      : IsOverlay "NAME" c.name (remaining ys) c'.name
  info      : IsOverlay "INFO" c.info (remaining ys) c'.info
  life      : c'.life = (ys.getLast?.map (·.record.life)).getD c.life
  reference : c'.reference = (ys.getLast?.map (·.record.reference)).getD c.reference
  rank      : c'.rank = rankBehind c.rank (remaining ys)
  services  : c'.allServices = c.allServices ++ ys.flatMap (·.record.services)
  absent    : c'.services = none ↔ c.services = none ∧ ∀ y ∈ ys, y.record.services = []

variable {b : Bindings} {c c' c'' : Commemoration} {rank : Option Value} {d : SourceText}
  {ds : List SourceText} {y : Layer} {ys zs : List Layer} {r : Biography}

theorem isLayered_nil (c : Commemoration) : IsLayered c [] c where
  heading   := rfl
  name      := Document.isOverlay_nil
  info      := Document.isOverlay_nil
  life      := rfl
  reference := rfl
  rank      := rfl
  services  := (List.append_nil _).symm
  absent    := by simp

theorem remaining_append (ys zs : List Layer) :
    remaining (ys ++ zs) = remaining ys ++ remaining zs :=
  List.flatMap_append

-- What the last layer says of a part of which no other layer matters.
theorem getD_getLast?_append {α : Type} (f : Layer → α) (a : α) :
    ((ys ++ zs).getLast?.map f).getD a =
      (zs.getLast?.map f).getD ((ys.getLast?.map f).getD a) := by
  rw [List.getLast?_append]
  cases zs.getLast?
  case none => rfl
  case some => rfl

theorem IsLayered.append (h : IsLayered c ys c') (h' : IsLayered c' zs c'') :
    IsLayered c (ys ++ zs) c'' where
  heading   := h'.heading.trans h.heading
  name      := remaining_append ys zs ▸ h.name.append h'.name
  info      := remaining_append ys zs ▸ h.info.append h'.info
  life      := by rw [h'.life, h.life, getD_getLast?_append]
  reference := by rw [h'.reference, h.reference, getD_getLast?_append]
  rank      := by rw [h'.rank, h.rank, remaining_append, Document.rankBehind_append]
  services  := by rw [h'.services, h.services, List.flatMap_append, List.append_assoc]
  absent    := by rw [h'.absent, h.absent, List.forall_mem_append, and_assoc]

theorem isLayered_withBiography (h : y.IsRead b rank) :
    IsLayered c [y] (c.withBiography y.record) := by
  obtain ⟨t, u, ht, hu, hr, hb⟩ := h
  obtain ⟨_, _, he, _⟩ := Document.exists_biography_eq ht (seeing b rank)
  have ho : biographyOf (seeing b rank) t = .ok y.record :=
    (congrArg (·.1) he).symm.trans hb
  obtain ⟨hn, hi, hk⟩ := Document.overlays_of_biographyOf hu ho
  have hy : remaining [y] = elements u.events := by rw [remaining, List.flatMap_singleton, hr]
  constructor
  case heading   => rfl
  case name      => exact hy ▸ hn.onto c.name
  case info      => exact hy ▸ hi.onto c.info
  case life      => rfl
  case reference => rfl
  case rank      => exact hy ▸ hk c.rank
  case services  =>
    rw [List.flatMap_singleton, Commemoration.allServices, Commemoration.withBiography]
    by_cases hs : y.record.services.isEmpty
    case pos => rw [if_pos hs, List.isEmpty_iff.mp hs, List.append_nil, Commemoration.allServices]
    case neg => rw [if_neg hs, Option.getD_some]
  case absent    =>
    rw [List.forall_mem_singleton, Commemoration.withBiography]
    by_cases hs : y.record.services.isEmpty
    case pos => rw [if_pos hs, and_iff_left (List.isEmpty_iff.mp hs)]
    case neg =>
      rw [if_neg hs]
      exact iff_of_false nofun fun h => hs (List.isEmpty_iff.mpr h.2)

theorem IsLayered.unique (h : IsLayered c ys c') (h' : IsLayered c ys c'') : c' = c'' := by
  have hs : c'.services = c''.services := by
    have hn := h.absent.trans h'.absent.symm
    have ha : c'.services.getD [] = c''.services.getD [] := h.services.trans h'.services.symm
    cases hc : c'.services
    case none => exact (hn.mp hc).symm
    case some =>
      cases hc' : c''.services
      case none => exact absurd (hc.symm.trans (hn.mpr hc')) nofun
      case some => simpa [hc, hc'] using ha
  have hh := h.heading.trans h'.heading.symm
  have hn := h.name.unique h'.name
  have hi := h.info.unique h'.info
  have hl := h.life.trans h'.life.symm
  have hr := h.reference.trans h'.reference.symm
  have hk := h.rank.trans h'.rank.symm
  cases c'
  cases c''
  simp_all [Heading.ofCommemoration]

theorem areRead_nil : AreRead b c [] [] :=
  ⟨rfl, by simp⟩

theorem areRead_cons_iff : AreRead b c (d :: ds) (y :: ys) ↔
    y.document = d ∧ y.IsRead b c.rank ∧ AreRead b (c.withBiography y.record) ds ys := by
  have hr (hy : y.IsRead b c.rank) (ys : List Layer) :
      rankBehind c.rank (remaining (y :: ys)) =
        rankBehind (c.withBiography y.record).rank (remaining ys) := by
    rw [(isLayered_withBiography hy).rank, ← Document.rankBehind_append, ← remaining_append]
    rfl
  rw [AreRead, List.map_cons, List.cons.injEq, and_assoc]
  refine and_congr_right fun _ => ?_
  constructor
  case mp =>
    rintro ⟨hd, h⟩
    have hy : y.IsRead b c.rank := h 0 y rfl
    exact ⟨hy, hd, fun i z hz => hr hy (ys.take i) ▸ h (i + 1) z hz⟩
  case mpr =>
    rintro ⟨hy, hd, h⟩
    refine ⟨hd, fun i z hz => ?_⟩
    cases i
    case zero =>
      cases hz
      exact hy
    case succ i =>
      rw [List.take_succ_cons, hr hy]
      exact h i z hz

theorem exists_layer_of_biography
    (h : (biography d.text (seeing b rank)).1 = .ok r) :
    ∃ es, Layer.IsRead b rank ⟨d, es, r⟩ := by
  obtain ⟨t, ht⟩ := Document.exists_forest_of_biography (Prod.ext h rfl)
  obtain ⟨_, _, he, _⟩ := Document.exists_biography_eq ht (seeing b rank)
  have hb := (congrArg (·.1) he).symm.trans h
  rcases hu : remains (seeing b rank) [] t with ⟨kept, _ | f⟩
  case none =>
    obtain ⟨u, rfl⟩ := Document.exists_forest_of_remains hu
    exact ⟨_, t, u, ht, hu, rfl, h⟩
  case some =>
    simp only [biographyOf, hu] at hb
    obtain ⟨_, _, hb⟩ := bind_eq_ok_iff.mp hb
    cases hb

theorem addBiographies_cons_eq_ok_iff : (addBiographies b c (d :: ds)).result = .ok c' ↔
    ∃ r, (biography d.text (seeing b c.rank)).1 = .ok r ∧
      (addBiographies b (c.withBiography r) ds).result = .ok c' := by
  rw [addBiographies_cons, Logged.bind_eq_ok_iff]
  simp only [inDocument_eq_ok_iff]

theorem exists_layers (h : (addBiographies b c ds).result = .ok c') :
    ∃ ys, AreRead b c ds ys ∧ IsLayered c ys c' := by
  induction ds generalizing c
  case nil =>
    cases h
    exact ⟨[], areRead_nil, isLayered_nil _⟩
  case cons d ds hi =>
    obtain ⟨r, hr, h⟩ := addBiographies_cons_eq_ok_iff.mp h
    obtain ⟨es, hy⟩ := exists_layer_of_biography hr
    obtain ⟨ys, hys, hl⟩ := hi h
    exact ⟨⟨d, es, r⟩ :: ys, areRead_cons_iff.mpr ⟨rfl, hy, hys⟩,
      (isLayered_withBiography hy).append hl⟩

theorem AreRead.exists_addBiographies (h : AreRead b c ds ys) :
    ∃ c', (addBiographies b c ds).result = .ok c' ∧ IsLayered c ys c' := by
  induction ds generalizing c ys
  case nil =>
    obtain rfl := List.map_eq_nil_iff.mp h.1
    exact ⟨c, rfl, isLayered_nil c⟩
  case cons d ds hi =>
    obtain ⟨y, ys, rfl, -, -⟩ := List.map_eq_cons_iff.mp h.1
    obtain ⟨rfl, hy, hys⟩ := areRead_cons_iff.mp h
    obtain ⟨c', hc, hl⟩ := hi hys
    obtain ⟨_, _, _, _, _, hr⟩ := id hy
    exact ⟨c', addBiographies_cons_eq_ok_iff.mpr ⟨y.record, hr, hc⟩,
      (isLayered_withBiography hy).append hl⟩

-- A commemoration gets a biography if all layers can be read, each with the rank that those before
-- it leave, and becomes what all of them together say. In a day, each commemoration gets the layers
-- found for it, and all of them are read with the facts of the day, which what follows sees, too.
theorem addBiographies_layered (b : Bindings) (c : Commemoration) (ds : List SourceText) :
    (∀ ys, AreRead b c ds ys → ∃ c', (addBiographies b c ds).result = .ok c') ∧
    (∀ c', (addBiographies b c ds).result = .ok c' ↔
      ∃ ys, AreRead b c ds ys ∧ IsLayered c ys c') ∧
    ∀ l date d, (resolve l date).result = .ok d → ∃ movable fixed, Built l date movable fixed d ∧
      List.Forall₂ (fun c c' => ∃ ds ys, (l.lives c.cid).result = .ok ds ∧
        AreRead (DayFacts.ofDate date).bindings c ds ys ∧ IsLayered c ys c')
        (movable ++ fixed) d.commemorations := by
  refine ⟨fun ys h => ?total, fun c' => ⟨exists_layers, ?unique⟩, fun l date d h => ?day⟩
  case total =>
    obtain ⟨c', hc, -⟩ := h.exists_addBiographies
    exact ⟨c', hc⟩
  case unique =>
    rintro ⟨ys, hys, hl⟩
    obtain ⟨c'', hc, hl'⟩ := hys.exists_addBiographies
    exact hl.unique hl' ▸ hc
  case day =>
    obtain ⟨movable, fixed, h⟩ := resolve_eq_ok_iff.mp h
    refine ⟨movable, fixed, h, (forall₂_of_mapM h.biographies).imp fun c c' hc => ?_⟩
    obtain ⟨ds, hds, hc⟩ := Logged.bind_eq_ok_iff.mp hc
    obtain ⟨ys, hys, hl⟩ := exists_layers hc
    exact ⟨ds, ys, ofArchive_eq_ok_iff.mp hds, hys, hl⟩

-- Two layers of one biography. The rank that the first one declares is what the guard of the second
-- one sees, and the second one says nothing of a reference.
def basilTexts : Dictionary String := .ofList [
  ("en/xml/lives/07.xml", "<NAME Short='Basil' Cmd='dRank == 5'/><MATINS/>"),
  ("xml/04/15.xml", "<SAINT CId='7'/>"),
  ("xml/lives/07.xml", "<NAME Long='Basil' Cmd='1'/><REF CId='9'/><SERVICE Type='5'/><VESPERS/>"),
  ("xml/pentecostarion/01.xml", "<SAINT CId='900'/>")
]

def basil : Commemoration where
  cid   := "7"
  cycle := .fixed

def layeredBasil : Commemoration :=
  { basil with
    rank     := some (.text "5")
    name     := some (.ofList [("Long", "Basil"), ("Short", "Basil")])
    services := some [⟨.vespers, none⟩, ⟨.matins, none⟩] }

theorem addBiographies_layered_basil :
    let l : Library := ⟨.ofDocuments basilTexts, ["en"]⟩
    let date : Date := ⟨2458602⟩
    let b := (DayFacts.ofDate date).bindings
    (∃ ds ys, (l.lives "7").result = .ok ds ∧ AreRead b basil ds ys ∧
      (addBiographies b basil ds).result = .ok layeredBasil ∧ IsLayered basil ys layeredBasil) ∧
    ∃ d movable fixed, (resolve l date).result = .ok d ∧ Built l date movable fixed d ∧
      layeredBasil ∈ d.commemorations := by
  intro l date b
  refine ⟨?layers, ?day⟩
  case layers =>
    let ds : List SourceText := [
      ⟨"xml/lives/07.xml", (basilTexts.get? "xml/lives/07.xml").getD ""⟩,
      ⟨"en/xml/lives/07.xml", (basilTexts.get? "en/xml/lives/07.xml").getD ""⟩
    ]
    have hds : (l.lives "7").result = .ok ds := toOption_eq_some_iff.mp (by decide +kernel)
    have hc : (addBiographies b basil ds).result = .ok layeredBasil :=
      toOption_eq_some_iff.mp (by decide +kernel)
    obtain ⟨ys, hys, hl⟩ := ((addBiographies_layered b basil ds).2.1 layeredBasil).mp hc
    exact ⟨ds, ys, hds, hys, hc, hl⟩
  case day =>
    have hr : (resolve l date).result.toOption.any (layeredBasil ∈ ·.commemorations) := by
      decide +kernel
    obtain ⟨d, hd, hm⟩ := (Option.any_eq_true ..).mp hr
    have hd := toOption_eq_some_iff.mp hd
    obtain ⟨movable, fixed, hb, -⟩ := (addBiographies_layered b basil []).2.2 l date d hd
    exact ⟨d, movable, fixed, hd, hb, of_decide_eq_true hm⟩

end Day

end Ordo
