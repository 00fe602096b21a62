import Ordo.Proofs.Document.Biography
import Ordo.Proofs.Document.Flat

namespace Ordo.Document

open Markup (Attributes Element Event Forest guardHolds)

-- An element of a service with its content.
structure Station where
  office  : Office
  content : Forest
deriving DecidableEq

-- The services of a forest in the order of their elements.
def stations : Forest → List Station
  | .nil => []
  | .text _ behind => stations behind
  | .element tag _ content behind =>
    let inner := stations content ++ stations behind
    match Office.ofTag? tag with
    | some office => ⟨office, content⟩ :: inner
    | none        => inner

def asScripture (e : Element) : List Element :=
  if e.tag = "SCRIPTURE" then [e] else []

-- The scriptures in a forest that do not stand in one of its services.
def scriptures : Forest → List Element
  | .nil => []
  | .text _ behind => scriptures behind
  | .element tag attributes content behind =>
    let inner := if (Office.ofTag? tag).isSome then [] else scriptures content
    asScripture ⟨tag, attributes⟩ ++ inner ++ scriptures behind

-- Those of them that stand ahead of all services.
def leading : Forest → List Element
  | .nil => []
  | .text _ behind => leading behind
  | .element tag attributes content behind =>
    if (Office.ofTag? tag).isSome then []
    else
      asScripture ⟨tag, attributes⟩ ++ leading content ++
        if stations content = [] then leading behind else []

-- Those of them that stand behind a service.
def trailing : Forest → List Element
  | .nil => []
  | .text _ behind => trailing behind
  | .element tag _ content behind =>
    if (Office.ofTag? tag).isSome then scriptures behind
    else if stations content = [] then trailing behind
    else trailing content ++ scriptures behind

variable {tag : String} {attributes : Attributes} {content behind t : Forest} {office : Office}

section

variable (h : Office.ofTag? tag = some office)

include h

theorem stations_of_service :
    stations (.element tag attributes content behind) =
      ⟨office, content⟩ :: (stations content ++ stations behind) := by
  simp only [stations, h]

theorem leading_of_service : leading (.element tag attributes content behind) = [] := by
  simp only [leading, h, Option.isSome_some, if_pos]

theorem trailing_of_service :
    trailing (.element tag attributes content behind) = scriptures behind := by
  simp only [trailing, h, Option.isSome_some, if_pos]

theorem scriptures_of_service :
    scriptures (.element tag attributes content behind) = scriptures behind := by
  have ht : tag ≠ "SCRIPTURE" := by
    rintro rfl
    cases h
  simp only [scriptures, asScripture, if_neg ht, h, Option.isSome_some, if_pos, List.nil_append]

end

section

variable (h : Office.ofTag? tag = none)

include h

theorem stations_of_other :
    stations (.element tag attributes content behind) = stations content ++ stations behind := by
  simp only [stations, h]

theorem leading_of_other :
    leading (.element tag attributes content behind) =
      asScripture ⟨tag, attributes⟩ ++ leading content ++
        if stations content = [] then leading behind else [] := by
  simp only [leading, h, Option.isSome_none, if_neg Bool.false_ne_true]

theorem trailing_of_other :
    trailing (.element tag attributes content behind) =
      if stations content = [] then trailing behind
      else trailing content ++ scriptures behind := by
  simp only [trailing, h, Option.isSome_none, if_neg Bool.false_ne_true]

theorem scriptures_of_other :
    scriptures (.element tag attributes content behind) =
      asScripture ⟨tag, attributes⟩ ++ scriptures content ++ scriptures behind := by
  simp only [scriptures, h, Option.isSome_none, if_neg Bool.false_ne_true]

end

theorem trailing_eq_nil (h : stations t = []) : trailing t = [] := by
  induction t
  case nil => rfl
  case text s behind hb => exact hb h
  case element tag attributes content behind hc hb =>
    cases ho : Office.ofTag? tag
    case some => cases (stations_of_service ho).symm.trans h
    case none =>
      rw [stations_of_other ho] at h
      obtain ⟨hcn, hbn⟩ := List.append_eq_nil_iff.mp h
      rw [trailing_of_other ho, if_pos hcn, hb hbn]

theorem leading_append_trailing (t : Forest) : leading t ++ trailing t = scriptures t := by
  induction t
  case nil => rfl
  case text s behind hb => exact hb
  case element tag attributes content behind hc hb =>
    cases ho : Office.ofTag? tag
    case some =>
      rw [leading_of_service ho, trailing_of_service ho, scriptures_of_service ho, List.nil_append]
    case none =>
      rw [leading_of_other ho, trailing_of_other ho, scriptures_of_other ho, ← hc, ← hb]
      split
      case isTrue h  => simp [trailing_eq_nil h]
      case isFalse h => simp

-- A service with the readings that it has so far.
abbrev Entry := Office × List Reading

-- The readings `rs` for the current service, if there is one.
def addressed (current : Option Office) (rs : List Reading) : List Entry :=
  current.toList.map (·, rs)

-- Each entry takes the readings of the `later` ones of its kind.
def gather (later : List Entry) (entries : List Entry) : List Entry :=
  entries.map fun (office, rs) => (office, rs ++ (later.filter (·.1 = office)).flatMap (·.2))

-- Each entry takes the readings of those of its kind behind it.
def pool : List Entry → List Entry
  | []               => []
  | entry :: entries => gather entries [entry] ++ pool entries

section

variable {entries entries' later later' : List Entry} {current : Option Office}
  {rs rs' : List Reading}

@[simp]
theorem gather_nil : gather [] entries = entries := by
  simp [gather]

theorem gather_append :
    gather (later ++ later') entries = gather later' (gather later entries) := by
  simp [gather]

theorem gather_entries_append :
    gather later (entries ++ entries') = gather later entries ++ gather later entries' :=
  List.map_append

theorem pool_append : pool (entries ++ later) = gather later (pool entries) ++ pool later := by
  induction entries
  case nil => rfl
  case cons entry entries hi =>
    rw [List.cons_append, pool, pool, hi, gather_append, gather_entries_append, List.append_assoc]

theorem gather_addressed_none : gather (addressed none rs) entries = entries :=
  gather_nil

theorem gather_addressed_some {office : Office} :
    gather (addressed (some office) rs) entries =
      entries.map fun (o, rs') => (o, if o = office then rs' ++ rs else rs') := by
  refine List.map_congr_left fun (o, rs') _ => ?_
  by_cases h : o = office
  case pos => simp [addressed, h]
  case neg => simp [addressed, h, Ne.symm h]

theorem gather_addressed_nil : gather (addressed current []) entries = entries := by
  cases current
  case none => exact gather_addressed_none
  case some => simp [gather_addressed_some]

theorem gather_addressed_append :
    gather (addressed current (rs ++ rs')) entries =
      gather (addressed current rs') (gather (addressed current rs) entries) := by
  cases current
  case none => simp only [gather_addressed_none]
  case some office =>
    simp only [gather_addressed_some, List.map_map]
    refine List.map_congr_left fun (o, _) _ => ?_
    by_cases h : o = office
    case pos => simp [h]
    case neg => simp [h]

end

namespace Walk

variable {w w' : Walk} {e : Element} {s : String}

-- The reading of a scripture that has a citation.
def lesson (e : Element) : Reading where
  week     := given? e "EffWeek"
  pericope := given? e "Pericope"
  citation := (e.attributes.get? "Reading").getD ""
  kind     := given? e "Type"

theorem eq_lesson {r : Reading} (h : readingOf e = .ok r) : r = lesson e := by
  obtain ⟨citation, hc, h⟩ := bind_eq_ok_iff.mp h
  cases h
  simp only [lesson, nonEmpty_eq, required_eq_ok_iff.mp hc, Option.getD_some]

def lessons (es : List Element) : List Reading :=
  es.map lesson

theorem lessons_nil : lessons [] = [] := rfl

theorem lessons_append (es es' : List Element) : lessons (es ++ es') = lessons es ++ lessons es' :=
  List.map_append

theorem read_enter_service (ho : Office.ofTag? tag = some office)
    (h : w.read (.enter tag attributes) = .ok w') :
    w'.current = some office ∧ w'.offices = w.offices ++ [(office, [])] := by
  obtain ⟨⟨_, b⟩, hs, rfl⟩ := map_eq_ok_iff.mp h
  simp only [step, enter] at hs
  split at hs
  case h_7 =>
    rw [ho] at hs
    cases hs
    exact ⟨rfl, rfl⟩
  all_goals cases ho

theorem read_enter_other (ho : Office.ofTag? tag = none)
    (h : w.read (.enter tag attributes) = .ok w') :
    w'.current = w.current ∧
      w'.offices =
        gather (addressed w.current (lessons (asScripture ⟨tag, attributes⟩))) w.offices := by
  obtain ⟨⟨_, b⟩, hs, rfl⟩ := map_eq_ok_iff.mp h
  simp only [step, enter] at hs
  split at hs
  case h_3 =>
    split at hs
    all_goals
      cases hs
      exact ⟨rfl, gather_addressed_nil.symm⟩
  case h_5 =>
    cases hc : w.current
    case none =>
      simp only [hc] at hs
      cases hs
      exact ⟨hc, gather_addressed_none.symm⟩
    case some =>
      simp only [hc] at hs
      obtain ⟨r, hr, hs⟩ := map_eq_ok_iff.mp hs
      cases hs
      rw [gather_addressed_some, eq_lesson hr]
      exact ⟨hc, rfl⟩
  case h_7 hn _ =>
    rw [ho] at hs
    cases hs
    rw [asScripture, if_neg hn]
    exact ⟨rfl, gather_addressed_nil.symm⟩
  all_goals
    cases hs
    exact ⟨rfl, gather_addressed_nil.symm⟩

theorem exit_service (w : Walk) (ho : Office.ofTag? tag = some office) :
    (w.exit tag).current = none ∧ (w.exit tag).offices = w.offices := by
  have hl : tag ≠ "LIFE" := by
    rintro rfl
    cases ho
  simp [exit, hl, ho]

theorem exit_other (w : Walk) (ho : Office.ofTag? tag = none) :
    (w.exit tag).current = w.current ∧ (w.exit tag).offices = w.offices := by
  by_cases hl : tag = "LIFE"
  case pos => simp [exit, hl]
  case neg => simp [exit, hl, ho]

theorem text_offices (w : Walk) (s : String) :
    (w.text s).current = w.current ∧ (w.text s).offices = w.offices := by
  rw [text]
  split
  case h_1 => exact ⟨rfl, rfl⟩
  case h_2 => exact ⟨rfl, rfl⟩

-- The services of a forest with the readings that lead them.
def entriesOf (t : Forest) : List Entry :=
  (stations t).map fun s => (s.office, lessons (leading s.content))

theorem entriesOf_service (ho : Office.ofTag? tag = some office) :
    entriesOf (.element tag attributes content behind) =
      addressed (some office) (lessons (leading content)) ++
        (entriesOf content ++ entriesOf behind) := by
  rw [entriesOf, stations_of_service ho, List.map_cons, List.map_append]
  rfl

theorem entriesOf_other (ho : Office.ofTag? tag = none) :
    entriesOf (.element tag attributes content behind) = entriesOf content ++ entriesOf behind := by
  rw [entriesOf, stations_of_other ho, List.map_append]
  rfl

-- What the reading of a forest does to the services. The leading scriptures go to those of the
-- current kind, and no service is the current one behind another one.
structure Gathers (t : Forest) (w w' : Walk) : Prop where
  current : w'.current = if stations t = [] then w.current else none
  offices : w'.offices =
    gather (entriesOf t) (gather (addressed w.current (lessons (leading t))) w.offices) ++
      pool (entriesOf t)

variable {w₁ w₂ : Walk}

theorem gathers_service (ho : Office.ofTag? tag = some office)
    (h₁ : w.read (.enter tag attributes) = .ok w₁) (hc : Gathers content w₁ w₂)
    (hb : Gathers behind (w₂.exit tag) w') :
    Gathers (.element tag attributes content behind) w w' := by
  obtain ⟨hc₁, ho₁⟩ := read_enter_service ho h₁
  obtain ⟨hc₂, ho₂⟩ := w₂.exit_service ho
  constructor
  case current =>
    rw [hb.current, hc₂, ite_self, stations_of_service ho, if_neg (List.cons_ne_nil _ _)]
  case offices =>
    let own := addressed (some office) (lessons (leading content))
    have ho₃ : gather own [(office, [])] = own := by
      rw [gather_addressed_some]
      simp [own, addressed]
    have hp (later : List Entry) : pool (own ++ later) = gather later own ++ pool later := rfl
    calc w'.offices
      _ = gather (entriesOf behind) (gather (entriesOf content)
            (gather own (w.offices ++ [(office, [])])) ++ pool (entriesOf content)) ++
          pool (entriesOf behind) := by
        rw [hb.offices, hc₂, ho₂, hc.offices, hc₁, ho₁, gather_addressed_none]
      _ = gather (own ++ (entriesOf content ++ entriesOf behind)) w.offices ++
          pool (own ++ (entriesOf content ++ entriesOf behind)) := by
        simp only [hp, gather_append, gather_entries_append, pool_append, ho₃, List.append_assoc]
      _ = _ := by
        rw [entriesOf_service ho, leading_of_service ho, lessons_nil, gather_addressed_nil]

theorem gathers_other (ho : Office.ofTag? tag = none)
    (h₁ : w.read (.enter tag attributes) = .ok w₁) (hc : Gathers content w₁ w₂)
    (hb : Gathers behind (w₂.exit tag) w') :
    Gathers (.element tag attributes content behind) w w' := by
  obtain ⟨hc₁, ho₁⟩ := read_enter_other ho h₁
  obtain ⟨hc₂, ho₂⟩ := w₂.exit_other ho
  constructor
  case current =>
    rw [hb.current, hc₂, hc.current, hc₁, stations_of_other ho]
    by_cases hs : stations content = []
    case pos => rw [if_pos hs, hs, List.nil_append]
    case neg => rw [if_neg hs, ite_self, if_neg (List.append_ne_nil_of_left_ne_nil hs _)]
  case offices =>
    rw [hb.offices, hc₂, ho₂, hc.offices, hc.current, hc₁, ho₁, entriesOf_other ho,
      leading_of_other ho]
    by_cases hs : stations content = []
    case pos =>
      have he : entriesOf content = [] := by rw [entriesOf, hs, List.map_nil]
      simp only [if_pos hs, he, lessons_append, gather_addressed_append, gather_nil, pool,
        List.append_nil, List.nil_append]
    case neg =>
      simp only [if_neg hs, lessons_append, gather_addressed_append, gather_addressed_none,
        gather_append, gather_entries_append, pool_append, List.append_nil, List.append_assoc]

theorem gathers_of_events (h : t.events.foldlM read w = .ok w') : Gathers t w w' := by
  induction t generalizing w w'
  case nil =>
    cases h
    exact ⟨rfl, by simp [entriesOf, stations, leading, lessons, gather_addressed_nil, pool]⟩
  case text s behind hb =>
    obtain ⟨w₁, h₁, h⟩ := bind_eq_ok_iff.mp h
    cases h₁
    obtain ⟨hc, ho⟩ := hb h
    obtain ⟨hcw, how⟩ := w.text_offices s
    rw [hcw] at hc ho
    rw [how] at ho
    exact ⟨hc, ho⟩
  case element tag attributes content behind hc hb =>
    obtain ⟨w₁, h₁, h⟩ := bind_eq_ok_iff.mp h
    rw [List.foldlM_append] at h
    obtain ⟨w₂, h₂, h⟩ := bind_eq_ok_iff.mp h
    obtain ⟨w₃, h₃, h⟩ := bind_eq_ok_iff.mp h
    cases h₃
    cases ho : Office.ofTag? tag
    case some => exact gathers_service ho h₁ (hc h₂) (hb h)
    case none => exact gathers_other ho h₁ (hc h₂) (hb h)

end Walk

open Walk (lessons entriesOf)

-- The record of a service, which has no list of readings when there are none.
def serviceOf : Entry → Service
  | (office, rs) => ⟨office, if rs.isEmpty then none else some rs⟩

-- The scriptures that lead the services of one kind.
def leadingOf (office : Office) (ss : List Station) : List Element :=
  (ss.filter (·.office = office)).flatMap fun s => leading s.content

-- The services with the readings that lead each of them, and those of the later ones of its kind.
def recorded : List Station → List Service
  | [] => []
  | s :: later =>
    serviceOf (s.office, lessons (leading s.content ++ leadingOf s.office later)) :: recorded later

-- The services with the readings that stand in each of them and in no service inside of it.
def ownServices (ss : List Station) : List Service :=
  ss.map fun s => serviceOf (s.office, lessons (scriptures s.content))

-- Whether what each service misses behind a service inside of it is what it gets from the later
-- services of its kind.
def MadeUp : List Station → Prop
  | []         => True
  | s :: later => lessons (trailing s.content) = lessons (leadingOf s.office later) ∧ MadeUp later

variable {source : String} {b b' : Bindings} {r : Biography} {ss : List Station}
  {es before : List Event}

theorem serviceOf_injective : Function.Injective serviceOf := by
  rintro ⟨office, rs⟩ ⟨office', rs'⟩ h
  rw [serviceOf, serviceOf, Service.mk.injEq] at h
  obtain ⟨rfl, h⟩ := h
  cases rs <;> cases rs' <;> simp_all

theorem map_serviceOf_pool (ss : List Station) :
    (pool (ss.map fun s => (s.office, lessons (leading s.content)))).map serviceOf =
      recorded ss := by
  induction ss
  case nil => rfl
  case cons s later hi =>
    have hg : gather (later.map fun s => (s.office, lessons (leading s.content)))
          [(s.office, lessons (leading s.content))] =
        [(s.office, lessons (leading s.content ++ leadingOf s.office later))] := by
      simp only [gather, leadingOf, lessons, List.filter_map, List.flatMap_map, List.map_flatMap,
        List.map_cons, List.map_nil, List.map_append]
      rfl
    rw [List.map_cons, pool, hg, List.singleton_append, List.map_cons, hi, recorded]

theorem recorded_eq_iff : recorded ss = ownServices ss ↔ MadeUp ss := by
  induction ss
  case nil => exact iff_of_true rfl trivial
  case cons s later hi =>
    rw [recorded, ownServices, List.map_cons, ← ownServices, List.cons.injEq, hi, MadeUp,
      serviceOf_injective.eq_iff, Prod.mk.injEq, and_iff_right rfl, ← leading_append_trailing,
      Walk.lessons_append, Walk.lessons_append, List.append_cancel_left_eq, eq_comm]

-- If no service stands in another one, and none comes twice, then there is nothing to make up for.
theorem madeUp_of_apart (hd : ss.Pairwise (·.office ≠ ·.office))
    (hn : ∀ s ∈ ss, stations s.content = []) : MadeUp ss := by
  induction ss
  case nil => trivial
  case cons s later hi =>
    obtain ⟨hs, hd⟩ := List.pairwise_cons.mp hd
    obtain ⟨hns, hn⟩ := List.forall_mem_cons.mp hn
    have hl : later.filter (·.office = s.office) = [] := by
      rw [List.filter_eq_nil_iff]
      intro s' hm
      simpa using (hs s' hm).symm
    refine ⟨?_, hi hd hn⟩
    rw [trailing_eq_nil hns, leadingOf, hl, List.flatMap_nil]

theorem exists_forest_of_remains (h : remains b before t = (es, none)) :
    ∃ u : Forest, es = u.events := by
  induction t generalizing es before
  case nil =>
    cases h
    exact ⟨.nil, rfl⟩
  case text s behind hb =>
    simp only [remains, Prod.mk.injEq] at h
    obtain ⟨rfl, h⟩ := h
    obtain ⟨u, hu⟩ := hb (Prod.ext rfl h)
    exact ⟨.text s u, congrArg _ hu⟩
  case element tag attributes content behind hc hb =>
    rcases hg : guardHolds attributes (rankedBy b (lastService? before)) with f | _ | _
    case error => cases (remains_of_failed hg).symm.trans h
    case ok.false => exact hb (remains_of_left_out hg ▸ h)
    case ok.true =>
      rcases hr : remains b (before ++ [.enter tag attributes]) content with ⟨inner, _ | f⟩
      case some => cases (remains_of_stopped hg hr).symm.trans h
      case none =>
        rw [remains_of_kept hg hr, Prod.mk.injEq] at h
        obtain ⟨rfl, h⟩ := h
        obtain ⟨content', rfl⟩ := hc hr
        obtain ⟨behind', hu⟩ := hb (Prod.ext rfl h)
        refine ⟨.element tag attributes content' behind', ?_⟩
        rw [Forest.events, ← hu]
        simp

theorem exists_forest_of_biography (h : biography source b = (.ok r, b')) :
    ∃ t : Forest, Markup.read source = .ok t.events := by
  rw [biography] at h
  split at h
  case h_1 => cases h
  case h_2 hr =>
    obtain ⟨t, rfl⟩ := Markup.exists_forest_of_read hr
    exact ⟨t, hr⟩

-- The services of a biography are those of what remains of its document. They have all of their own
-- readings, and no others, if and only if what they miss is made up for.
theorem services_of_biography (h : biography source b = (.ok r, b')) :
    (∃ t u : Forest, Markup.read source = .ok t.events ∧ remains b [] t = (u.events, none)) ∧
    ∀ t u : Forest, Markup.read source = .ok t.events → remains b [] t = (u.events, none) →
      r.services = recorded (stations u) ∧
      (r.services = ownServices (stations u) ↔ MadeUp (stations u)) ∧
      ((stations u).Pairwise (·.office ≠ ·.office) →
        (∀ s ∈ stations u, stations s.content = []) → r.services = ownServices (stations u)) := by
  have hb {t : Forest} (ht : Markup.read source = .ok t.events) : biographyOf b t = .ok r := by
    obtain ⟨_, _, he, _⟩ := exists_biography_eq ht b
    exact (congrArg (·.1) (h.symm.trans he)).symm
  refine ⟨?remaining, fun t u ht hu => ?services⟩
  case remaining =>
    obtain ⟨t, ht⟩ := exists_forest_of_biography h
    have hb := hb ht
    rcases hu : remains b [] t with ⟨kept, _ | f⟩
    case some =>
      rw [biographyOf, hu] at hb
      obtain ⟨_, _, hb⟩ := bind_eq_ok_iff.mp hb
      cases hb
    case none =>
      obtain ⟨u, rfl⟩ := exists_forest_of_remains hu
      exact ⟨t, u, ht, hu⟩
  case services =>
    have hr : r.services = recorded (stations u) := by
      have hb := hb ht
      rw [biographyOf, hu] at hb
      obtain ⟨w, hw, hb⟩ := bind_eq_ok_iff.mp hb
      cases hb
      calc w.offices.map serviceOf
        _ = (pool (entriesOf u)).map serviceOf := by
          rw [(Walk.gathers_of_events hw).offices]
          rfl
        _ = recorded (stations u) := map_serviceOf_pool (stations u)
    have hm : r.services = ownServices (stations u) ↔ MadeUp (stations u) := by
      rw [hr, recorded_eq_iff]
    exact ⟨hr, hm, fun hd hn => hm.mpr (madeUp_of_apart hd hn)⟩

def scriptureElement (citation : String) (behind : Forest) : Forest :=
  .element "SCRIPTURE" (.ofList [("Reading", citation)]) .nil behind

-- Two services with a scripture each, and a scripture behind them.
def apart : String :=
  "<SAINT><VESPERS><SCRIPTURE Reading='Is 1'/></VESPERS><LITURGY>" ++
    "<SCRIPTURE Reading='Jn 1'/></LITURGY><SCRIPTURE Reading='Mt 1'/></SAINT>"

def apartForest : Forest :=
  let liturgy := .element "LITURGY" ∅ (scriptureElement "Jn 1" .nil) (scriptureElement "Mt 1" .nil)
  .element "SAINT" ∅ (.element "VESPERS" ∅ (scriptureElement "Is 1" .nil) liturgy) .nil

def apartRecord : Biography where
  services := [
    ⟨.vespers, some [⟨none, none, "Is 1", none⟩]⟩,
    ⟨.liturgy, some [⟨none, none, "Jn 1", none⟩]⟩
  ]

theorem services_of_biography_apart :
    (biography apart ∅).1 = .ok apartRecord ∧ Markup.read apart = .ok apartForest.events ∧
      remains ∅ [] apartForest = (apartForest.events, none) ∧
      apartRecord.services = ownServices (stations apartForest) := by
  have h : (biography apart ∅).1 = .ok apartRecord := toOption_eq_some_iff.mp (by decide +kernel)
  have ht : Markup.read apart = .ok apartForest.events :=
    toOption_eq_some_iff.mp (by decide +kernel)
  have hu : remains ∅ [] apartForest = (apartForest.events, none) := by decide +kernel
  obtain ⟨_, hl⟩ := services_of_biography (Prod.ext h rfl)
  exact ⟨h, ht, hu, (hl _ _ ht hu).2.2 (by decide +kernel) (by decide +kernel)⟩

-- A scripture behind a service inside of its own, and a scripture in another service of that kind.
def entangled : String :=
  "<SAINT><VESPERS><MATINS/><SCRIPTURE Reading='Is 1'/></VESPERS>" ++
    "<VESPERS><SCRIPTURE Reading='Is 2'/></VESPERS></SAINT>"

def entangledForest : Forest :=
  let second := .element "VESPERS" ∅ (scriptureElement "Is 2" .nil) .nil
  let first := .element "VESPERS" ∅ (.element "MATINS" ∅ .nil (scriptureElement "Is 1" .nil)) second
  .element "SAINT" ∅ first .nil

def entangledRecord : Biography where
  services := [
    ⟨.vespers, some [⟨none, none, "Is 2", none⟩]⟩,
    ⟨.matins, none⟩,
    ⟨.vespers, some [⟨none, none, "Is 2", none⟩]⟩
  ]

-- The first scripture is lost, and the second one is read in both services.
theorem services_entangled :
    (biography entangled ∅).1 = .ok entangledRecord ∧
      Markup.read entangled = .ok entangledForest.events ∧
      remains ∅ [] entangledForest = (entangledForest.events, none) ∧
      entangledRecord.services ≠ ownServices (stations entangledForest) ∧
      ownServices (stations entangledForest) = [
        ⟨.vespers, some [⟨none, none, "Is 1", none⟩]⟩,
        ⟨.matins, none⟩,
        ⟨.vespers, some [⟨none, none, "Is 2", none⟩]⟩
      ] := by
  refine ⟨?biography, ?read, by decide +kernel, by decide +kernel, by decide +kernel⟩
  all_goals exact toOption_eq_some_iff.mp (by decide +kernel)

end Ordo.Document
