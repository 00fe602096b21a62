import Ordo.Document.Flat
import Ordo.Proofs.Result

namespace Ordo.Document

open Markup (Element)

def saints (es : List Element) : List Element :=
  es.filter (·.tag = "SAINT")

-- The commemoration of a saint.
def saintOf (cycle : Cycle) (b : Bindings) (e : Element) : Except Error Commemoration := do
  let cid ← required e "CId"
  let rank ← (e.attributes.get? "Tone").mapM fun tone => (evaluate tone b).mapError .formula
  return { cid, cycle, menologion := (e.attributes.get? "Src").getD "", rank }

-- What stands in the document of a cycle about a commemoration, apart from its rank.
structure Heading where
  cid        : Option String
  cycle      : Cycle
  menologion : String
deriving DecidableEq

def Heading.ofSaint (cycle : Cycle) (e : Element) : Heading where
  cid        := e.attributes.get? "CId"
  cycle      := cycle
  menologion := (e.attributes.get? "Src").getD ""

def Heading.ofCommemoration (c : Commemoration) : Heading where
  cid        := some c.cid
  cycle      := c.cycle
  menologion := c.menologion

variable {α : Type} {cycle : Cycle} {source : String} {b : Bindings} {e : Element}
  {es : List Element} {tags : List String}

theorem records_eq_ok_iff {read : Element → Except Error (Option α)} {as : List α} :
    records read source b = .ok as ↔ ∃ es rs,
      survivors source b = .ok es ∧ es.mapM read = .ok rs ∧ rs.filterMap id = as := by
  constructor
  case mp =>
    intro h
    obtain ⟨es, hes, h⟩ := bind_eq_ok_iff.mp h
    obtain ⟨rs, hrs, h⟩ := bind_eq_ok_iff.mp h
    cases h
    exact ⟨es, rs, hes, hrs, rfl⟩
  case mpr =>
    rintro ⟨es, rs, hes, hrs, rfl⟩
    exact bind_eq_ok_iff.mpr ⟨es, hes, bind_eq_ok_iff.mpr ⟨rs, hrs, rfl⟩⟩

theorem expectTag_eq_ok_iff : expectTag tags e = .ok () ↔ e.tag ∈ tags := by
  rw [expectTag]
  split
  case isTrue h  => simp [h]
  case isFalse h => simp [h]

theorem required_eq_ok_iff {name s : String} :
    required e name = .ok s ↔ e.attributes.get? name = some s := by
  rw [required]
  split
  case h_1 h => simp [h]
  case h_2 h => simp [h]

theorem heading_of_saintOf {c : Commemoration} (h : saintOf cycle b e = .ok c) :
    Heading.ofCommemoration c = .ofSaint cycle e := by
  obtain ⟨cid, hc, h⟩ := bind_eq_ok_iff.mp h
  obtain ⟨rank, _, h⟩ := bind_eq_ok_iff.mp h
  cases h
  rw [Heading.ofSaint, required_eq_ok_iff.mp hc]
  rfl

theorem services_of_saintOf {c : Commemoration} (h : saintOf cycle b e = .ok c) :
    c.services = none := by
  obtain ⟨_, _, h⟩ := bind_eq_ok_iff.mp h
  obtain ⟨_, _, h⟩ := bind_eq_ok_iff.mp h
  cases h
  rfl

theorem tag_of_readSaint {c : Option Commemoration} (h : readSaint cycle b e = .ok c) :
    e.tag ∈ cycleTags := by
  obtain ⟨_, h, _⟩ := bind_eq_ok_iff.mp h
  exact expectTag_eq_ok_iff.mp h

theorem tag_of_readRule {code : Option String} (h : readRule e = .ok code) :
    e.tag ∈ fastingTags := by
  obtain ⟨_, h, _⟩ := bind_eq_ok_iff.mp h
  exact expectTag_eq_ok_iff.mp h

theorem tag_of_readCommand {c : Option Command} (h : readCommand e = .ok c) :
    e.tag ∈ commandTags := by
  obtain ⟨_, h, _⟩ := bind_eq_ok_iff.mp h
  exact expectTag_eq_ok_iff.mp h

theorem readSaint_eq_ok_iff {r : Option Commemoration} :
    readSaint cycle b e = .ok r ↔ e.tag ∈ cycleTags ∧
      if e.tag = "SAINT" then (saintOf cycle b e).map some = .ok r else r = none := by
  by_cases ht : e.tag ∈ cycleTags
  case neg => exact iff_of_false (fun h => ht (tag_of_readSaint h)) fun h => ht h.1
  case pos =>
    rw [readSaint, expectTag_eq_ok_iff.mpr ht, and_iff_right ht]
    by_cases hs : e.tag = "SAINT"
    case neg =>
      simp only [if_neg hs]
      change Except.ok none = .ok r ↔ _
      rw [Except.ok.injEq, eq_comm]
    case pos =>
      simp only [if_pos hs, saintOf]
      change (do let cid ← required e "CId"; _) = _ ↔ _
      cases required e "CId"
      case error => rfl
      case ok =>
        cases (e.attributes.get? "Tone").mapM fun tone => (evaluate tone b).mapError Error.formula
        case error => rfl
        case ok    => rfl

-- Where each element has to be `known`, and the `own` ones give a record each, the records are those
-- of the `own` elements.
theorem mapM_own_eq_ok_iff {read : Element → Except Error (Option α)} {known : Element → Prop}
    {own : Element → Bool} {make : Element → Except Error α}
    (hr : ∀ {e r}, read e = .ok r ↔ known e ∧
      if own e then (make e).map some = .ok r else r = none) {as : List α} :
    (∃ rs, es.mapM read = .ok rs ∧ rs.filterMap id = as) ↔
      (∀ e ∈ es, known e) ∧ (es.filter own).mapM make = .ok as := by
  induction es generalizing as
  case nil => simp [pure, Except.pure]
  case cons e es hi =>
    rw [List.forall_mem_cons]
    constructor
    case mp =>
      rintro ⟨rs, h, rfl⟩
      obtain ⟨r, rs, he, hes, rfl⟩ := mapM_cons_eq_ok_iff.mp h
      obtain ⟨hk, he⟩ := hr.mp he
      obtain ⟨hks, hes⟩ := hi.mp ⟨rs, hes, rfl⟩
      refine ⟨⟨hk, hks⟩, ?_⟩
      split at he
      case isTrue ho =>
        obtain ⟨a, ha, rfl⟩ := map_eq_ok_iff.mp he
        rw [List.filter_cons_of_pos ho]
        exact mapM_cons_eq_ok_iff.mpr ⟨a, _, ha, hes, rfl⟩
      case isFalse ho =>
        cases he
        rw [List.filter_cons_of_neg ho, hes]
        rfl
    case mpr =>
      rintro ⟨⟨hk, hks⟩, h⟩
      by_cases ho : own e
      case pos =>
        rw [List.filter_cons_of_pos ho] at h
        obtain ⟨a, as, ha, has, rfl⟩ := mapM_cons_eq_ok_iff.mp h
        obtain ⟨rs, hes, rfl⟩ := hi.mpr ⟨hks, has⟩
        have he : read e = .ok (some a) :=
          hr.mpr ⟨hk, by rw [if_pos ho]; exact map_eq_ok_iff.mpr ⟨a, ha, rfl⟩⟩
        exact ⟨some a :: rs, mapM_cons_eq_ok_iff.mpr ⟨_, rs, he, hes, rfl⟩, rfl⟩
      case neg =>
        rw [List.filter_cons_of_neg ho] at h
        obtain ⟨rs, hes, rfl⟩ := hi.mpr ⟨hks, h⟩
        have he : read e = .ok none := hr.mpr ⟨hk, by rw [if_neg ho]⟩
        exact ⟨none :: rs, mapM_cons_eq_ok_iff.mpr ⟨_, rs, he, hes, rfl⟩, rfl⟩

-- The document of a cycle is read if all that remains of it is a saint or encloses saints. Each
-- saint then gives a commemoration.
theorem commemorations_eq_ok_iff {cs : List Commemoration} :
    commemorations cycle source b = .ok cs ↔ ∃ es, survivors source b = .ok es ∧
      (∀ e ∈ es, e.tag ∈ cycleTags) ∧ (saints es).mapM (saintOf cycle b) = .ok cs := by
  have hr {e : Element} {r : Option Commemoration} : readSaint cycle b e = .ok r ↔
      e.tag ∈ cycleTags ∧
        if decide (e.tag = "SAINT") then (saintOf cycle b e).map some = .ok r else r = none := by
    simpa only [decide_eq_true_eq] using readSaint_eq_ok_iff
  simp only [commemorations, records_eq_ok_iff, exists_and_left, mapM_own_eq_ok_iff hr, saints]

end Ordo.Document
