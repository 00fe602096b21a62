import Mathlib.Data.List.Forall2
import Ordo.Proofs.Document.Shape

namespace Ordo.Document

open Markup (Element Forest elements)

-- A check on an element by itself.
inductive Check
  | tagIn (tags : List String)
  -- An element with this tag has the attribute.
  | has (tag name : String)
  -- No element has the attribute.
  | lacks (name : String)
  -- The formula in the attribute has a value, if an element with this tag has the attribute.
  | evaluates (tag name : String)

-- The error of a check that an element does not pass.
def Check.fault? (b : Bindings) (e : Element) : Check → Option Error
  | tagIn tags => if e.tag ∈ tags then none else some (.unexpectedTag e.tag tags)
  | has tag name =>
    if e.tag = tag ∧ e.attributes.get? name = none then some (.missingAttribute tag name) else none
  | lacks name =>
    if e.attributes.get? name = none then none else some (.unexpectedAttribute e.tag name)
  | evaluates tag name =>
    if e.tag = tag then
      (e.attributes.get? name).bind fun s => (errorOf? (evaluate s b)).map .formula
    else none

namespace Kind

-- The checks on each element, in the order in which they are made.
def checks : Kind → List Check
  | cycle _  => [.tagIn cycleTags, .has "SAINT" "CId", .evaluates "SAINT" "Tone"]
  | fasting  => [.tagIn fastingTags, .lacks "Tone", .has "RULE" "Case"]
  | commands => [.tagIn commandTags, .has "COMMAND" "Name", .has "COMMAND" "Value"]

-- The error of the first check that an element does not pass.
def fault? (b : Bindings) (e : Element) (k : Kind) : Option Error :=
  k.checks.findSome? (·.fault? b e)

-- The tag of the elements that give a record each.
def recordTag : Kind → String
  | cycle _  => "SAINT"
  | fasting  => "RULE"
  | commands => "COMMAND"

def Record : Kind → Type
  | cycle _  => Commemoration
  | fasting  => String
  | commands => Command

def parse (source : String) (b : Bindings) : (k : Kind) → Except Error (List k.Record)
  | cycle c  => Document.commemorations c source b
  | fasting  => fastingCodes source b
  | commands => Document.commands source b

def read (b : Bindings) (e : Element) : (k : Kind) → Except Error (Option k.Record)
  | cycle c  => readSaint c b e
  | fasting  => readRule e
  | commands => readCommand e

-- Whether a record is that of an element.
def Describes (b : Bindings) (e : Element) : (k : Kind) → k.Record → Prop
  | cycle c, (r : Commemoration) => ∃ cid rank,
    e.attributes.get? "CId" = some cid ∧
      (e.attributes.get? "Tone").map (evaluate · b) = rank.map .ok ∧
      r = { cid, cycle := c, menologion := (e.attributes.get? "Src").getD "", rank }
  | fasting, (r : String) => e.attributes.get? "Case" = some r
  | commands, (r : Command) =>
    e.attributes.get? "Name" = some r.name ∧ e.attributes.get? "Value" = some r.value ∧
      e.attributes.get? "Comment" = r.comment

variable {k : Kind} {source : String} {b : Bindings} {e : Element} {es : List Element}

theorem parse_eq : k.parse source b = records (k.read b) source b := by
  cases k <;> rfl

section

variable {α β : Type} {tags : List String} {tag name : String} {c : Check} {cs : List Check}

theorem errorOf?_expectTag : errorOf? (expectTag tags e) = (Check.tagIn tags).fault? b e := by
  rw [expectTag, Check.fault?]
  split
  case isTrue  => rfl
  case isFalse => rfl

theorem errorOf?_required (h : e.tag = tag) :
    errorOf? (required e name) = (Check.has tag name).fault? b e := by
  rw [required, Check.fault?]
  split
  case h_1 hs =>
    rw [hs, if_neg (by simp)]
    rfl
  case h_2 hn =>
    rw [if_pos ⟨h, hn⟩, h]
    rfl

theorem errorOf?_mapM_evaluate (h : e.tag = tag) :
    errorOf? ((e.attributes.get? name).mapM fun s => (evaluate s b).mapError Error.formula) =
      (Check.evaluates tag name).fault? b e := by
  rw [Check.fault?, if_pos h]
  cases e.attributes.get? name
  case none => rfl
  case some s =>
    change errorOf? (some <$> (evaluate s b).mapError Error.formula) =
      (errorOf? (evaluate s b)).map .formula
    cases evaluate s b
    case error => rfl
    case ok    => rfl

-- A step of the reading is a check, and the further steps make the further checks.
theorem errorOf?_bind {x : Except Error α} {f : α → Except Error β}
    (hx : errorOf? x = c.fault? b e)
    (hf : ∀ a, errorOf? (f a) = cs.findSome? (·.fault? b e)) :
    errorOf? (x >>= f) = (c :: cs).findSome? (·.fault? b e) := by
  rw [List.findSome?_cons, ← hx]
  cases x
  case error => rfl
  case ok a  => exact hf a

theorem errorOf?_map {x : Except Error α} {f : α → β} (hx : errorOf? x = c.fault? b e) :
    errorOf? (f <$> x) = [c].findSome? (·.fault? b e) := by
  rw [List.findSome?_singleton, ← hx]
  cases x
  case error => rfl
  case ok    => rfl

theorem errorOf?_pure {a : α} (h : ∀ c ∈ cs, c.fault? b e = none) :
    errorOf? (pure a : Except Error α) = cs.findSome? (·.fault? b e) :=
  (List.findSome?_eq_none_iff.mpr h).symm

-- The checks on one tag say nothing about the elements with another one.
theorem fault?_of_tag_ne (h : e.tag ≠ tag) :
    (Check.has tag name).fault? b e = none ∧ (Check.evaluates tag name).fault? b e = none :=
  ⟨if_neg fun hh => h hh.1, if_neg h⟩

theorem errorOf?_lacks {x : Except Error α} (hx : errorOf? x = cs.findSome? (·.fault? b e)) :
    errorOf? (if e.attributes.contains name then
      throw (.unexpectedAttribute e.tag name) >>= fun (_ : Unit) => x else x) =
      (Check.lacks name :: cs).findSome? (·.fault? b e) := by
  rw [List.findSome?_cons, Check.fault?, ← hx, Dictionary.contains]
  cases e.attributes.get? name
  case none => rfl
  case some => rfl

theorem errorOf?_read : errorOf? (k.read b e) = k.fault? b e := by
  cases k
  case cycle c =>
    refine errorOf?_bind errorOf?_expectTag fun _ => ?_
    split
    case isTrue hs  =>
      refine errorOf?_bind (errorOf?_required hs) fun _ => ?_
      exact errorOf?_bind (errorOf?_mapM_evaluate hs) fun _ => rfl
    case isFalse hs => exact errorOf?_pure (by simp [fault?_of_tag_ne hs])
  case fasting =>
    refine errorOf?_bind errorOf?_expectTag fun _ => ?_
    refine errorOf?_lacks ?_
    split
    case isTrue hs  => exact errorOf?_map (errorOf?_required hs)
    case isFalse hs => exact errorOf?_pure (by simp [fault?_of_tag_ne hs])
  case commands =>
    refine errorOf?_bind errorOf?_expectTag fun _ => ?_
    split
    case isTrue hs  =>
      refine errorOf?_bind (errorOf?_required hs) fun _ => ?_
      exact errorOf?_bind (errorOf?_required hs) fun _ => rfl
    case isFalse hs => exact errorOf?_pure (by simp [fault?_of_tag_ne hs])

end

section

theorem map_of_mapM_evaluate {o : Option String} {rank : Option Value}
    (h : (o.mapM fun s => (evaluate s b).mapError Error.formula) = .ok rank) :
    o.map (evaluate · b) = rank.map .ok := by
  cases o
  case none =>
    cases h
    rfl
  case some s =>
    obtain ⟨v, hv, rfl⟩ := map_eq_ok_iff.mp h
    exact congrArg some (mapError_eq_ok_iff.mp hv)

theorem of_lacks_eq_ok {α : Type} {name : String} {x : Except Error α} {a : α}
    (h : (if e.attributes.contains name then
      throw (.unexpectedAttribute e.tag name) >>= fun (_ : Unit) => x else x) = .ok a) :
    x = .ok a := by
  split at h
  case isTrue  => cases h
  case isFalse => exact h

theorem describes_of_read {r : Option k.Record} (h : k.read b e = .ok r) :
    if e.tag = k.recordTag then ∃ a, r = some a ∧ k.Describes b e a else r = none := by
  cases k
  all_goals
    obtain ⟨_, _, h⟩ := bind_eq_ok_iff.mp h
    rw [recordTag]
  case' fasting => replace h := of_lacks_eq_ok h
  all_goals
    split at h
    case' isFalse hs =>
      cases h
      rw [if_neg hs]
      rfl
    case' isTrue hs => rw [if_pos hs]
  case cycle.isTrue =>
    obtain ⟨cid, hc, h⟩ := bind_eq_ok_iff.mp h
    obtain ⟨rank, ht, h⟩ := bind_eq_ok_iff.mp h
    cases h
    exact ⟨_, rfl, cid, rank, required_eq_ok_iff.mp hc, map_of_mapM_evaluate ht, rfl⟩
  case fasting.isTrue =>
    obtain ⟨code, hc, rfl⟩ := map_eq_ok_iff.mp h
    exact ⟨code, rfl, required_eq_ok_iff.mp hc⟩
  case commands.isTrue =>
    obtain ⟨name, hn, h⟩ := bind_eq_ok_iff.mp h
    obtain ⟨value, hv, h⟩ := bind_eq_ok_iff.mp h
    cases h
    exact ⟨_, rfl, required_eq_ok_iff.mp hn, required_eq_ok_iff.mp hv, rfl⟩

theorem Describes.unique {r r' : k.Record} (h : k.Describes b e r) (h' : k.Describes b e r') :
    r = r' := by
  cases k
  case cycle =>
    obtain ⟨cid, rank, hc, hr, rfl⟩ := h
    obtain ⟨cid', rank', hc', hr', rfl⟩ := h'
    cases hc.symm.trans hc'
    rw [Option.map_injective (fun _ _ => Except.ok.inj) (hr.symm.trans hr')]
  case fasting => exact Option.some.inj (Eq.trans (Eq.symm h) h')
  case commands =>
    obtain ⟨name, value, comment⟩ := r
    obtain ⟨name', value', comment'⟩ := r'
    obtain ⟨hn, hv, hc⟩ := h
    obtain ⟨hn', hv', hc'⟩ := h'
    cases hn.symm.trans hn'
    cases hv.symm.trans hv'
    cases hc.symm.trans hc'
    rfl

end

section

theorem fault?_eq_none_iff : k.fault? b e = none ↔ ∀ c ∈ k.checks, c.fault? b e = none := by
  rw [fault?, List.findSome?_eq_none_iff]

theorem describes_of_mapM {rs : List (Option k.Record)} (h : es.mapM (k.read b ·) = .ok rs) :
    List.Forall₂ (k.Describes b) (es.filter (·.tag = k.recordTag)) (rs.filterMap id) := by
  induction es generalizing rs
  case nil =>
    cases h
    exact .nil
  case cons e es hi =>
    obtain ⟨r, rs, he, hes, rfl⟩ := mapM_cons_eq_ok_iff.mp h
    have hd := describes_of_read he
    split at hd
    case isTrue ht =>
      obtain ⟨a, rfl, hd⟩ := hd
      rw [List.filter_cons_of_pos (by simpa using ht)]
      exact .cons hd (hi hes)
    case isFalse ht =>
      subst hd
      rw [List.filter_cons_of_neg (by simpa using ht), List.filterMap_cons_none rfl]
      exact hi hes

theorem mapM_read_eq_ok_iff {rs : List k.Record} :
    (∃ os, es.mapM (k.read b ·) = .ok os ∧ os.filterMap id = rs) ↔
      (∀ e ∈ es, ∀ c ∈ k.checks, c.fault? b e = none) ∧
        List.Forall₂ (k.Describes b) (es.filter (·.tag = k.recordTag)) rs := by
  have hs : (∃ os, es.mapM (k.read b ·) = .ok os) ↔
      ∀ e ∈ es, ∀ c ∈ k.checks, c.fault? b e = none := by
    rw [exists_mapM_eq_ok_iff]
    simp only [← errorOf?_eq_none_iff, errorOf?_read, fault?_eq_none_iff]
  constructor
  case mp =>
    rintro ⟨os, h, rfl⟩
    exact ⟨hs.mp ⟨os, h⟩, describes_of_mapM h⟩
  case mpr =>
    rintro ⟨hf, hd⟩
    obtain ⟨os, h⟩ := hs.mpr hf
    have hu : Relator.RightUnique (k.Describes b) := fun _ _ _ => Describes.unique
    exact ⟨os, h, hu.forall₂ (describes_of_mapM h) hd⟩

theorem survivors_eq_error_iff {err : Error} : survivors source b = .error err ↔
    (∃ e, Markup.read source = .error e ∧ err = .markup e) ∨
      ∃ t : Forest, Markup.read source = .ok t.events ∧ ∃ es f, t.Fails b es f ∧ err = .formula f := by
  rw [survivors, bind_eq_error_iff, mapError_eq_error_iff]
  refine or_congr ?_ ?_
  case refine_1 => simp only [eq_comm]
  case refine_2 =>
    constructor
    case mp =>
      rintro ⟨events, hr, h⟩
      have hr := mapError_eq_ok_iff.mp hr
      obtain ⟨t, rfl⟩ := Markup.exists_forest_of_read hr
      split at h
      case h_1 => cases h
      case h_2 es f hp =>
        cases h
        exact ⟨t, hr, es, f, Markup.prune_eq_some_iff.mp hp, rfl⟩
    case mpr =>
      rintro ⟨t, hr, es, f, hf, rfl⟩
      refine ⟨t.events, mapError_eq_ok_iff.mpr hr, ?_⟩
      rw [Markup.prune_of_fails hf]
      rfl

theorem parse_eq_error_iff {err : Error} : k.parse source b = .error err ↔
    survivors source b = .error err ∨
      ∃ es, survivors source b = .ok es ∧ es.findSome? (k.fault? b ·) = some err := by
  have hf : (fun e => k.fault? b e) = fun e => errorOf? (k.read b e) :=
    funext fun _ => errorOf?_read.symm
  rw [parse_eq, records, bind_eq_error_iff, hf]
  refine or_congr_right (exists_congr fun es => and_congr_right fun _ => ?_)
  rw [← errorOf?_mapM, errorOf?_eq_some_iff, bind_eq_error_iff]
  exact or_iff_left (by rintro ⟨_, _, h⟩; cases h)

theorem parse_eq_ok_iff {rs : List k.Record} : k.parse source b = .ok rs ↔
    ∃ es, survivors source b = .ok es ∧ (∀ e ∈ es, ∀ c ∈ k.checks, c.fault? b e = none) ∧
        List.Forall₂ (k.Describes b) (es.filter (·.tag = k.recordTag)) rs := by
  simp only [parse_eq, records_eq_ok_iff, exists_and_left, mapM_read_eq_ok_iff]

theorem exists_parse_eq_ok_iff : (∃ rs, k.parse source b = .ok rs) ↔
    ∃ es, survivors source b = .ok es ∧ ∀ e ∈ es, ∀ c ∈ k.checks, c.fault? b e = none := by
  constructor
  case mp =>
    rintro ⟨rs, h⟩
    obtain ⟨es, hs, hf, -⟩ := parse_eq_ok_iff.mp h
    exact ⟨es, hs, hf⟩
  case mpr =>
    rintro ⟨es, hs, hf⟩
    rcases hp : k.parse source b with err | rs
    case ok => exact ⟨rs, rfl⟩
    case error =>
      rcases parse_eq_error_iff.mp hp with he | ⟨es', hs', he⟩
      case inl => cases hs.symm.trans he
      case inr =>
        cases hs.symm.trans hs'
        obtain ⟨e, hm, he⟩ := List.exists_of_findSome?_eq_some he
        cases (fault?_eq_none_iff.mpr (hf e hm)).symm.trans he

end

-- Such a document is read if it is markup, if all guards that pruning comes to have values, and if
-- what remains passes its checks. Each of the elements that give records gives one then. Otherwise
-- the error is that of the markup, or of the first guard without a value wherever it stands, or of
-- the first check that the first faulty one of the remaining elements does not pass.
theorem parse_exact (k : Kind) (source : String) (b : Bindings) :
    (∀ rs, k.parse source b = .ok rs ↔ ∃ t u : Forest,
      Markup.read source = .ok t.events ∧ t.prune b = .ok u ∧
        (∀ e ∈ elements u.events, ∀ c ∈ k.checks, c.fault? b e = none) ∧
        List.Forall₂ (k.Describes b) ((elements u.events).filter (·.tag = k.recordTag)) rs) ∧
    ((∃ rs, k.parse source b = .ok rs) ↔ ∃ t u : Forest,
      Markup.read source = .ok t.events ∧ t.prune b = .ok u ∧
        ∀ e ∈ elements u.events, ∀ c ∈ k.checks, c.fault? b e = none) ∧
    (∀ err, k.parse source b = .error err ↔
      (∃ e, Markup.read source = .error e ∧ err = .markup e) ∨
      ∃ t : Forest, Markup.read source = .ok t.events ∧
        ((∃ es f, t.Fails b es f ∧ err = .formula f) ∨
          ∃ u, t.prune b = .ok u ∧ (elements u.events).findSome? (k.fault? b ·) = some err)) := by
  have hs {P : List Element → Prop} : (∃ es, survivors source b = .ok es ∧ P es) ↔
      ∃ t u : Forest, Markup.read source = .ok t.events ∧ t.prune b = .ok u ∧
        P (elements u.events) := by
    simp only [survivors_eq_ok_iff_forest]
    constructor
    case mp =>
      rintro ⟨_, ⟨t, u, hr, hu, rfl⟩, hp⟩
      exact ⟨t, u, hr, hu, hp⟩
    case mpr =>
      rintro ⟨t, u, hr, hu, hp⟩
      exact ⟨_, ⟨t, u, hr, hu, rfl⟩, hp⟩
  refine ⟨fun rs => ?_, ?_, fun err => ?_⟩
  case refine_1 => rw [parse_eq_ok_iff, hs]
  case refine_2 => rw [exists_parse_eq_ok_iff, hs]
  case refine_3 =>
    rw [parse_eq_error_iff, survivors_eq_error_iff, hs, or_assoc]
    simp only [and_or_left, exists_or, exists_and_left]

-- A rule in the document of a cycle, ahead of a saint with the guard `guard`.
def misfit (guard : String) : String :=
  "<DAY><RULE/><SAINT CId='1' Cmd='" ++ guard ++ "'/></DAY>"

def misfitForest (guard : String) : Forest :=
  .element "DAY" ∅ (.element "RULE" ∅ .nil
    (.element "SAINT" (.ofList [("CId", "1"), ("Cmd", guard)]) .nil .nil)) .nil

-- A guard without a value comes before the faulty element that stands ahead of it.
theorem parse_exact_misfit :
    let k : Kind := cycle .movable
    (misfitForest "x").Fails ∅ [.enter "DAY" ∅, .enter "RULE" ∅, .exit "RULE"] (.unbound "x" "x") ∧
      k.parse (misfit "x") ∅ = .error (.formula (.unbound "x" "x")) ∧
      (misfitForest "1").prune ∅ = .ok (misfitForest "1") ∧
      k.parse (misfit "1") ∅ = .error (.unexpectedTag "RULE" cycleTags) := by
  intro k
  have hr : Markup.read (misfit "x") = .ok (misfitForest "x").events :=
    toOption_eq_some_iff.mp (by decide +kernel)
  have hf : (misfitForest "x").Fails ∅ [.enter "DAY" ∅, .enter "RULE" ∅, .exit "RULE"]
      (.unbound "x" "x") := Markup.prune_eq_some_iff.mp (by decide +kernel)
  have hr' : Markup.read (misfit "1") = .ok (misfitForest "1").events :=
    toOption_eq_some_iff.mp (by decide +kernel)
  have hp : (misfitForest "1").prune ∅ = .ok (misfitForest "1") :=
    toOption_eq_some_iff.mp (by decide +kernel)
  refine ⟨hf, ?_, hp, ?_⟩
  · exact ((parse_exact k _ _).2.2 _).mpr (.inr ⟨_, hr, .inl ⟨_, _, hf, rfl⟩⟩)
  · exact ((parse_exact k _ _).2.2 _).mpr (.inr ⟨_, hr', .inr ⟨_, hp, by decide +kernel⟩⟩)

end Kind

end Ordo.Document
