import Ordo.Document.Biography
import Ordo.Proofs.Result
import Ordo.Proofs.Text.Trimming

namespace Ordo.Document

open Markup (Element Event)

-- The text of an attribute. An empty one is as good as none.
def given? (e : Element) (name : String) : Option String :=
  match e.attributes.get? name with
  | none   => none
  | some s => if s = "" then none else some s

-- The rank that a service declares. It has none without a `Type`, or with an empty one.
def declaredRank (service : Element) : Option Value :=
  (given? service "Type").map .text

-- The number that guards see of a rank. It is 0 if there is no rank or nothing but blanks, and NaN
-- if the text of the rank is no numeral.
def seenRank : Option Value → Float
  | none             => 0.0
  | some (.truth b)  => if b then 1.0 else 0.0
  | some (.number x) => x
  | some (.text s)   =>
    if Text.isAllBlank s then 0.0 else (Number.ofText? (Text.trim s)).getD Number.nan

-- The bindings of what stands behind a rank.
def seeing (b : Bindings) (rank : Option Value) : Bindings :=
  b.insert "dRank" (.number (seenRank rank))

theorem seeing_seeing (b : Bindings) (rank rank' : Option Value) :
    seeing (seeing b rank) rank' = seeing b rank' := by
  refine Dictionary.eq_of_get?_eq fun n => ?_
  simp only [seeing, Dictionary.get?_insert]
  split
  case isTrue  => rfl
  case isFalse => rfl

theorem get?_seeing (b : Bindings) (rank : Option Value) {n : String} (h : n ≠ "dRank") :
    (seeing b rank).get? n = b.get? n := by
  rw [seeing, Dictionary.get?_insert, if_neg h]

-- The service that an event enters.
def serviceOf? : Event → Option Element
  | .enter tag attributes => if tag = "SERVICE" then some ⟨tag, attributes⟩ else none
  | _                     => none

-- The bindings with the rank of a service, if there is one.
def rankedBy (b : Bindings) : Option Element → Bindings
  | none   => b
  | some e => seeing b (declaredRank e)

theorem rankedBy_rankedBy (b : Bindings) (s s' : Option Element) :
    rankedBy (rankedBy b s) s' = rankedBy b (s'.or s) := by
  cases s'
  case none => rfl
  case some =>
    cases s
    case none => rfl
    case some => exact seeing_seeing b _ _

theorem get?_rankedBy (b : Bindings) (s : Option Element) {n : String} (h : n ≠ "dRank") :
    (rankedBy b s).get? n = b.get? n := by
  cases s
  case none => rfl
  case some => exact get?_seeing b _ h

namespace Walk

variable {w w' : Walk} {b : Bindings} {e : Event}

theorem nonEmpty_eq (e : Element) (name : String) : nonEmpty e name = given? e name := by
  rw [nonEmpty, given?]
  cases e.attributes.get? name
  case none => rfl
  case some s =>
    by_cases hs : s = ""
    case pos => simp [hs]
    case neg => simp [hs, Option.filter]

theorem rankOf_eq (service : Element) : rankOf service = declaredRank service := by
  rw [rankOf, nonEmpty_eq, declaredRank]

theorem rankNumber_eq (rank : Option Value) : rankNumber rank = seenRank rank := by
  rcases rank with _ | _ | _ | s
  case some.text =>
    rw [rankNumber, Value.toNumber, Value.numberOfText, Text.isEmpty_trim, seenRank]
  all_goals rfl

theorem withRank_rankNumber (b : Bindings) (rank : Option Value) :
    b.withRank (rankNumber rank) = seeing b rank := by
  rw [rankNumber_eq, seeing, Bindings.withRank, Bindings.rankName]

-- The step by itself. It is given no bindings because it does not need them.
def read (w : Walk) (e : Event) : Except Error Walk :=
  (w.step e ∅).map (·.1)

theorem step_eq (w : Walk) (e : Event) (b : Bindings) :
    w.step e b = (w.read e).map fun w' => (w', rankedBy b (serviceOf? e)) := by
  cases e
  case exit tag => rfl
  case text s => rfl
  case enter tag attributes =>
    simp only [read, step, enter, serviceOf?]
    split
    case h_3 => split <;> simp [rankedBy, Except.map]
    case h_4 => simp [rankedBy, Except.map, rankOf_eq, withRank_rankNumber]
    case h_5 =>
      rcases w.current with _ | office
      case none => simp [rankedBy, Except.map]
      case some => cases readingOf ⟨"SCRIPTURE", attributes⟩ <;> simp [rankedBy, Except.map]
    case h_7 hs _ _ =>
      rw [if_neg hs]
      split <;> rfl
    all_goals simp [rankedBy, Except.map]

theorem rank_exit (w : Walk) (tag : String) : (w.exit tag).biography.rank = w.biography.rank := by
  rw [exit]
  split
  case isTrue  => rfl
  case isFalse => split <;> rfl

theorem rank_text (w : Walk) (s : String) : (w.text s).biography.rank = w.biography.rank := by
  rw [text]
  split <;> rfl

theorem rank_of_enter {tag : String} {attributes : Markup.Attributes} {b' : Bindings}
    (h : w.enter ⟨tag, attributes⟩ b = .ok (w', b')) :
    w'.biography.rank =
      ((serviceOf? (.enter tag attributes)).map declaredRank).or w.biography.rank := by
  simp only [enter] at h
  simp only [serviceOf?]
  split at h
  case h_3 =>
    split at h
    all_goals
      cases h
      rfl
  case h_4 =>
    cases h
    exact congrArg some (rankOf_eq _)
  case h_5 =>
    rcases hc : w.current with _ | office
    case none =>
      simp only [hc] at h
      cases h
      rfl
    case some =>
      simp only [hc] at h
      obtain ⟨_, _, h⟩ := map_eq_ok_iff.mp h
      cases h
      rfl
  case h_7 hs _ _ =>
    rw [if_neg hs]
    split at h
    all_goals
      cases h
      rfl
  all_goals
    cases h
    rfl

-- A service gives the record its rank, and nothing else does.
theorem rank_of_read (h : w.read e = .ok w') :
    w'.biography.rank = ((serviceOf? e).map declaredRank).or w.biography.rank := by
  obtain ⟨⟨w'', b⟩, hs, rfl⟩ := map_eq_ok_iff.mp h
  cases e
  case enter => exact rank_of_enter hs
  case exit tag =>
    cases hs
    exact w.rank_exit tag
  case text s =>
    cases hs
    exact w.rank_text s

end Walk

end Ordo.Document
