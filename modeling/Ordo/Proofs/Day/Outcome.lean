import Ordo.Day.Transfer
import Ordo.Proofs.Command

namespace Ordo.Day

-- What a transfer makes of the readings of a liturgy.
inductive Outcome
  | kept
  | dropped
  | extended (after before : List Reading)
deriving DecidableEq

def StandsForLessons (c : Commemoration) : Prop :=
  c.cycle = .movable ∧
    ∃ n, c.cidNumber? = some n ∧ (9000 ≤ n ∧ n ≤ 9315 ∨ 9849 ≤ n ∧ n ≤ 9900)

theorem isLesson_iff {c : Commemoration} : isLesson c ↔ StandsForLessons c := by
  simp [isLesson, StandsForLessons, Commemoration.isMovable, lessonRanges, Option.any_eq_true]

instance : DecidablePred StandsForLessons :=
  fun _ => decidable_of_iff _ isLesson_iff

theorem isTransferable_iff {s : Service} :
    isTransferable s ↔ s.office = .liturgy ∧ s.readings.isSome := by
  simp [isTransferable]

-- A day can only be changed by a transfer if it has a liturgy of this kind.
def HasLessons (d : Day) : Prop :=
  ∃ c ∈ d.commemorations, StandsForLessons c ∧
    ∃ s ∈ c.allServices, s.office = .liturgy ∧ s.readings.isSome

namespace Outcome

def onReadings : Outcome → List Reading → Option (List Reading)
  | kept,                  rs => some rs
  | dropped,               _  => none
  | extended after before, rs => some (rs ++ after ++ before)

def onService (o : Outcome) (s : Service) : Service :=
  if s.office = .liturgy then { s with readings := s.readings.bind o.onReadings } else s

def onCommemoration (o : Outcome) (c : Commemoration) : Commemoration :=
  if StandsForLessons c then { c with services := c.services.map (·.map o.onService) } else c

def onDay (o : Outcome) (d : Day) : Day :=
  { d with commemorations := d.commemorations.map o.onCommemoration }

theorem onService_of_not_transferable {o : Outcome} {s : Service} (h : ¬isTransferable s) :
    o.onService s = s := by
  rcases s with ⟨office, _ | rs⟩
  case none => simp [onService]
  case some =>
    have : office ≠ .liturgy := by simpa [isTransferable] using h
    simp [onService, this]

theorem onCommemoration_of_no_services {o : Outcome} {c : Commemoration}
    (h : StandsForLessons c → c.services = none) : o.onCommemoration c = c := by
  unfold onCommemoration
  split
  case isFalse   => rfl
  case isTrue hl =>
    rcases c with ⟨⟩
    cases h hl
    rfl

end Outcome

-- A service contributes to what its day lends.
def Contributes (c : Commemoration) (s : Service) : Prop :=
  c.cycle = .movable ∧ s.office = .liturgy ∧ s.readings.getD [] ≠ []

instance (c : Commemoration) (s : Service) : Decidable (Contributes c s) :=
  inferInstanceAs (Decidable (_ ∧ _))

def contribution (c : Commemoration) (s : Service) : List Reading :=
  if Contributes c s then s.readings.getD [] else []

-- All that a day is able to lend, in the order of its commemorations and of their services.
def contributions (d : Day) : List Reading :=
  d.commemorations.flatMap fun c => c.allServices.flatMap (contribution c)

theorem contribution_eq_nil_iff {c : Commemoration} {s : Service} :
    contribution c s = [] ↔ ¬Contributes c s := by
  rw [contribution]
  split
  case isTrue h  => exact iff_of_false h.2.2 (not_not_intro h)
  case isFalse h => exact iff_of_true rfl h

theorem contribution_of_movable_liturgy {c : Commemoration} {s : Service} (hc : c.cycle = .movable)
    (hs : s.office = .liturgy) : contribution c s = s.readings.getD [] := by
  by_cases hr : s.readings.getD [] = []
  case pos => rw [hr, contribution_eq_nil_iff.mpr fun h => h.2.2 hr]
  case neg => rw [contribution, if_pos ⟨hc, hs, hr⟩]

-- Elements that give nothing may as well be left out.
theorem flatMap_filter {α β : Type} {p : α → Bool} {f g : α → List β} {as : List α}
    (hp : ∀ a, p a → f a = g a) (hn : ∀ a, ¬p a → g a = []) :
    (as.filter p).flatMap f = as.flatMap g := by
  induction as
  case nil => rfl
  case cons a as hi =>
    rw [List.flatMap_cons, ← hi]
    by_cases h : p a
    case pos => rw [List.filter_cons_of_pos h, List.flatMap_cons, hp a h]
    case neg => rw [List.filter_cons_of_neg h, hn a h, List.nil_append]

theorem movableReadings_eq (d : Day) : d.movableReadings = contributions d := by
  rw [movableReadings, contributions, movable, List.filter_flatMap, List.flatMap_assoc]
  refine flatMap_filter (fun c hc => flatMap_filter (fun s hs => ?movable) fun s hs => ?other)
    fun c hc => ?fixed
  case movable =>
    exact (contribution_of_movable_liturgy (of_decide_eq_true hc) (of_decide_eq_true hs)).symm
  case other =>
    exact contribution_eq_nil_iff.mpr fun h => hs (decide_eq_true h.2.1)
  case fixed =>
    rw [List.flatMap_eq_nil_iff]
    exact fun s _ => contribution_eq_nil_iff.mpr fun h => hc (decide_eq_true h.1)

-- What the day of a date lends. The commands are those of the day that asks, but it is the facts
-- and the rank of the day which is asked that they are evaluated with.
inductive Lends (l : Library) (cs : List Command) (date : Date) : List Reading → Prop
  | readings {d : Day} :
    (resolve l date).result = .ok d →
    Command.SomeHolds cs "Class3Transfers" ((DayFacts.ofDate date).bindingsWithRank d.rank) →
    Lends l cs date (contributions d)
  | nothing {d : Day} :
    (resolve l date).result = .ok d →
    ¬Command.SomeHolds cs "Class3Transfers" ((DayFacts.ofDate date).bindingsWithRank d.rank) →
    Lends l cs date []

theorem Lends.deterministic {l : Library} {cs : List Command} {date : Date} {rs₁ rs₂ : List Reading}
    (h₁ : Lends l cs date rs₁) (h₂ : Lends l cs date rs₂) : rs₁ = rs₂ := by
  cases h₁ <;> cases h₂
  case readings.readings d₁ r₁ _ d₂ r₂ _ =>
    cases Except.ok.inj (r₁.symm.trans r₂)
    rfl
  case readings.nothing d₁ r₁ h d₂ r₂ n =>
    cases Except.ok.inj (r₁.symm.trans r₂)
    exact absurd h n
  case nothing.readings d₁ r₁ n d₂ r₂ h =>
    cases Except.ok.inj (r₁.symm.trans r₂)
    exact absurd h n
  case nothing.nothing => rfl

namespace Transfer

def ofDay (l : Library) (d : Day) (rank : Int) : Transfer where
  library  := l
  date     := d.date
  commands := d.commands
  bindings := (DayFacts.ofDate d.date).bindingsWithRank rank
  rank     := rank

variable (t : Transfer)

def Disabled : Prop :=
  Command.SomeIsFalse t.commands "Transfer" t.bindings

def Suppressed : Prop :=
  Command.SomeHolds t.commands "Suppress" t.bindings ∨
    Command.SomeHolds t.commands "Class3Transfers" t.bindings

-- The readings that a rule makes the day borrow from the day of another date.
inductive Borrows (rule : String) (date : Date) : List Reading → Prop
  | asked {rs : List Reading} :
    Command.SomeHolds t.commands rule t.bindings → Lends t.library t.commands date rs →
    Borrows rule date rs
  | unasked : ¬Command.SomeHolds t.commands rule t.bindings → Borrows rule date []

inductive Decides : Outcome → Prop
  | kept : t.Disabled → Decides .kept
  | dropped : ¬t.Disabled → t.Suppressed → Decides .dropped
  | extended {after before : List Reading} :
    ¬t.Disabled → ¬t.Suppressed →
    t.Borrows "TransferRulesB" (t.date.addDays 1) after →
    t.Borrows "TransferRulesF" (t.date.addDays (-1)) before →
    Decides (.extended after before)

variable {t}

theorem Borrows.deterministic {rule : String} {date : Date} {rs₁ rs₂ : List Reading} :
    t.Borrows rule date rs₁ → t.Borrows rule date rs₂ → rs₁ = rs₂
  | asked _ h₁, asked _ h₂                       => h₁.deterministic h₂
  | unasked _,  unasked _                        => rfl
  | asked h _,  unasked n | unasked n, asked h _ => absurd h n

theorem Decides.deterministic {o₁ o₂ : Outcome} (h₁ : t.Decides o₁) (h₂ : t.Decides o₂) :
    o₁ = o₂ := by
  cases h₁ <;> cases h₂
  case kept.kept       => rfl
  case dropped.dropped => rfl
  case extended.extended h₁ h₁' _ _ _ _ h₂ h₂' => rw [h₁.deterministic h₂, h₁'.deterministic h₂']
  all_goals contradiction

end Transfer

end Ordo.Day
