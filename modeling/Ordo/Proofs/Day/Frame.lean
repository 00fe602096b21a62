import Mathlib.Data.List.Forall2
import Ordo.Proofs.Day.Transfer

namespace Ordo

theorem map_eq_of_forall₂ {α β : Type} {f : α → β} {as as' : List α}
    (h : List.Forall₂ (fun a a' => f a' = f a) as as') : as'.map f = as.map f := by
  induction h
  case nil          => rfl
  case cons ha _ hi => rw [List.map_cons, List.map_cons, ha, hi]

-- A service that differs in nothing but its readings, and only if it is a liturgy that has some.
structure Service.Frame (s s' : Service) : Prop where
  office : s'.office = s.office
  others : ¬(s.office = .liturgy ∧ s.readings.isSome) → s' = s

theorem Service.Frame.refl (s : Service) : s.Frame s where
  office   := rfl
  others _ := rfl

-- A commemoration that differs in nothing but the readings of its services, and only if it stands
-- for the lessons of the day.
structure Commemoration.Frame (c c' : Commemoration) : Prop where
  fields   : c' = { c with services := c'.services }
  services : Option.Rel (List.Forall₂ Service.Frame) c.services c'.services
  others   : ¬Day.StandsForLessons c → c' = c

-- The services of a commemoration without what is read at them.
def Commemoration.offices (c : Commemoration) : Option (List Office) :=
  c.services.map (·.map (·.office))

namespace Commemoration.Frame

variable {c c' : Commemoration}

theorem refl (c : Commemoration) : c.Frame c where
  fields   := rfl
  others _ := rfl
  services := by
    cases c.services
    case none => exact .none
    case some => exact .some (List.forall₂_same.mpr fun s _ => .refl s)

theorem offices_eq (h : c.Frame c') : c'.offices = c.offices := by
  have hs := h.services
  unfold offices
  generalize c.services = ss, c'.services = ss' at hs
  cases hs
  case none => rfl
  case some hs => exact congrArg some (map_eq_of_forall₂ (hs.imp fun _ _ => Service.Frame.office))

end Commemoration.Frame

namespace Day

namespace Transfer

variable {t : Transfer} {w w' : Borrowed}

-- The relation of one step of a loop holds between the lists before and behind the loop.
theorem forall₂_of_thread {α : Type} {f : α → Borrowed → Resolved (α × Borrowed)}
    {R : α → α → Prop} {as as' : List α}
    (hf : ∀ {a a' w w'}, (f a w).result = .ok (a', w') → R a a')
    (h : (thread f as w).result = .ok (as', w')) : List.Forall₂ R as as' := by
  induction as generalizing w as'
  case nil =>
    cases h
    exact .nil
  case cons a as hi =>
    obtain ⟨⟨a', w₁⟩, ha, h⟩ := Logged.bind_eq_ok_iff.mp h
    obtain ⟨⟨as₁, w₂⟩, has, h⟩ := Logged.bind_eq_ok_iff.mp h
    cases h
    exact .cons (hf ha) (hi has)

theorem office_of_service {cid : String} {s s' : Service}
    (h : (t.service cid s w).result = .ok (s', w')) : s'.office = s.office := by
  obtain ⟨disabled, _, h⟩ := Logged.bind_eq_ok_iff.mp h
  cases disabled
  case true =>
    cases h
    rfl
  obtain ⟨suppressed, _, h⟩ := Logged.bind_eq_ok_iff.mp h
  cases suppressed
  case true =>
    cases h
    rfl
  case false =>
    obtain ⟨_, _, h⟩ := Logged.bind_eq_ok_iff.mp h
    cases h
    rfl

theorem frame_of_services {cid : String} {ss ss' : List Service}
    (h : (t.services cid ss w).result = .ok (ss', w')) : List.Forall₂ Service.Frame ss ss' := by
  rw [services_eq_thread] at h
  refine forall₂_of_thread (fun {s s' _ _} h => ?_) h
  split at h
  case isTrue hs =>
    exact ⟨office_of_service h, fun hn => absurd (isTransferable_iff.mp hs) hn⟩
  case isFalse =>
    cases h
    exact .refl s

theorem frame_of_commemoration {c c' : Commemoration}
    (h : (t.commemoration c w).result = .ok (c', w')) : c.Frame c' := by
  unfold commemoration at h
  split at h
  case h_1 ss hl hs =>
    obtain ⟨⟨ss', _⟩, hss, h⟩ := Logged.bind_eq_ok_iff.mp h
    cases h
    refine ⟨rfl, ?_, fun hn => absurd (isLesson_iff.mp hl) hn⟩
    rw [hs]
    exact .some (frame_of_services hss)
  case h_2 =>
    cases h
    exact .refl c

end Transfer

-- A transfer that succeeds gives the day with the same commemorations in the same order, and each
-- of them with the same services.
theorem applyTransfer_frame {l : Library} {d d' : Day} {rank : Int}
    (h : (applyTransfer l d rank).result = .ok d') :
    d'.date = d.date ∧ d'.tone = d.tone ∧ d'.rank = d.rank ∧ d'.fastingCode = d.fastingCode ∧
      d'.commands = d.commands ∧
      List.Forall₂ Commemoration.Frame d.commemorations d'.commemorations ∧
      d'.commemorations.map (·.offices) = d.commemorations.map (·.offices) := by
  obtain ⟨⟨cs, w⟩, hcs, h⟩ := Logged.bind_eq_ok_iff.mp h
  rw [Transfer.commemorations_eq_thread] at hcs
  have hf : List.Forall₂ Commemoration.Frame d.commemorations cs :=
    Transfer.forall₂_of_thread (fun h => Transfer.frame_of_commemoration h) hcs
  cases h
  have ho := map_eq_of_forall₂ (hf.imp fun _ _ => Commemoration.Frame.offices_eq)
  exact ⟨rfl, rfl, rfl, rfl, rfl, hf, ho⟩

-- Only one of the four services is changed: the lesson's liturgy that has readings.
def crowdedTuesday : Day :=
  let read : List Reading := [⟨none, none, "Lk 24.12-35", none⟩]
  { brightTuesday with
    commemorations := [
      {
        cid      := " +9003"
        cycle    := .movable
        services := some [⟨.matins, some read⟩, ⟨.liturgy, none⟩, ⟨.liturgy, some read⟩]
      },
      { cid := "9003", cycle := .fixed, services := some [⟨.liturgy, some read⟩] }
    ] }

theorem applyTransfer_crowdedTuesday :
    ∃ d', (applyTransfer brightWeek crowdedTuesday 0).result = .ok d' ∧ d' ≠ crowdedTuesday ∧
      d'.commands = crowdedTuesday.commands ∧
      List.Forall₂ Commemoration.Frame crowdedTuesday.commemorations d'.commemorations ∧
      d'.commemorations.map (·.offices) = crowdedTuesday.commemorations.map (·.offices) := by
  let o := Outcome.extended [] [⟨none, none, "Jn 1.18-28", none⟩]
  have h : (applyTransfer brightWeek crowdedTuesday 0).result = .ok (o.onDay crowdedTuesday) :=
    toOption_eq_some_iff.mp (by decide +kernel)
  obtain ⟨_, _, _, _, hc, hf, ho⟩ := applyTransfer_frame h
  exact ⟨_, h, by decide +kernel, hc, hf, ho⟩

end Day

end Ordo
