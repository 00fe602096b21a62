import Ordo.Day.Facts
import Ordo.Proofs.Machine.Calendar
import Ordo.Proofs.Paschalion

namespace Ordo.Machine

open Word Calendar

structure Facts where
  weekday  : Unsigned32
  ordinal  : Unsigned32
  nday     : Signed64
  previous : Signed64
  next     : Signed64

structure Facts.Are (x : Facts) (f : DayFacts) : Prop where
  weekday  : x.weekday.Is f.weekday
  ordinal  : x.ordinal.Is f.ordinal
  nday     : x.nday.Is f.nday
  previous : x.previous.Is f.previous
  next     : x.next.Is f.next

def pascha (year : Signed32) : Day :=
  let a := year.emod 4
  let b := year.emod 7
  let c := year.emod 19
  let d := (19 * c + 15) % 30
  let e := (2 * a + 4 * b - d + 34) % 7
  .ofFields ⟨year, ((d + e + 114) / 31).cast, ((d + e + 114) % 31 + 1).cast⟩

def indiction? (year : Signed32) : Option Signed32 :=
  if year < 313 then none else some ((year - 312 + 14) % 15 + 1)

def solarCycle (year : Signed32) : Signed32 :=
  (year + 20 + 27).emod 28 + 1

def lunarCycle (year : Signed32) : Signed32 :=
  (year - 2 + 18).emod 19 + 1

def concurrent (year : Signed32) : Signed32 :=
  let solar := (year + 20).emod 28
  (solar + solar / 4 + 6) % 7 + 1

def foundation (year : Signed32) : Signed32 :=
  let age := (year + 1).emod 19 * 11 % 30
  if age = 0 then 29 else age

def epacta (year : Signed32) : Signed32 :=
  (51 - foundation year) % 30

-- A place in a table has no sign.
def keyOfBoundaries (year : Signed32) : Option String :=
  let place : Unsigned32 := ((pascha year).daysSince (.ofFields ⟨year, 3, 22⟩)).cast
  place.entry Pascha.boundaryKeys

def Day.facts (d : Day) : Facts where
  weekday  := d.weekday
  ordinal  := d.ordinal
  nday     := d.daysSince (pascha d.year)
  previous := d.daysSince (pascha (d.year - 1))
  next     := d.daysSince (pascha (d.year + 1))

-- The whole paschalion of a year is computed.
structure Computes (x : Signed32) (year : Int) : Prop where
  pascha          : (pascha x).Is (Pascha.ofYear year)
  indiction       : (indiction? x).map value? = (Pascha.indiction? year).map some
  solarCycle      : (solarCycle x).Is (Pascha.solarCycle year)
  lunarCycle      : (lunarCycle x).Is (Pascha.lunarCycle year)
  concurrent      : (concurrent x).Is (Pascha.concurrent year)
  foundation      : (foundation x).Is (Pascha.foundation year)
  epacta          : (epacta x).Is (Pascha.epacta year)
  keyOfBoundaries : keyOfBoundaries x = some (Pascha.keyOfBoundaries year)

-- All that the calendars and the paschalion say about a day is computed.
structure Day.Computes (x : Day) (d : Date) : Prop where
  date       : x.Is d
  gregorian  : x.gregorian.Are d.gregorian
  facts      : x.facts.Are (.ofDate d)
  paschalion : Machine.Computes x.year d.year

section

variable {y : Int} (h : -1000001 ≤ y) (h' : y ≤ 1000001)

include h h'

theorem within_ofYear : Within 1000001 (Pascha.ofYear y) := by
  have hb := Pascha.number_ofYear_bounds y
  constructor
  all_goals
    simp only [yearStart_eq] at *
    omega

-- The remainders have no sign, because what the moon takes away is less than what is added.
theorem pascha_hold : pascha (.hold y) = .hold (Pascha.ofYear y) := by
  have hm := Pascha.moon_bounds y
  have hl := Pascha.moon_le y
  have hw := Pascha.wait_bounds y
  let c : Civil := ⟨y, ((Pascha.moon y + Pascha.wait y + 114) / 31).toNat,
    ((Pascha.moon y + Pascha.wait y + 114) % 31 + 1).toNat⟩
  have hcm : (c.month : Int) = (Pascha.moon y + Pascha.wait y + 114) / 31 :=
    Int.toNat_of_nonneg (by omega)
  have hcd : (c.day : Int) = (Pascha.moon y + Pascha.wait y + 114) % 31 + 1 :=
    Int.toNat_of_nonneg (by omega)
  have hc : julian.Has c := by
    refine ⟨by omega, by omega, ?_⟩
    rcases (by omega : c.month = 3 ∧ c.day ≤ 31 ∨ c.month = 4 ∧ c.day ≤ 30) with hd | hd
    all_goals exact hd.1 ▸ hd.2
  have hf : pascha (.hold y) = .ofFields (.hold c) := by
    rw [Fields.hold, hcm, hcd]
    simp only [Pascha.moon, Pascha.wait] at hm hw ⊢
    simp (disch := omega) only [pascha, ofNat_eq, hold_add, hold_sub, hold_mul, hold_emod, hold_div,
      hold_mod, cast_hold, c]
  rw [hf, Day.ofFields_hold hc h h']
  rfl

theorem indiction?_hold : indiction? (.hold y) = (Pascha.indiction? y).map .hold := by
  have hl : (hold y : Signed32) < 313 ↔ y < 313 :=
    hold_lt_iff (by omega) (by omega) (by decide) (by decide)
  by_cases hf : y < 313
  case pos =>
    have hi : Pascha.indiction? y = none := if_pos hf
    rw [indiction?, if_pos (hl.mpr hf), hi, Option.map_none]
  case neg =>
    have hi : Pascha.indiction? y = some ((y - 312 + 14) % 15 + 1) := if_neg hf
    rw [indiction?, if_neg (hl.not.mpr hf), hi, Option.map_some]
    simp (disch := omega) only [ofNat_eq, hold_add, hold_sub, hold_mod]

theorem solarCycle_hold : solarCycle (.hold y) = .hold (Pascha.solarCycle y) := by
  simp (disch := omega) only [solarCycle, ofNat_eq, hold_add, hold_emod]
  rfl

theorem lunarCycle_hold : lunarCycle (.hold y) = .hold (Pascha.lunarCycle y) := by
  simp (disch := omega) only [lunarCycle, ofNat_eq, hold_add, hold_sub, hold_emod]
  rfl

theorem concurrent_hold : concurrent (.hold y) = .hold (Pascha.concurrent y) := by
  simp (disch := omega) only [concurrent, ofNat_eq, hold_add, hold_emod, hold_div, hold_mod]
  rfl

theorem foundation_hold : foundation (.hold y) = .hold (Pascha.foundation y) := by
  simp (disch := omega) only [foundation, ofNat_eq, hold_add, hold_mul, hold_emod, hold_mod,
    hold_eq_iff]
  exact (apply_ite ..).symm

omit h h' in
theorem foundation_bounds (y : Int) : 0 ≤ Pascha.foundation y ∧ Pascha.foundation y ≤ 29 := by
  simp only [Pascha.foundation]
  split <;> omega

theorem epacta_hold : epacta (.hold y) = .hold (Pascha.epacta y) := by
  have hf := foundation_bounds y
  rw [epacta, foundation_hold h h']
  simp (disch := omega) only [ofNat_eq, hold_sub, hold_mod]
  rfl

theorem keyOfBoundaries_hold : keyOfBoundaries (.hold y) = some (Pascha.keyOfBoundaries y) := by
  have hb := Pascha.boundary_bounds y
  have hc : julian.Has ⟨y, 3, 22⟩ := ⟨by simp, by simp [Calendar.daysIn]⟩
  have hf : Day.ofFields ⟨.hold y, 3, 22⟩ = .hold ⟨julian.dayNumber ⟨y, 3, 22⟩⟩ :=
    Day.ofFields_hold hc h h'
  rw [keyOfBoundaries, pascha_hold h h', hf,
    Day.daysSince_hold (within_ofYear h h') (within_dayNumber hc h h')]
  change ((Word.hold (Pascha.boundary y) : Signed64).cast : Unsigned32).entry _ = _
  rw [cast_hold (by omega) (by omega), entry_hold _ hb.1 (by omega) hb.1]
  exact Pascha.getElem?_boundaryKeys y

theorem computes_hold : Computes (.hold y) y where
  pascha := by
    rw [pascha_hold h h']
    exact Day.is_hold (within_ofYear h h')
  indiction := by
    rw [indiction?_hold h h', Option.map_map]
    refine Option.map_congr fun n hn => is_hold_iff.mpr ?_
    obtain ⟨-, hn⟩ := Option.ite_none_left_eq_some.mp hn
    cases hn
    omega
  solarCycle := by
    rw [solarCycle_hold h h', is_hold_iff, Pascha.solarCycle]
    omega
  lunarCycle := by
    rw [lunarCycle_hold h h', is_hold_iff, Pascha.lunarCycle]
    omega
  concurrent := by
    rw [concurrent_hold h h', is_hold_iff, Pascha.concurrent]
    omega
  foundation := by
    have hf := foundation_bounds y
    rw [foundation_hold h h', is_hold_iff]
    omega
  epacta := by
    rw [epacta_hold h h', is_hold_iff, Pascha.epacta]
    omega
  keyOfBoundaries := keyOfBoundaries_hold h h'

theorem is_daysSince_pascha {d : Date} (hd : Within 1000001 d) :
    ((Day.hold d).daysSince (pascha (.hold y))).Is (d.daysSince (Pascha.ofYear y)) := by
  have hp := within_ofYear h h'
  have hn := hd.number_bounds
  have hn' := hp.number_bounds
  rw [pascha_hold h h', Day.daysSince_hold hd hp, is_hold_iff, Date.daysSince]
  omega

end

namespace Day

variable {c : Civil} {d : Date}

theorem ordinal_le (d : Date) : d.ordinal ≤ 366 := by
  by_cases h : d.IsLeapDay
  case pos => exact (Date.ordinal_eq_leapDay_iff.mpr h).le
  case neg => exact (Date.ordinal_lt_leapDay h).le

theorem are_facts_hold (h : Within 1000000 d) : (hold d).facts.Are (.ofDate d) := by
  obtain ⟨hy, hy'⟩ := h.year_bounds (by decide)
  have hw := h.mono (show 1000000 ≤ 1000001 by decide)
  have hp : (hold d).year - 1 = .hold (d.year - 1) :=
    hold_sub (a := d.year) (by omega) (by omega) (by decide) (by decide)
  have hn : (hold d).year + 1 = .hold (d.year + 1) :=
    hold_add (a := d.year) (by omega) (by omega) (by decide) (by decide)
  constructor
  case weekday =>
    change (hold d).weekday.Is d.weekday
    rw [weekday_hold hw, is_hold_iff, Date.weekday]
    omega
  case ordinal =>
    have ho := ordinal_le d
    change (hold d).ordinal.Is d.ordinal
    rw [ordinal_hold, is_hold_iff]
    omega
  case nday => exact is_daysSince_pascha (y := d.year) (by omega) (by omega) hw
  case previous =>
    rw [facts, hp]
    exact is_daysSince_pascha (by omega) (by omega) hw
  case next =>
    rw [facts, hn]
    exact is_daysSince_pascha (by omega) (by omega) hw

theorem computes_hold (h : Within 1000000 d) : (hold d).Computes d where
  date       := is_hold (h.mono (by decide))
  gregorian  := gregorian_hold (h.mono (by decide)) ▸ are_hold_civil .gregorian d.number
  facts      := are_facts_hold h
  paschalion := by
    obtain ⟨hy, hy'⟩ := h.year_bounds (by decide)
    exact Machine.computes_hold (y := d.year) (by omega) (by omega)

theorem computes_neighbours (h : Within 999999 d) :
    (hold d).Computes d ∧ ((hold d).addDays (.hold (-1))).Computes (d.addDays (-1)) ∧
      ((hold d).addDays 1).Computes (d.addDays 1) := by
  obtain ⟨hb, hb'⟩ := h.addDays_neighbours
  have hw := h.mono (show 999999 ≤ 1000001 by decide)
  have hp : (hold d).addDays (.hold (-1)) = hold (d.addDays (-1)) :=
    addDays_hold hw (hb.mono (by decide))
  have hn : (hold d).addDays 1 = hold (d.addDays 1) := addDays_hold hw (hb'.mono (by decide))
  rw [hp, hn]
  exact ⟨computes_hold (h.mono (by decide)), computes_hold hb, computes_hold hb'⟩

-- For a date that is accepted on either calendar, and for the days next to it, no step leaves its
-- word, cuts a year or makes a negative number one without a sign, and each place in a table is
-- there.
theorem accepted_computes (c : Civil) (d : Date) :
    (Date.ofJulian c = .ok d → ∃ x, ofJulian c = some x ∧ x.Computes d ∧
      (x.addDays (.hold (-1))).Computes (d.addDays (-1)) ∧ (x.addDays 1).Computes (d.addDays 1)) ∧
    (Date.ofGregorian c = .ok d → ∃ x, ofGregorian c = some x ∧ x.Computes d ∧
      (x.addDays (.hold (-1))).Computes (d.addDays (-1)) ∧ (x.addDays 1).Computes (d.addDays 1)) :=
  ⟨fun h => ⟨_, ofJulian_eq_some h, computes_neighbours (within_of_ofJulian h)⟩,
    fun h => ⟨_, ofGregorian_eq_some h, computes_neighbours (within_of_ofGregorian h)⟩⟩

-- The last day that is accepted, whose next day is in a year that is not, and a day that the reform
-- dropped.
theorem accepted_computes_lastDay :
    let c : Civil := ⟨999999, 12, 31⟩
    let d : Date := ⟨julian.dayNumber c⟩
    let c' : Civil := ⟨1582, 10, 10⟩
    let d' : Date := ⟨2299161⟩
    (Date.ofJulian c = .ok d ∧ (d.addDays 1).year = 1000000 ∧
      ∃ x, ofJulian c = some x ∧ (x.addDays 1).Computes (d.addDays 1)) ∧
    (Date.ofGregorian c' = .ok d' ∧ ∃ x, ofGregorian c' = some x ∧ x.Computes d') := by
  intro c d c' d'
  have h : Date.ofJulian c = .ok d := toOption_eq_some_iff.mp (by decide)
  have h' : Date.ofGregorian c' = .ok d' := toOption_eq_some_iff.mp (by decide)
  obtain ⟨x, hx, -, -, hn⟩ := (accepted_computes c d).1 h
  obtain ⟨x', hx', hc, -, -⟩ := (accepted_computes c' d').2 h'
  exact ⟨⟨h, by decide, x, hx, hn⟩, h', x', hx', hc⟩

end Day

end Ordo.Machine
