import Ordo.Proofs.Date
import Ordo.Proofs.Pascha

namespace Ordo

-- The first of the Sundays behind a day.
structure Date.FirstSundayBehind (d s : Date) : Prop where
  behind : d < s
  sunday : s.weekday = 0
  first  : ∀ s', d < s' → s'.weekday = 0 → ¬s' < s

namespace Pascha

open Calendar

-- The full moon that Pascha follows, by the epacta.
def fullMoon (year : Int) : Date :=
  ⟨julian.dayNumber ⟨year, 3, 21⟩ + (epacta year + 5) % 30⟩

-- The age of the moon grows by 11 days from year to year, which is by 19 days less than a month.
theorem epacta_eq_moon (year : Int) : (epacta year + 5) % 30 = moon year := by
  have hc : (year + 1) % 19 = year % 19 + 1 ∨ year % 19 = 18 ∧ (year + 1) % 19 = 0 := by omega
  simp only [epacta, foundation, moon]
  rcases hc with hc | ⟨hc, hc'⟩
  case inl =>
    rw [hc]
    split <;> omega
  case inr =>
    rw [hc, hc']
    rfl

-- The nineteen moons of the cycle leave out the last day of the month.
theorem moon_le (year : Int) : moon year ≤ 28 := by
  simp only [moon]
  omega

theorem foundation_add_epacta (year : Int) :
    foundation year + epacta year = 21 ∨ foundation year + epacta year = 51 := by
  simp only [epacta, foundation]
  split <;> omega

theorem dayNumber_march (year : Int) (day : Nat) :
    julian.dayNumber ⟨year, 3, day⟩ = julian.dayNumber ⟨year, 3, 22⟩ + day - 22 := by
  simp only [dayNumber_eq]
  omega

theorem dayNumber_april (year : Int) (day : Nat) :
    julian.dayNumber ⟨year, 4, day⟩ = julian.dayNumber ⟨year, 3, 22⟩ + day + 9 := by
  have hs : monthStart year 4 = monthStart year 3 + 31 :=
    monthStart_succ year (by decide) (by decide)
  simp only [dayNumber_eq]
  omega

theorem weekday_march24 (year : Int) :
    ((⟨julian.dayNumber ⟨year, 3, 24⟩⟩ : Date).weekday : Int) = concurrent year - 1 := by
  let cycle := (year + 20) / 28
  let solar := (year + 20) % 28
  have hs : year + 20 = 28 * cycle + solar := (Int.mul_ediv_add_emod ..).symm
  -- The days of 28 years are a whole number of weeks.
  have hn : julian.dayNumber ⟨year, 3, 24⟩ + 1 =
      7 * (1461 * cycle + 52 * solar + 244833) + (solar + solar / 4 + 6) := by
    rw [dayNumber_march, march22_eq]
    omega
  change ((((julian.dayNumber ⟨year, 3, 24⟩ + 1) % 7).toNat : Nat) : Int) =
    (solar + solar / 4 + 6) % 7 + 1 - 1
  rw [hn]
  omega

theorem boundary_eq (year : Int) : boundary year = moon year + wait year := by
  have := number_ofYear year
  simp only [boundary, Date.daysSince]
  omega

theorem boundary_bounds (year : Int) : 0 ≤ boundary year ∧ boundary year ≤ 34 := by
  have hm := moon_bounds year
  have hl := moon_le year
  have hw := wait_bounds year
  rw [boundary_eq]
  omega

theorem getElem?_boundaryKeys (year : Int) :
    boundaryKeys[(boundary year).toNat]? = some (keyOfBoundaries year) := by
  have hb := boundary_bounds year
  have hl : (boundary year).toNat < boundaryKeys.length := by
    rw [show boundaryKeys.length = 35 from rfl]
    omega
  rw [keyOfBoundaries, List.getD_eq_getElem?_getD, List.getElem?_eq_getElem hl, Option.getD_some]

theorem firstSundayBehind_fullMoon (year : Int) : (fullMoon year).FirstSundayBehind (ofYear year) := by
  have hn := number_ofYear year
  have hw := wait_bounds year
  have hs := weekday_ofYear year
  have hf : (fullMoon year).number = julian.dayNumber ⟨year, 3, 22⟩ + moon year - 1 := by
    simp only [fullMoon, epacta_eq_moon, dayNumber_march year 21]
    omega
  refine ⟨?_, hs, fun s' hl hs' hl' => ?_⟩
  · change (fullMoon year).number < (ofYear year).number
    omega
  · change (fullMoon year).number < s'.number at hl
    change s'.number < (ofYear year).number at hl'
    simp only [Date.weekday] at hs hs'
    omega

-- The days up to the tenth behind March 22 are in March, and the others in April.
theorem exists_julian_ofYear {year : Int} (h : -0x80000000 ≤ year) (h' : year < 0x80000000) :
    ∃ month day, (ofYear year).julian = ⟨year, month, day⟩ ∧
      (month = 3 ∧ 22 ≤ day ∧ day ≤ 31 ∨ month = 4 ∧ 1 ≤ day ∧ day ≤ 25) := by
  have hb := boundary_bounds year
  have hn : ofYear year = ⟨julian.dayNumber ⟨year, 3, 22⟩ + boundary year⟩ := by
    simp [boundary, Date.daysSince]
  by_cases hd : boundary year < 10
  case pos =>
    let c : Civil := ⟨year, 3, (22 + boundary year).toNat⟩
    have hc : julian.Has c := ⟨by simp [c], by simp only [c, daysIn]; omega⟩
    have he : ofYear year = ⟨julian.dayNumber c⟩ := by
      rw [hn, dayNumber_march year (22 + boundary year).toNat]
      congr 1
      omega
    exact ⟨3, _, he ▸ Date.julian_dayNumber hc h h', by omega⟩
  case neg =>
    let c : Civil := ⟨year, 4, (boundary year - 9).toNat⟩
    have hc : julian.Has c := ⟨by simp [c], by simp only [c, daysIn]; omega⟩
    have he : ofYear year = ⟨julian.dayNumber c⟩ := by
      rw [hn, dayNumber_april]
      congr 1
      omega
    exact ⟨4, _, he ▸ Date.julian_dayNumber hc h h', by omega⟩

-- The paschalion of a year agrees with itself and with the calendar.
theorem ofYear_agrees {year : Int} (h : -0x80000000 ≤ year) (h' : year < 0x80000000) :
    (∃ month day, (ofYear year).julian = ⟨year, month, day⟩ ∧
      (month = 3 ∧ 22 ≤ day ∧ day ≤ 31 ∨ month = 4 ∧ 1 ≤ day ∧ day ≤ 25)) ∧
    (fullMoon year).FirstSundayBehind (ofYear year) ∧
    (boundaryKeys.length = 35 ∧ 0 ≤ boundary year ∧ boundary year < 35 ∧
      boundaryKeys[(boundary year).toNat]? = some (keyOfBoundaries year)) ∧
    (foundation year + epacta year = 21 ∨ foundation year + epacta year = 51) ∧
    concurrent year - 1 = (⟨julian.dayNumber ⟨year, 3, 24⟩⟩ : Date).weekday := by
  have hb := boundary_bounds year
  exact ⟨exists_julian_ofYear h h', firstSundayBehind_fullMoon year,
    ⟨rfl, hb.1, by omega, getElem?_boundaryKeys year⟩, foundation_add_epacta year,
    (weekday_march24 year).symm⟩

-- A leap year before our era with the latest Pascha that there can be.
theorem ofYear_agrees_latest :
    let year : Int := -392
    (ofYear year).julian = ⟨year, 4, 25⟩ ∧ keyOfBoundaries year = "Ѧ" ∧
      (-0x80000000 ≤ year ∧ year < 0x80000000) ∧
      (fullMoon year).FirstSundayBehind (ofYear year) ∧
      (foundation year + epacta year = 21 ∨ foundation year + epacta year = 51) ∧
      concurrent year - 1 = (⟨julian.dayNumber ⟨year, 3, 24⟩⟩ : Date).weekday := by
  intro year
  have h : -0x80000000 ≤ year := by decide
  have h' : year < 0x80000000 := by decide
  obtain ⟨_, hs, _, he, hc⟩ := ofYear_agrees h h'
  exact ⟨by decide, by decide, ⟨h, h'⟩, hs, he, hc⟩

end Pascha

end Ordo
