import Ordo.Pascha
import Ordo.Proofs.Calendar.Year

namespace Ordo.Pascha

open Calendar

-- The days from March 21 to the full moon of a year.
def moon (year : Int) : Int :=
  (19 * (year % 19) + 15) % 30

-- The days from the day behind the full moon to Pascha.
def wait (year : Int) : Int :=
  (2 * (year % 4) + 4 * (year % 7) - moon year + 34) % 7

theorem moon_bounds (year : Int) : 0 ≤ moon year ∧ moon year ≤ 29 := by
  simp only [moon]
  omega

theorem wait_bounds (year : Int) : 0 ≤ wait year ∧ wait year ≤ 6 := by
  simp only [wait]
  omega

theorem number_ofYear (year : Int) :
    (ofYear year).number = julian.dayNumber ⟨year, 3, 22⟩ + moon year + wait year := by
  have hm := moon_bounds year
  have hw := wait_bounds year
  change julian.dayNumber ⟨year, ((moon year + wait year + 114) / 31).toNat,
    ((moon year + wait year + 114) % 31 + 1).toNat⟩ = _
  -- From the tenth day behind March 22 on, Pascha is in April.
  by_cases h : moon year + wait year < 10
  case pos =>
    have : (moon year + wait year + 114) / 31 = 3 := by omega
    simp only [this, dayNumber]
    omega
  case neg =>
    have : (moon year + wait year + 114) / 31 = 4 := by omega
    simp only [this, dayNumber]
    omega

theorem march22_eq (year : Int) :
    julian.dayNumber ⟨year, 3, 22⟩ = 365 * (year + 4800) + (year + 4800) / 4 - 32061 := by
  simp only [dayNumber]
  omega

theorem weekday_ofYear (year : Int) : (ofYear year).weekday = 0 := by
  have hn := number_ofYear year
  have hq : (year + 4800) / 4 = year / 4 + 1200 := by omega
  obtain ⟨k, hk⟩ : ∃ k, wait year = 2 * (year % 4) + 4 * (year % 7) - moon year + 34 - 7 * k :=
    ⟨_, Int.emod_def ..⟩
  rw [march22_eq, hq] at hn
  have : (ofYear year).number + 1 = 7 * (53 * year - year / 4 - 4 * (year / 7) - k + 245882) := by
    omega
  simp only [Date.weekday, this]
  omega

-- The moons of a year are earlier by 11 days than those of the year before, and at the end of the
-- lunar cycle by 12. A moon that would be too early is the next one.
theorem moon_succ (year : Int) :
    moon (year + 1) = moon year + 19 ∨ moon (year + 1) = moon year - 11 ∨
      moon (year + 1) = moon year - 12 := by
  have hc : (year + 1) % 19 = year % 19 + 1 ∨ year % 19 = 18 ∧ (year + 1) % 19 = 0 := by omega
  simp only [moon]
  rcases hc with hc | ⟨hc, hc'⟩
  case inl =>
    rw [hc]
    omega
  case inr =>
    rw [hc, hc']
    decide

theorem number_ofYear_succ (year : Int) :
    (ofYear (year + 1)).number - (ofYear year).number ∈ [350, 357, 378, 385] := by
  have hm := moon_succ year
  have hw := wait_bounds year
  have hw' := wait_bounds (year + 1)
  have hs := weekday_ofYear year
  have hs' := weekday_ofYear (year + 1)
  have hn := number_ofYear year
  have hn' := number_ofYear (year + 1)
  rw [march22_eq] at hn hn'
  simp only [Date.weekday] at hs hs'
  simp only [List.mem_cons, List.not_mem_nil, or_false]
  omega

theorem number_ofYear_bounds (year : Int) :
    yearStart year + 80 ≤ (ofYear year).number ∧
      (ofYear year).number + 250 ≤ yearStart (year + 1) := by
  have hm := moon_bounds year
  have hw := wait_bounds year
  rw [number_ofYear, march22_eq, yearStart_eq, yearStart_eq]
  omega

end Ordo.Pascha
