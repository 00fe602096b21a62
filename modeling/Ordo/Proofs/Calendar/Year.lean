import Ordo.Date

namespace Ordo

namespace Calendar

-- The number of the first day of a Julian year.
def yearStart (year : Int) : Int :=
  julian.dayNumber ⟨year, 1, 1⟩

theorem yearStart_eq (year : Int) :
    yearStart year = 365 * (year + 4799) + (year + 4799) / 4 - 31776 := by
  simp only [yearStart, dayNumber]
  omega

theorem yearStart_lt_succ (year : Int) : yearStart year < yearStart (year + 1) := by
  simp only [yearStart_eq]
  omega

theorem eq_of_yearStart_le_of_lt {y y' n : Int} (h₁ : yearStart y ≤ n) (h₂ : n < yearStart (y + 1))
    (h₁' : yearStart y' ≤ n) (h₂' : n < yearStart (y' + 1)) : y = y' := by
  simp only [yearStart_eq] at *
  omega

-- The years that begin with March are counted from 4716 years before the first one.
def marchYear (n : Int) : Int :=
  (4 * (n + 1401) + 3) / 1461

-- The days since the last first of March.
def marchDay (n : Int) : Int :=
  (4 * (n + 1401) + 3) % 1461 / 4

theorem marchYear_add_marchDay (n : Int) :
    365 * marchYear n + marchYear n / 4 + marchDay n = n + 1401 := by
  simp only [marchYear, marchDay]
  omega

theorem marchDay_nonneg (n : Int) : 0 ≤ marchDay n := by
  simp only [marchDay]
  omega

-- The leap day is the last day of its year.
theorem marchDay_le (n : Int) : marchDay n ≤ 365 ∧ (marchDay n = 365 → marchYear n % 4 = 3) := by
  simp only [marchDay, marchYear]
  omega

-- The year of a day before it is held in 32 bits. From January on it is the next one.
def fullYear (n : Int) : Int :=
  marchYear n - 4716 + if marchDay n < 306 then 0 else 1

-- The months are numbered from March on, so January and February are the last two.
theorem month_early (m : Int) (h : 0 ≤ m) (h' : m ≤ 11) :
    (14 - ((m + 2) % 12 + 1)) / 12 = if m < 10 then 0 else 1 := by
  split <;> omega

theorem civil_year (n : Int) : (julian.civil n).year = wrapYear (fullYear n) := by
  have h₀ := marchDay_nonneg n
  have h₁ := marchDay_le n
  have hm : (5 * marchDay n + 2) / 153 < 10 ↔ marchDay n < 306 := by omega
  have early := month_early ((5 * marchDay n + 2) / 153) (by omega) (by omega)
  simp only [hm] at early
  simp only [fullYear, ← early]
  rfl

theorem yearStart_fullYear_le (n : Int) : yearStart (fullYear n) ≤ n := by
  have h := marchYear_add_marchDay n
  have h₀ := marchDay_nonneg n
  simp only [yearStart_eq, fullYear]
  split <;> omega

theorem lt_yearStart_fullYear_succ (n : Int) : n < yearStart (fullYear n + 1) := by
  have h := marchYear_add_marchDay n
  have h₁ := marchDay_le n
  simp only [yearStart_eq, fullYear]
  split <;> omega

theorem wrapYear_eq_self {year : Int} (h : -0x80000000 ≤ year) (h' : year < 0x80000000) :
    wrapYear year = year :=
  Int.bmod_eq_of_le (by omega) (by omega)

end Calendar

namespace Date

open Calendar

-- The years before and after that of the date can be held in 32 bits.
def HasNeighbourYears (d : Date) : Prop :=
  yearStart (-0x7FFFFFFF) ≤ d.number ∧ d.number < yearStart 0x7FFFFFFF

instance : DecidablePred HasNeighbourYears :=
  fun _ => inferInstanceAs (Decidable (_ ∧ _))

variable {d : Date} {y : Int}

theorem year_eq (h₁ : yearStart y ≤ d.number) (h₂ : d.number < yearStart (y + 1))
    (h : -0x80000000 ≤ y) (h' : y < 0x80000000) : d.year = y := by
  have hy := eq_of_yearStart_le_of_lt h₁ h₂ (yearStart_fullYear_le _) (lt_yearStart_fullYear_succ _)
  rw [year, julian, civil_year, ← hy, wrapYear_eq_self h h']

theorem HasNeighbourYears.year_bounds (h : d.HasNeighbourYears) :
    -0x80000000 < d.year ∧ d.year < 0x7FFFFFFF ∧
      yearStart d.year ≤ d.number ∧ d.number < yearStart (d.year + 1) := by
  obtain ⟨h, h'⟩ := h
  have h₁ := yearStart_fullYear_le d.number
  have h₂ := lt_yearStart_fullYear_succ d.number
  have hy : -0x80000000 < fullYear d.number ∧ fullYear d.number < 0x7FFFFFFF := by
    simp only [yearStart_eq] at *
    omega
  rw [year_eq h₁ h₂ (by omega) (by omega)]
  exact ⟨hy.1, hy.2, h₁, h₂⟩

-- The day behind the last one of a year is the first one of the next year.
theorem HasNeighbourYears.year_addDays_one (h : d.HasNeighbourYears) :
    (d.addDays 1).year = d.year ∨
      (d.addDays 1).year = d.year + 1 ∧ d.number + 1 = yearStart (d.year + 1) := by
  obtain ⟨hl, hu, h₁, h₂⟩ := h.year_bounds
  have ha : (d.addDays 1).number = d.number + 1 := rfl
  by_cases hn : d.number + 1 < yearStart (d.year + 1)
  case pos => exact .inl (year_eq (by omega) (by omega) (by omega) (by omega))
  case neg =>
    have := yearStart_lt_succ (d.year + 1)
    exact .inr ⟨year_eq (by omega) (by omega) (by omega) (by omega), by omega⟩

end Date

end Ordo
