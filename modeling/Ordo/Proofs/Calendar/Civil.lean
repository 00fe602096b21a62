import Mathlib.Tactic.IntervalCases
import Ordo.Proofs.Calendar.Year
import Ordo.Proofs.Result

namespace Ordo

namespace Civil

variable {a b c : Civil}

theorem lt_iff : a < b ↔
    a.year < b.year ∨ a.year = b.year ∧ (a.month < b.month ∨ a.month = b.month ∧ a.day < b.day) :=
  .rfl

theorem lt_trichotomy (a b : Civil) : a < b ∨ a = b ∨ b < a := by
  rcases a with ⟨_, _, _⟩
  rcases b with ⟨_, _, _⟩
  simp only [lt_iff, mk.injEq]
  omega

theorem lt_trans (h : a < b) (h' : b < c) : a < c := by
  simp only [lt_iff] at *
  omega

theorem lt_asymm (h : a < b) : ¬b < a := by
  simp only [lt_iff] at *
  omega

theorem eq_of_not_lt (h : ¬a < b) (h' : ¬b < a) : a = b :=
  ((lt_trichotomy a b).resolve_left h).resolve_right h'

end Civil

namespace Calendar

-- The days that a calendar has in its months.
structure Has (c : Calendar) (d : Civil) : Prop where
  month : 1 ≤ d.month ∧ d.month ≤ 12
  day   : 1 ≤ d.day ∧ d.day ≤ c.daysIn d.year d.month

theorem has_iff {c : Calendar} {d : Civil} :
    c.Has d ↔ (1 ≤ d.month ∧ d.month ≤ 12) ∧ 1 ≤ d.day ∧ d.day ≤ c.daysIn d.year d.month :=
  ⟨fun h => ⟨h.month, h.day⟩, fun ⟨hm, hd⟩ => ⟨hm, hd⟩⟩

theorem check_eq_ok_iff {c : Calendar} {d : Civil} :
    c.check d = .ok () ↔ (firstYear ≤ d.year ∧ d.year ≤ lastYear) ∧ c.Has d := by
  simp only [check, guard_bind_eq_ok_iff, guard_eq_ok_iff, has_iff, Bool.and_eq_true,
    decide_eq_true_eq, pure, Except.pure, and_true]

section

variable {d d' : Civil} {month month' : Nat}

-- The number of the first day of a month.
def monthStart (year : Int) (month : Nat) : Int :=
  julian.dayNumber ⟨year, month, 1⟩

theorem dayNumber_eq (d : Civil) : julian.dayNumber d = monthStart d.year d.month + d.day - 1 := by
  simp only [monthStart, dayNumber]
  omega

theorem daysIn_two (year : Int) : julian.daysIn year 2 = if year % 4 = 0 then 29 else 28 := by
  simp [daysIn, isLeapYear]

theorem monthStart_succ (year : Int) (h : 1 ≤ month) (h' : month < 12) :
    monthStart year (month + 1) = monthStart year month + julian.daysIn year month := by
  by_cases hf : month = 2
  case pos =>
    subst hf
    rw [daysIn_two]
    simp only [monthStart, dayNumber]
    split <;> omega
  case neg =>
    interval_cases month
    case «2» => contradiction
    all_goals
      simp only [monthStart, dayNumber, daysIn]
      omega

theorem yearStart_succ (year : Int) :
    yearStart (year + 1) = monthStart year 12 + julian.daysIn year 12 := by
  simp only [yearStart, monthStart, dayNumber, daysIn]
  omega

theorem monthEnd_le_monthStart (year : Int) (h : 1 ≤ month) (hl : month < month') (h' : month' ≤ 12) :
    monthStart year month + julian.daysIn year month ≤ monthStart year month' := by
  induction month', hl using Nat.le_induction
  case base => exact (monthStart_succ year h h').ge
  case succ m hm hi =>
    have hs := monthStart_succ year (show 1 ≤ m by omega) (by omega)
    have hi := hi (by omega)
    omega

theorem monthEnd_le_yearStart (year : Int) (h : 1 ≤ month) (h' : month ≤ 12) :
    monthStart year month + julian.daysIn year month ≤ yearStart (year + 1) := by
  rw [yearStart_succ]
  rcases Nat.lt_or_eq_of_le h' with hl | rfl
  case inl =>
    have := monthEnd_le_monthStart year h hl (Nat.le_refl _)
    omega
  case inr => exact Int.le_refl _

theorem yearStart_le_monthStart (year : Int) (h : 1 ≤ month) (h' : month ≤ 12) :
    yearStart year ≤ monthStart year month := by
  rcases Nat.lt_or_eq_of_le h with hl | rfl
  case inl =>
    have hm := monthEnd_le_monthStart year (Nat.le_refl 1) hl h'
    have hy : monthStart year 1 = yearStart year := rfl
    omega
  case inr => exact Int.le_refl _

theorem yearStart_le_of_lt {year year' : Int} (h : year < year') : yearStart (year + 1) ≤ yearStart year' := by
  simp only [yearStart_eq]
  omega

theorem yearStart_le_dayNumber (h : julian.Has d) : yearStart d.year ≤ julian.dayNumber d := by
  have hm := yearStart_le_monthStart d.year h.month.1 h.month.2
  have hd := h.day.1
  rw [dayNumber_eq]
  omega

theorem dayNumber_lt_yearStart (h : julian.Has d) :
    julian.dayNumber d < yearStart (d.year + 1) := by
  have hm := monthEnd_le_yearStart d.year h.month.1 h.month.2
  have hd := h.day.2
  rw [dayNumber_eq]
  omega

-- The first of the year, the month and the day that differ decides, because a month ends before the
-- next one begins, and so does a year.
theorem dayNumber_lt_of_lt (h : julian.Has d) (h' : julian.Has d') (hl : d < d') :
    julian.dayNumber d < julian.dayNumber d' := by
  rcases Civil.lt_iff.mp hl with hy | ⟨hy, hm | ⟨hm, hd⟩⟩
  case inl =>
    have h₁ := dayNumber_lt_yearStart h
    have h₂ := yearStart_le_of_lt hy
    have h₃ := yearStart_le_dayNumber h'
    omega
  case inr.inl =>
    have hs := monthEnd_le_monthStart d.year h.month.1 hm h'.month.2
    have hd := h.day.2
    have hd' := h'.day.1
    rw [dayNumber_eq, dayNumber_eq, ← hy]
    omega
  case inr.inr =>
    rw [dayNumber_eq, dayNumber_eq, ← hy, ← hm]
    omega

theorem dayNumber_lt_iff (h : julian.Has d) (h' : julian.Has d') :
    julian.dayNumber d < julian.dayNumber d' ↔ d < d' := by
  refine ⟨fun hn => ?_, dayNumber_lt_of_lt h h'⟩
  rcases d.lt_trichotomy d' with hl | rfl | hl
  case inl     => exact hl
  case inr.inl => exact absurd hn (Int.lt_irrefl _)
  case inr.inr => exact absurd (dayNumber_lt_of_lt h' h hl) (by omega)

theorem dayNumber_injective (h : julian.Has d) (h' : julian.Has d')
    (hn : julian.dayNumber d = julian.dayNumber d') : d = d' := by
  rcases d.lt_trichotomy d' with hl | rfl | hl
  case inl     => exact absurd (dayNumber_lt_of_lt h h' hl) (by omega)
  case inr.inl => rfl
  case inr.inr => exact absurd (dayNumber_lt_of_lt h' h hl) (by omega)

end

-- The number of the month in the year that begins with March.
def marchMonth (n : Int) : Int :=
  (5 * marchDay n + 2) / 153

theorem marchMonth_bounds (n : Int) : 0 ≤ marchMonth n ∧ marchMonth n ≤ 11 := by
  have h₀ := marchDay_nonneg n
  have h₁ := marchDay_le n
  simp only [marchMonth]
  omega

-- The date of a day before its year is held in 32 bits.
def fullCivil (n : Int) : Civil where
  year  := fullYear n
  month := ((marchMonth n + 2) % 12 + 1).toNat
  day   := ((5 * marchDay n + 2) % 153 / 5 + 1).toNat

theorem civil_eq (n : Int) : julian.civil n = { fullCivil n with year := wrapYear (fullYear n) } := by
  rw [← civil_year]
  rfl

-- The days before a month of the year from March, and the days in it up to some day, are all days
-- of the year up to that day.
theorem marchDay_eq (n : Int) :
    (153 * marchMonth n + 2) / 5 + (5 * marchDay n + 2) % 153 / 5 = marchDay n := by
  simp only [marchMonth]
  omega

theorem fullCivil_month (n : Int) :
    ((fullCivil n).month : Int) = if marchDay n < 306 then marchMonth n + 3 else marchMonth n - 9 := by
  have hm : marchMonth n = (5 * marchDay n + 2) / 153 := rfl
  obtain ⟨h₀, h₁⟩ := marchMonth_bounds n
  simp only [fullCivil]
  split <;> omega

theorem fullCivil_day (n : Int) :
    ((fullCivil n).day : Int) = (5 * marchDay n + 2) % 153 / 5 + 1 := by
  simp only [fullCivil]
  omega

theorem dayNumber_fullCivil (n : Int) : julian.dayNumber (fullCivil n) = n := by
  have hn := marchYear_add_marchDay n
  have hs := marchDay_eq n
  obtain ⟨h₀, h₁⟩ := marchMonth_bounds n
  have hm : marchMonth n = (5 * marchDay n + 2) / 153 := rfl
  have hy : (fullCivil n).year = fullYear n := rfl
  simp only [dayNumber, fullCivil_month, fullCivil_day, hy, fullYear]
  split
  case isTrue h =>
    have he : (14 - (marchMonth n + 3)) / 12 = 0 := by omega
    have hr : marchMonth n + 3 + 12 * 0 - 3 = marchMonth n := by omega
    rw [he, hr]
    omega
  case isFalse h =>
    have he : (14 - (marchMonth n - 9)) / 12 = 1 := by omega
    have hr : marchMonth n - 9 + 12 * 1 - 3 = marchMonth n := by omega
    rw [he, hr]
    omega

-- All months but February are as long as the formula for their beginnings says.
theorem daysIn_march {m : Int} (h : 0 ≤ m) (h' : m ≤ 10) (year : Int) :
    (julian.daysIn year ((m + 2) % 12 + 1).toNat : Int) =
      (153 * (m + 1) + 2) / 5 - (153 * m + 2) / 5 := by
  interval_cases m
  all_goals rfl

theorem has_fullCivil (n : Int) : julian.Has (fullCivil n) := by
  have hl := marchDay_le n
  have hs := marchDay_eq n
  obtain ⟨h₀, h₁⟩ := marchMonth_bounds n
  have hm : marchMonth n = (5 * marchDay n + 2) / 153 := rfl
  have hd := fullCivil_day n
  refine ⟨by simp only [fullCivil]; omega, by omega, ?_⟩
  rcases Int.lt_or_eq_of_le h₁ with h₁ | h₁
  case inl =>
    have := daysIn_march h₀ (by omega) (fullYear n)
    simp only [fullCivil] at *
    omega
  case inr =>
    have h₂ : (fullCivil n).month = 2 := by simp only [fullCivil]; omega
    have hj : ¬marchDay n < 306 := by omega
    have hy : (fullCivil n).year = marchYear n - 4715 := by simp only [fullCivil, fullYear]; omega
    rw [h₂, daysIn_two, hy]
    split <;> omega

end Calendar

end Ordo
