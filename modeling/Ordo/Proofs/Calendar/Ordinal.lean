import Ordo.Proofs.Calendar.Gregorian
import Ordo.Proofs.Date

namespace Ordo

namespace Calendar

theorem isLeapYear_wrapYear (year : Int) :
    julian.isLeapYear (wrapYear year) = julian.isLeapYear year := by
  have hw : wrapYear year % 0x100000000 = year % 0x100000000 := Int.bmod_emod ..
  have h : wrapYear year % 4 = year % 4 := by omega
  simp only [isLeapYear, h]

-- The number of leap days in a year.
def leapDays (year : Int) : Int :=
  if julian.isLeapYear year then 1 else 0

theorem leapDays_eq (year : Int) : leapDays year = if year % 4 = 0 then 1 else 0 := by
  simp only [leapDays, isLeapYear, decide_eq_true_eq]

-- The table of months is that of a common year.
theorem monthStart_eq_yearStart_add (year : Int) {month : Nat} (h : 1 ≤ month) (h' : month ≤ 12) :
    monthStart year month = yearStart year + Date.daysBeforeMonth.getD (month - 1) 0 +
      if 3 ≤ month then leapDays year else 0 := by
  rw [leapDays_eq]
  interval_cases month
  all_goals
    simp only [monthStart, yearStart, dayNumber, Date.daysBeforeMonth, Nat.reduceSub,
      List.getD_cons_zero, List.getD_cons_succ]
    omega

end Calendar

namespace Date

open Calendar

-- The first day of the year that a day is in.
def newYear (d : Date) : Date :=
  ⟨yearStart (fullYear d.number)⟩

-- The leap days of the year that a day is in.
def leapDays (d : Date) : Int :=
  Calendar.leapDays d.year

def IsLeapDay (d : Date) : Prop :=
  d.month = 2 ∧ d.day = 29

instance : DecidablePred IsLeapDay :=
  fun _ => inferInstanceAs (Decidable (_ ∧ _))

variable {d d' : Date}

theorem leapDays_eq (d : Date) : d.leapDays = Calendar.leapDays (fullYear d.number) := by
  rw [leapDays, Calendar.leapDays, year, julian, civil_year, isLeapYear_wrapYear, Calendar.leapDays]

theorem fullCivil_eq (d : Date) : fullCivil d.number = ⟨fullYear d.number, d.month, d.day⟩ := by
  rw [month, day, julian, civil_eq]
  rfl

theorem has_monthDay (d : Date) : Calendar.julian.Has ⟨fullYear d.number, d.month, d.day⟩ :=
  fullCivil_eq d ▸ has_fullCivil d.number

-- The days before a day in its year are those of the months before its month, and those before it
-- in the month.
theorem daysSince_newYear (d : Date) : d.daysSince d.newYear =
    daysBeforeMonth.getD (d.month - 1) 0 + (if 3 ≤ d.month then d.leapDays else 0) + d.day - 1 := by
  have hn : d.number = Calendar.julian.dayNumber (fullCivil d.number) :=
    (dayNumber_fullCivil d.number).symm
  obtain ⟨hm, hm'⟩ := (has_monthDay d).month
  have hs := monthStart_eq_yearStart_add (fullYear d.number) hm hm'
  rw [fullCivil_eq, dayNumber_eq] at hn
  rw [daysSince, newYear, leapDays_eq]
  dsimp only at hn hs ⊢
  omega

-- In January and in February no leap day lies before a day.
theorem daysSince_newYear_of_january (h : d.month = 1) : d.daysSince d.newYear = d.day - 1 := by
  simp [daysSince_newYear, h, daysBeforeMonth]

theorem daysSince_newYear_of_february (h : d.month = 2) :
    d.daysSince d.newYear = 31 + d.day - 1 := by
  simp [daysSince_newYear, h, daysBeforeMonth]

theorem leapDays_cases (d : Date) : d.leapDays = 0 ∨ d.leapDays = 1 := by
  rw [leapDays, Calendar.leapDays]
  split
  case isTrue  => exact .inr rfl
  case isFalse => exact .inl rfl

theorem day_bounds (d : Date) :
    1 ≤ d.day ∧ d.day ≤ 31 ∧ (d.month = 2 → (d.day : Int) ≤ 28 + d.leapDays) := by
  obtain ⟨-, hd, hd'⟩ := has_iff.mp (has_monthDay d)
  refine ⟨hd, Nat.le_trans hd' (daysIn_bounds ..).2, fun hm => ?_⟩
  rw [hm, daysIn_two] at hd'
  rw [leapDays_eq, Calendar.leapDays_eq]
  dsimp only at hd'
  split at hd' <;> omega

-- From March on, the days of January and of February lie before a day.
theorem three_le_month_iff (d : Date) : 3 ≤ d.month ↔ 59 + d.leapDays ≤ d.daysSince d.newYear := by
  have hk := daysSince_newYear d
  obtain ⟨hd, hd', hf⟩ := day_bounds d
  obtain ⟨hm, hm'⟩ := (has_monthDay d).month
  dsimp only at hm hm'
  have ht : 3 ≤ d.month → 59 ≤ daysBeforeMonth.getD (d.month - 1) 0 := by
    intro h
    generalize d.month = month at *
    interval_cases month <;> decide
  have hc := leapDays_cases d
  rcases (by omega : d.month = 1 ∨ d.month = 2 ∨ 3 ≤ d.month) with h | h | h
  case inl =>
    have := daysSince_newYear_of_january h
    omega
  case inr.inl =>
    have := daysSince_newYear_of_february h
    have := hf h
    omega
  case inr.inr =>
    rw [if_pos h] at hk
    have := ht h
    omega

theorem isLeapDay_iff (d : Date) : d.IsLeapDay ↔ d.leapDays = 1 ∧ d.daysSince d.newYear = 59 := by
  have hs := three_le_month_iff d
  have hl := leapDays_cases d
  obtain ⟨hd, hd', hf⟩ := day_bounds d
  have hm : 1 ≤ d.month := (has_monthDay d).month.1
  rw [IsLeapDay]
  constructor
  case mp =>
    rintro ⟨h, h'⟩
    have := daysSince_newYear_of_february h
    have := hf h
    omega
  case mpr =>
    rintro ⟨h, h'⟩
    rcases (by omega : d.month = 1 ∨ d.month = 2) with h₁ | h₁
    case inl =>
      have := daysSince_newYear_of_january h₁
      omega
    case inr =>
      have := daysSince_newYear_of_february h₁
      omega

theorem daysSince_newYear_bounds (d : Date) :
    0 ≤ d.daysSince d.newYear ∧ d.daysSince d.newYear < 365 + d.leapDays := by
  have h := yearStart_fullYear_le d.number
  have h' := lt_yearStart_fullYear_succ d.number
  have hl := leapDays_eq d
  rw [Calendar.leapDays_eq] at hl
  simp only [daysSince, newYear, yearStart_eq] at *
  omega

theorem ordinal_eq (d : Date) : (d.ordinal : Int) =
    if d.IsLeapDay then 366
    else d.daysSince d.newYear - if 3 ≤ d.month then d.leapDays else 0 := by
  have hd := (day_bounds d).1
  have hk := daysSince_newYear d
  by_cases h : d.IsLeapDay
  case pos =>
    have ho : d.ordinal = leapDay := if_pos h
    rw [ho, if_pos h]
    rfl
  case neg =>
    have ho : d.ordinal = daysBeforeMonth.getD (d.month - 1) 0 + d.day - 1 := if_neg h
    rw [ho, if_neg h]
    omega

theorem leapDays_of_newYear_eq (h : d.newYear = d'.newYear) : d.leapDays = d'.leapDays := by
  have hy : fullYear d.number = fullYear d'.number := by
    have hs := congrArg number h
    simp only [newYear, yearStart_eq] at hs
    omega
  rw [leapDays_eq, leapDays_eq, hy]

theorem number_sub_of_newYear_eq (h : d.newYear = d'.newYear) :
    d'.number - d.number = d'.daysSince d'.newYear - d.daysSince d.newYear := by
  simp only [daysSince, h]
  omega

theorem ordinal_lt_iff (h : d.newYear = d'.newYear) (hd : ¬d.IsLeapDay) (hd' : ¬d'.IsLeapDay) :
    d.ordinal < d'.ordinal ↔ d < d' := by
  have ho := ordinal_eq d
  have ho' := ordinal_eq d'
  have hm := three_le_month_iff d
  have hm' := three_le_month_iff d'
  have hl := leapDays_of_newYear_eq h
  have hn := number_sub_of_newYear_eq h
  have hc := leapDays_cases d
  rw [if_neg hd] at ho
  rw [if_neg hd'] at ho'
  rw [isLeapDay_iff] at hd hd'
  change _ ↔ d.number < d'.number
  omega

theorem ordinal_lt_leapDay (h : ¬d.IsLeapDay) : d.ordinal < leapDay := by
  have ho := ordinal_eq d
  have hm := three_le_month_iff d
  have hb := daysSince_newYear_bounds d
  have hc := leapDays_cases d
  rw [if_neg h] at ho
  rw [leapDay]
  omega

theorem ordinal_eq_leapDay_iff : d.ordinal = leapDay ↔ d.IsLeapDay := by
  constructor
  case mp =>
    intro ho
    by_contra h
    exact Nat.ne_of_lt (ordinal_lt_leapDay h) ho
  case mpr => exact fun h => if_pos h

-- The values of two days are compared if neither is the leap day, and it is the only one with its
-- value.
theorem eq_of_ordinal_eq (h : d.newYear = d'.newYear) (ho : d.ordinal = d'.ordinal) : d = d' := by
  have hl : d.IsLeapDay ↔ d'.IsLeapDay := by
    rw [← ordinal_eq_leapDay_iff, ← ordinal_eq_leapDay_iff, ho]
  have hn : d.number = d'.number := by
    by_cases hd : d.IsLeapDay
    case pos =>
      have hs := number_sub_of_newYear_eq h
      have hk := ((isLeapDay_iff d).mp hd).2
      have hk' := ((isLeapDay_iff d').mp (hl.mp hd)).2
      omega
    case neg =>
      have hd' := mt hl.mpr hd
      have h₁ : ¬d.number < d'.number := (ordinal_lt_iff h hd hd').not.mp (by omega)
      have h₂ : ¬d'.number < d.number := (ordinal_lt_iff h.symm hd' hd).not.mp (by omega)
      omega
  exact congrArg mk hn

theorem julian_newYear (d : Date) : d.newYear.julian = ⟨d.year, 1, 1⟩ := by
  have hf := fullCivil_dayNumber (has_first .julian (fullYear d.number) (Nat.le_refl 1) (by decide))
  have hc : d.newYear.julian = { fullCivil (yearStart (fullYear d.number)) with
      year := wrapYear (fullCivil (yearStart (fullYear d.number))).year } := civil_eq _
  rw [hc, yearStart, hf, year, julian, civil_year]

theorem HasYear.newYear_eq (h : d.HasYear) :
    d.newYear = ⟨Calendar.julian.dayNumber ⟨d.year, 1, 1⟩⟩ := by
  have hy : d.year = fullYear d.number := by
    rw [year, h.julian_eq]
    rfl
  rw [hy]
  rfl

theorem newYear_eq_iff (h : d.HasYear) (h' : d'.HasYear) :
    d.newYear = d'.newYear ↔ d.year = d'.year := by
  rw [h.newYear_eq, h'.newYear_eq, mk.injEq]
  change yearStart d.year = yearStart d'.year ↔ _
  rw [yearStart_eq, yearStart_eq]
  omega

-- The value of a day is the count of days since the first one of its year, except that the leap day
-- is left out of it.
theorem ordinal_counts (d : Date) :
    (d.newYear.julian = ⟨d.year, 1, 1⟩ ∧ ¬d < d.newYear ∧
      (d.HasYear → d.newYear = ⟨Calendar.julian.dayNumber ⟨d.year, 1, 1⟩⟩)) ∧
    (d.ordinal : Int) =
      (if d.month = 2 ∧ d.day = 29 then 366
      else d.daysSince d.newYear -
        if Calendar.julian.isLeapYear d.year ∧ 3 ≤ d.month then 1 else 0) ∧
    ∀ d' : Date,
      (d.HasYear → d'.HasYear → (d.newYear = d'.newYear ↔ d.year = d'.year)) ∧
      (d.month = d'.month → d.day = d'.day → d.ordinal = d'.ordinal) ∧
      (d.newYear = d'.newYear → d.ordinal = d'.ordinal → d = d') ∧
      (d.newYear = d'.newYear → ¬(d.month = 2 ∧ d.day = 29) → ¬(d'.month = 2 ∧ d'.day = 29) →
        (d.ordinal < d'.ordinal ↔ d < d')) := by
  refine ⟨⟨julian_newYear d, ?_, HasYear.newYear_eq⟩, ?_, fun d' => ⟨newYear_eq_iff,
    fun hm hd => ?_, eq_of_ordinal_eq, ordinal_lt_iff⟩⟩
  case refine_1 =>
    have hb := (daysSince_newYear_bounds d).1
    rw [daysSince] at hb
    exact Int.not_lt.mpr (by omega)
  case refine_2 =>
    have hs : (if Calendar.julian.isLeapYear d.year ∧ 3 ≤ d.month then (1 : Int) else 0) =
        if 3 ≤ d.month then d.leapDays else 0 :=
      (if_congr and_comm rfl rfl).trans (ite_and ..)
    rw [hs]
    exact ordinal_eq d
  case refine_3 => rw [ordinal, ordinal, hm, hd]

-- The days around the leap day of a year before our era.
theorem ordinal_counts_leapYear :
    let d : Date := ⟨Calendar.julian.dayNumber ⟨-4, 2, 28⟩⟩
    let d' : Date := d.addDays 2
    (d.HasYear ∧ d'.HasYear ∧ d.year = d'.year) ∧ d'.month = 3 ∧ d.ordinal = 58 ∧
      (d'.ordinal : Int) = d'.daysSince d'.newYear - 1 ∧ d.newYear = d'.newYear ∧
      (d.ordinal < d'.ordinal ↔ d < d') := by
  intro d d'
  have hy : d.HasYear := ⟨by decide, by decide⟩
  have hy' : d'.HasYear := ⟨by decide, by decide⟩
  obtain ⟨-, -, hc⟩ := ordinal_counts d
  obtain ⟨-, ho, -⟩ := ordinal_counts d'
  obtain ⟨hn, -, -, hl⟩ := hc d'
  have hs := (hn hy hy').mpr (by decide)
  exact ⟨⟨hy, hy', by decide⟩, by decide, by decide, ho, hs, hl hs (by decide) (by decide)⟩

end Date

end Ordo
