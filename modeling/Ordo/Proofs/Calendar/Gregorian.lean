import Ordo.Proofs.Calendar.Civil

namespace Ordo

namespace Civil

-- The leap days that only the Julian calendar has.
def IsLeftOut (d : Civil) : Prop :=
  d.month = 2 ∧ d.day = 29 ∧ d.year % 100 = 0 ∧ d.year % 400 ≠ 0

instance : DecidablePred IsLeftOut :=
  fun _ => inferInstanceAs (Decidable (_ ∧ _))

end Civil

namespace Calendar

-- The day behind another one.
def next (c : Calendar) (d : Civil) : Civil :=
  if d.day < c.daysIn d.year d.month then { d with day := d.day + 1 }
  else if d.month < 12 then ⟨d.year, d.month + 1, 1⟩
  else ⟨d.year + 1, 1, 1⟩

-- The day whose Julian date is the Gregorian date of the day `n`. What is known of Julian dates is
-- carried over by it.
def namesake (n : Int) : Int :=
  n + centuryCorrection n

-- The leap days left out before a year that begins with March, less the days by which the calendars
-- differed at first.
def leftOutBefore (year : Int) : Int :=
  (year + 84) / 100 - (year + 84) / 400 - 38

-- The Gregorian date of a day before its year is held in 32 bits.
def fullGregorian (n : Int) : Civil :=
  fullCivil (namesake n)

variable {c : Calendar} {d d' : Civil} {n m : Int} {month : Nat}

section

theorem daysIn_bounds (c : Calendar) (year : Int) (month : Nat) :
    1 ≤ c.daysIn year month ∧ c.daysIn year month ≤ 31 := by
  unfold daysIn
  repeat' split
  all_goals decide

theorem has_first (c : Calendar) (year : Int) (h : 1 ≤ month) (h' : month ≤ 12) :
    c.Has ⟨year, month, 1⟩ :=
  ⟨⟨h, h'⟩, Nat.le_refl 1, (daysIn_bounds ..).1⟩

theorem lt_next (c : Calendar) (d : Civil) : d < c.next d := by
  rw [Civil.lt_iff, next]
  split
  case isTrue  => exact .inr ⟨rfl, .inr ⟨rfl, Nat.lt_succ_self _⟩⟩
  case isFalse =>
    split
    case isTrue  => exact .inr ⟨rfl, .inl (Nat.lt_succ_self _)⟩
    case isFalse => exact .inl (Int.lt_succ _)

theorem has_next (h : c.Has d) : c.Has (c.next d) := by
  obtain ⟨hm, hm'⟩ := h.month
  rw [next]
  split
  case isTrue hl => exact ⟨⟨hm, hm'⟩, Nat.le_add_left 1 d.day, hl⟩
  case isFalse   =>
    split
    case isTrue hl => exact has_first c _ (Nat.le_add_left 1 d.month) hl
    case isFalse   => exact has_first c _ (by decide) (by decide)

-- A date between the two would be behind the last day of its month.
theorem not_lt_next (h : c.Has d') (hl : d < d') : ¬d' < c.next d := by
  obtain ⟨⟨hm, hm'⟩, hd, hd'⟩ := has_iff.mp h
  rcases d with ⟨year, month, day⟩
  rcases d' with ⟨year', month', day'⟩
  intro hn
  rw [next] at hn
  split at hn
  case isTrue =>
    simp only [Civil.lt_iff] at *
    omega
  case isFalse he =>
    obtain ⟨rfl, rfl, hk⟩ : year' = year ∧ month' = month ∧ day < day' := by
      split at hn
      all_goals
        simp only [Civil.lt_iff] at *
        omega
    exact he (Nat.lt_of_lt_of_le hk hd')

end

section

theorem gregorian_daysIn (h : month ≠ 2) (year : Int) :
    gregorian.daysIn year month = julian.daysIn year month := by
  unfold daysIn
  split
  case h_1 => contradiction
  all_goals rfl

theorem gregorian_daysIn_two (year : Int) : gregorian.daysIn year 2 =
    if year % 100 = 0 ∧ year % 400 ≠ 0 then 28 else julian.daysIn year 2 := by
  simp only [daysIn, isLeapYear, Bool.or_eq_true, Bool.and_eq_true, decide_eq_true_eq]
  by_cases h : year % 100 = 0 ∧ year % 400 ≠ 0
  case pos => rw [if_neg (by omega), if_pos h]
  case neg =>
    rw [if_neg h]
    exact if_congr (by omega) rfl rfl

theorem has_gregorian_iff : gregorian.Has d ↔ julian.Has d ∧ ¬d.IsLeftOut := by
  rcases d with ⟨year, month, day⟩
  by_cases hm : month = 2
  case neg =>
    simp only [has_iff, Civil.IsLeftOut, gregorian_daysIn hm, hm, false_and, not_false_eq_true,
      and_true]
  case pos =>
    subst hm
    simp only [has_iff, Civil.IsLeftOut, gregorian_daysIn_two]
    split
    case isTrue h =>
      obtain ⟨hc, hc'⟩ := h
      have hd : julian.daysIn year 2 = 29 := by rw [daysIn_two, if_pos (by omega)]
      simp only [hd, hc, hc', ne_eq, not_false_eq_true, and_true, true_and]
      omega
    case isFalse h => exact (and_iff_left fun hl => h hl.2.2).symm

theorem Has.julian (h : gregorian.Has d) : julian.Has d :=
  (has_gregorian_iff.mp h).1

end

section

-- The correction grows with time.
theorem namesake_lt_of_lt (h : n < m) : namesake n < namesake m := by
  have hc : (4 * n + 274277) / 146097 ≤ (4 * m + 274277) / 146097 :=
    Int.ediv_le_ediv (by omega) (by omega)
  simp only [namesake, centuryCorrection]
  omega

theorem namesake_lt_iff : namesake n < namesake m ↔ n < m := by
  refine ⟨fun h => ?_, namesake_lt_of_lt⟩
  rcases Int.lt_trichotomy n m with hl | rfl | hl
  case inl     => exact hl
  case inr.inl => exact absurd h (Int.lt_irrefl _)
  case inr.inr => exact absurd (namesake_lt_of_lt hl) (by omega)

theorem namesake_injective (h : namesake n = namesake m) : n = m := by
  have hl := mt (namesake_lt_iff (n := n) (m := m)).mpr (by omega)
  have hl' := mt (namesake_lt_iff (n := m) (m := n)).mpr (by omega)
  omega

-- The year from March is the one with the number `s` in the century `c` of a cycle of 400 years, and
-- `j` is the day in it. The last day of a century is a leap day only at the end of the cycle.
theorem centuryCorrection_eq {y k c s j : Int} (hy : y + 84 = 400 * k + 100 * c + s)
    (hc : 0 ≤ c ∧ c ≤ 3) (hs : 0 ≤ s ∧ s ≤ 99) (hj : 0 ≤ j ∧ j ≤ 365)
    (hl : j = 365 → s = 99 → c = 3)
    (hn : n + (3 * k + c - 38) + 1401 = 365 * y + y / 4 + j) :
    centuryCorrection n = 3 * k + c - 38 := by
  have hd : y / 4 = 100 * k + 25 * c + s / 4 - 21 := by omega
  have he : 4 * n + 274277 =
      146097 * (4 * k + c + 1) + (4 - c + 1460 * s + 4 * (s / 4) + 4 * j) := by omega
  have hq : (4 * n + 274277) / 146097 = 4 * k + c + 1 ∨
      c = 3 ∧ (4 * n + 274277) / 146097 = 4 * k + 5 := by omega
  simp only [centuryCorrection]
  omega

theorem fullCivil_year (n : Int) :
    (fullCivil n).year = marchYear n - if marchDay n < 306 then 4716 else 4715 := by
  simp only [fullCivil, fullYear]
  split <;> omega

theorem isLeftOut_fullCivil_iff : (fullCivil n).IsLeftOut ↔
    marchDay n = 365 ∧ (marchYear n + 85) % 100 = 0 ∧ (marchYear n + 85) % 400 ≠ 0 := by
  have hl := marchDay_le n
  have hy := fullCivil_year n
  have hm := fullCivil_month n
  have hd := fullCivil_day n
  have hb := marchMonth_bounds n
  have he : marchMonth n = (5 * marchDay n + 2) / 153 := rfl
  simp only [Civil.IsLeftOut]
  split at hm
  case isTrue => omega
  case isFalse h =>
    rw [if_neg h] at hy
    omega

-- A day whose Julian date is on the Gregorian calendar too is the namesake of that Gregorian date.
theorem namesake_sub (h : ¬(fullCivil n).IsLeftOut) :
    namesake (n - leftOutBefore (marchYear n)) = n := by
  rw [isLeftOut_fullCivil_iff] at h
  have hn := marchYear_add_marchDay n
  have h₀ := marchDay_nonneg n
  have h₁ := marchDay_le n
  obtain ⟨k, c, s, hc, hs, hy⟩ : ∃ k c s : Int, (0 ≤ c ∧ c ≤ 3) ∧ (0 ≤ s ∧ s ≤ 99) ∧
      marchYear n + 84 = 400 * k + 100 * c + s :=
    ⟨(marchYear n + 84) / 400, (marchYear n + 84) / 100 % 4, (marchYear n + 84) % 100,
      by omega, by omega, by omega⟩
  have hb : leftOutBefore (marchYear n) = 3 * k + c - 38 := by
    simp only [leftOutBefore]
    omega
  have hl : marchDay n = 365 → s = 99 → c = 3 := by omega
  rw [namesake, hb, centuryCorrection_eq hy hc hs ⟨h₀, h₁.1⟩ hl (by omega)]
  omega

-- The correction passes over each leap day that is left out.
theorem not_isLeftOut_namesake (n : Int) : ¬(fullCivil (namesake n)).IsLeftOut := by
  rw [isLeftOut_fullCivil_iff]
  rintro ⟨hj, hy, hy'⟩
  have hn := marchYear_add_marchDay (namesake n)
  obtain ⟨k, c, hc, hm⟩ : ∃ k c : Int, (c = 1 ∨ c = 2 ∨ c = 3) ∧
      marchYear (namesake n) + 85 = 400 * k + 100 * c :=
    ⟨(marchYear (namesake n) + 85) / 400, (marchYear (namesake n) + 85) / 100 % 4,
      by omega, by omega⟩
  have hd : marchYear (namesake n) / 4 = 100 * k + 25 * c - 22 := by omega
  have he : namesake n = 146100 * k + 36525 * c - 32083 := by omega
  simp only [namesake, centuryCorrection] at he
  have hq : (4 * n + 274277) / 146097 = 4 * k + c ∨
      (4 * n + 274277) / 146097 = 4 * k + c + 1 := by omega
  omega

end

section

theorem has_fullGregorian (n : Int) : gregorian.Has (fullGregorian n) :=
  has_gregorian_iff.mpr ⟨has_fullCivil _, not_isLeftOut_namesake n⟩

theorem fullCivil_dayNumber (h : julian.Has d) : fullCivil (julian.dayNumber d) = d :=
  dayNumber_injective (has_fullCivil _) h (dayNumber_fullCivil _)

theorem gregorian_dayNumber_fullCivil (n : Int) :
    gregorian.dayNumber (fullCivil n) = n - leftOutBefore (marchYear n) := by
  have hy := fullCivil_year n
  have hm := fullCivil_month n
  have hb := marchMonth_bounds n
  have he : marchMonth n = (5 * marchDay n + 2) / 153 := rfl
  have hg : gregorian.dayNumber (fullCivil n) = julian.dayNumber (fullCivil n) +
      (((fullCivil n).year + 4800 - (14 - (fullCivil n).month) / 12) / 400 -
        ((fullCivil n).year + 4800 - (14 - (fullCivil n).month) / 12) / 100 + 38) := rfl
  have ha : (fullCivil n).year + 4800 - (14 - (fullCivil n).month) / 12 = marchYear n + 84 := by
    split at hm
    case isTrue h =>
      rw [if_pos h] at hy
      omega
    case isFalse h =>
      rw [if_neg h] at hy
      omega
  rw [hg, dayNumber_fullCivil, ha, leftOutBefore]
  omega

theorem namesake_dayNumber (h : gregorian.Has d) :
    namesake (gregorian.dayNumber d) = julian.dayNumber d := by
  have hl := (has_gregorian_iff.mp h).2
  rw [← fullCivil_dayNumber h.julian] at hl
  have hn := namesake_sub hl
  rwa [← gregorian_dayNumber_fullCivil, fullCivil_dayNumber h.julian] at hn

theorem fullGregorian_dayNumber (h : gregorian.Has d) :
    fullGregorian (gregorian.dayNumber d) = d := by
  rw [fullGregorian, namesake_dayNumber h, fullCivil_dayNumber h.julian]

theorem dayNumber_fullGregorian (n : Int) : gregorian.dayNumber (fullGregorian n) = n := by
  apply namesake_injective
  rw [namesake_dayNumber (has_fullGregorian n), fullGregorian, dayNumber_fullCivil]

theorem gregorian_dayNumber_lt_iff (h : gregorian.Has d) (h' : gregorian.Has d') :
    gregorian.dayNumber d < gregorian.dayNumber d' ↔ d < d' := by
  rw [← namesake_lt_iff, namesake_dayNumber h, namesake_dayNumber h']
  exact dayNumber_lt_iff h.julian h'.julian

theorem gregorian_civil_eq (n : Int) :
    gregorian.civil n = { fullGregorian n with year := wrapYear (fullGregorian n).year } := by
  have hf : n + 1401 + centuryCorrection n = namesake n + 1401 := by
    simp only [namesake]
    omega
  have hc : gregorian.civil n = julian.civil (namesake n) := by simp only [civil, hf]
  rw [hc, civil_eq]
  rfl

-- The next date is the first one behind a date, and so is the date of the next number.
theorem gregorian_dayNumber_next (h : gregorian.Has d) :
    gregorian.dayNumber (gregorian.next d) = gregorian.dayNumber d + 1 := by
  have hn := has_next h
  have hs := has_fullGregorian (gregorian.dayNumber d + 1)
  have he := dayNumber_fullGregorian (gregorian.dayNumber d + 1)
  have hl := (gregorian_dayNumber_lt_iff h hn).mpr (lt_next _ d)
  have hd : d < fullGregorian (gregorian.dayNumber d + 1) :=
    (gregorian_dayNumber_lt_iff h hs).mp (by omega)
  have hu := mt (gregorian_dayNumber_lt_iff hs hn).mp (not_lt_next hs hd)
  omega

end

end Calendar

end Ordo
