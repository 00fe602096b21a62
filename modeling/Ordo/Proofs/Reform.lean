import Ordo.Proofs.Calendar.Gregorian
import Ordo.Proofs.Date

namespace Ordo

-- The dates that name the same day on both calendars.
def Civil.InStep (c : Civil) : Prop :=
  ¬c < ⟨200, 3, 1⟩ ∧ ¬⟨300, 2, 28⟩ < c

namespace Calendar

variable {c : Civil}

-- The calendars reject the same dates in the same way, but for the leap days left out.
theorem check_gregorian_eq (h : ¬(firstYear ≤ c.year ∧ c.IsLeftOut)) :
    gregorian.check c = julian.check c := by
  by_cases hl : firstYear ≤ c.year
  case neg => simp [check, hl, throw, throwThe, MonadExceptOf.throw, bind, Except.bind]
  case pos =>
    have hd : c.day ≤ gregorian.daysIn c.year c.month ↔ c.day ≤ julian.daysIn c.year c.month := by
      by_cases hm : c.month = 2
      case neg => rw [gregorian_daysIn hm]
      case pos =>
        rw [hm, gregorian_daysIn_two]
        split
        case isFalse => exact .rfl
        case isTrue hc =>
          have hn : c.day ≠ 29 := fun hd => h ⟨hl, hm, hd, hc⟩
          rw [daysIn_two, if_pos (by omega)]
          omega
    simp only [check, hd]

theorem check_of_isLeftOut (h : c.IsLeftOut) (hl : firstYear ≤ c.year) (hu : c.year ≤ lastYear) :
    julian.check c = .ok () ∧ gregorian.check c = .error (.invalidDay c) := by
  obtain ⟨hm, hd, hc⟩ := h
  have hj : julian.daysIn c.year 2 = 29 := by rw [daysIn_two, if_pos (by omega)]
  have hg : gregorian.daysIn c.year 2 = 28 := by rw [gregorian_daysIn_two, if_pos hc]
  constructor
  case left =>
    refine check_eq_ok_iff.mpr ⟨⟨hl, hu⟩, has_iff.mpr ?_⟩
    rw [hm, hd, hj]
    decide
  case right => simp [check, hm, hd, hg, hl, hu, throw, throwThe, MonadExceptOf.throw]

-- The full year is the wrapped one if they differ by less than all that 32 bits can hold.
theorem eq_of_wrapYear_eq {y y' : Int} (h : wrapYear y = y') (hl : -0x100000000 < y - y')
    (hu : y - y' < 0x100000000) : y = y' := by
  rw [wrapYear, Int.bmod_def] at h
  split at h <;> omega

theorem centuryCorrection_eq_zero_iff (h : julian.Has c) :
    centuryCorrection (julian.dayNumber c) = 0 ↔ c.InStep := by
  have hf : julian.Has ⟨200, 3, 1⟩ := ⟨by decide, by decide⟩
  have ht : julian.Has ⟨300, 2, 28⟩ := ⟨by decide, by decide⟩
  have hl := dayNumber_lt_iff h hf
  have hu := dayNumber_lt_iff ht h
  have hl' : julian.dayNumber ⟨200, 3, 1⟩ = 1794168 := by decide
  have hu' : julian.dayNumber ⟨300, 2, 28⟩ = 1830691 := by decide
  rw [Civil.InStep, ← hl, ← hu, hl', hu', centuryCorrection]
  omega

end Calendar

namespace Date

open Calendar

-- The Julian date that a date from before the reform is taken as.
def takenAs (c : Civil) : Civil :=
  if reformOnJulian < c then reformOnJulian else c

-- Whether the day lies in a year of the Gregorian calendar.
def InGregorianYear (d : Date) (year : Int) : Prop :=
  Calendar.gregorian.dayNumber ⟨year, 1, 1⟩ ≤ d.number ∧
    d.number < Calendar.gregorian.dayNumber ⟨year + 1, 1, 1⟩

-- Where a date lies to the reform, and the day that it is made into. The first Gregorian date, the
-- Julian one that it took the place of and all dates between them are the same day.
inductive FallsOn (c : Civil) (d : Date) : Prop
  | before :
    c < reformOnJulian → Calendar.julian.Has c → d.number = Calendar.julian.dayNumber c →
    FallsOn c d
  | dropped :
    ¬c < reformOnJulian → ¬reform < c → d.number = Calendar.gregorian.dayNumber reform →
    FallsOn c d
  | after :
    reform < c → Calendar.gregorian.Has c → d.number = Calendar.gregorian.dayNumber c →
    FallsOn c d

variable {c c' : Civil} {d d' : Date} {year : Int}

theorem takenAs_eq_self (h : ¬reformOnJulian < c) : takenAs c = c :=
  if_neg h

theorem takenAs_eq_reformOnJulian (h : ¬c < reformOnJulian) : takenAs c = reformOnJulian := by
  rw [takenAs]
  split
  case isTrue     => rfl
  case isFalse h' => exact Civil.eq_of_not_lt h h'

theorem has_reform : Calendar.gregorian.Has reform :=
  ⟨by decide, by decide⟩

theorem has_reformOnJulian : Calendar.julian.Has reformOnJulian :=
  ⟨by decide, by decide⟩

theorem dayNumber_reform :
    Calendar.julian.dayNumber reformOnJulian = Calendar.gregorian.dayNumber reform := by
  decide

theorem dayNumber_lt_reform_iff (h : Calendar.julian.Has c) :
    Calendar.julian.dayNumber c < Calendar.gregorian.dayNumber reform ↔ c < reformOnJulian := by
  rw [← dayNumber_reform]
  exact dayNumber_lt_iff h has_reformOnJulian

section

-- A date that the reform did not drop is taken as itself.
theorem ofGregorian_eq (h : c < reformOnJulian) :
    ofGregorian c = Calendar.gregorian.check c >>= fun _ => ofJulian c := by
  have hr : c < reform := Civil.lt_trans h (by decide)
  rw [ofGregorian, if_pos hr, if_neg (Civil.lt_asymm h)]

theorem ofJulian_eq (c : Civil) : ofJulian c = Calendar.julian.check c >>= fun _ => ofJulian c := by
  rw [ofJulian]
  cases Calendar.julian.check c
  case error => rfl
  case ok    => rfl

-- Before the reform a date is made as the Julian one, and fails as that does, except for the leap
-- days left out, which the Julian calendar has.
theorem ofGregorian_eq_ofJulian_iff (h : c < reformOnJulian) :
    (ofGregorian c = ofJulian c ↔ ¬(firstYear ≤ c.year ∧ c.IsLeftOut)) ∧
    (firstYear ≤ c.year → c.IsLeftOut →
      ofJulian c = .ok ⟨Calendar.julian.dayNumber c⟩ ∧ ofGregorian c = .error (.invalidDay c)) := by
  have hu : c.year ≤ lastYear := by
    simp only [Civil.lt_iff, reformOnJulian, lastYear] at *
    omega
  have hl (hy : firstYear ≤ c.year) (hl : c.IsLeftOut) :
      ofJulian c = .ok ⟨Calendar.julian.dayNumber c⟩ ∧ ofGregorian c = .error (.invalidDay c) := by
    obtain ⟨hj, hg⟩ := check_of_isLeftOut hl hy hu
    rw [ofGregorian_eq h, hg]
    exact ⟨ofJulian_eq_ok_iff.mpr ⟨check_eq_ok_iff.mp hj, rfl⟩, rfl⟩
  refine ⟨⟨?mp, ?mpr⟩, hl⟩
  case mp =>
    rintro he ⟨hy, hd⟩
    obtain ⟨hj, hg⟩ := hl hy hd
    cases hj.symm.trans (he.symm.trans hg)
  case mpr =>
    intro hd
    rw [ofGregorian_eq h, check_gregorian_eq hd, ← ofJulian_eq]

-- A leap day of both calendars, and one of the Julian calendar only.
theorem ofGregorian_eq_ofJulian_leapDays :
    let kept : Civil := ⟨1200, 2, 29⟩
    let leftOut : Civil := ⟨1300, 2, 29⟩
    kept < reformOnJulian ∧ ¬kept.IsLeftOut ∧ ofGregorian kept = ofJulian kept ∧
      leftOut < reformOnJulian ∧ leftOut.IsLeftOut ∧
      ofGregorian leftOut = .error (.invalidDay leftOut) := by
  intro kept leftOut
  have hk : kept < reformOnJulian := by decide
  have hl : leftOut < reformOnJulian := by decide
  have hk' : ¬kept.IsLeftOut := by decide
  have hl' : leftOut.IsLeftOut := by decide
  exact ⟨hk, hk', (ofGregorian_eq_ofJulian_iff hk).1.mpr fun h => hk' h.2, hl, hl',
    ((ofGregorian_eq_ofJulian_iff hl).2 (by decide) hl').2⟩

theorem ofGregorian_ne_ofJulian :
    let c : Civil := ⟨1500, 2, 29⟩
    c < reformOnJulian ∧ ofJulian c = .ok ⟨2268992⟩ ∧ ofGregorian c = .error (.invalidDay c) ∧
      ofGregorian c ≠ ofJulian c := by
  intro c
  have hj : ofJulian c = .ok ⟨2268992⟩ := toOption_eq_some_iff.mp (by decide)
  have hg : ofGregorian c = .error (.invalidDay c) := errorOf?_eq_some_iff.mp (by decide)
  refine ⟨by decide, hj, hg, ?_⟩
  rw [hj, hg]
  exact nofun

end

section

theorem ofGregorian_of_before (hr : c < reform) : ofGregorian c = .ok d ↔
    ((firstYear ≤ c.year ∧ c.year ≤ lastYear) ∧ Calendar.gregorian.Has c) ∧
      d = ⟨Calendar.julian.dayNumber (takenAs c)⟩ := by
  rw [ofGregorian, if_pos hr, bind_eq_ok_iff, ← check_eq_ok_iff]
  constructor
  case mp =>
    rintro ⟨_, hc, h⟩
    exact ⟨hc, (ofJulian_eq_ok_iff.mp h).2⟩
  case mpr =>
    rintro ⟨hc, rfl⟩
    obtain ⟨hy, hg⟩ := check_eq_ok_iff.mp hc
    refine ⟨_, hc, ofJulian_eq_ok_iff.mpr ⟨?_, rfl⟩⟩
    split
    case isTrue  => exact ⟨by decide, has_reformOnJulian⟩
    case isFalse => exact ⟨hy, hg.julian⟩

theorem HasYear.fullYear_bounds (h : d.HasYear) :
    -0x80000000 ≤ fullYear d.number ∧ fullYear d.number < 0x80000000 := by
  obtain ⟨h, h'⟩ := h
  have h₁ := yearStart_fullYear_le d.number
  have h₂ := lt_yearStart_fullYear_succ d.number
  simp only [yearStart_eq] at *
  omega

theorem HasYear.namesake_bounds (h : d.HasYear) :
    -0x100000000 < fullYear (namesake d.number) - fullYear d.number ∧
      fullYear (namesake d.number) - fullYear d.number < 0x100000000 := by
  obtain ⟨h, h'⟩ := h.fullYear_bounds
  have h₁ := yearStart_fullYear_le d.number
  have h₂ := lt_yearStart_fullYear_succ d.number
  have h₃ := yearStart_fullYear_le (namesake d.number)
  have h₄ := lt_yearStart_fullYear_succ (namesake d.number)
  simp only [namesake, centuryCorrection, yearStart_eq] at *
  omega

theorem fullGregorian_eq_fullCivil_iff {n : Int} :
    fullGregorian n = fullCivil n ↔ centuryCorrection n = 0 := by
  constructor
  case mp =>
    intro h
    have hn := congrArg Calendar.julian.dayNumber h
    rw [fullGregorian, dayNumber_fullCivil, dayNumber_fullCivil, namesake] at hn
    omega
  case mpr =>
    intro h
    rw [fullGregorian, namesake, h, Int.add_zero]

-- A year that is wrapped is far from that on the Julian calendar, so it does not make a difference.
theorem HasYear.gregorian_eq_julian_iff (h : d.HasYear) :
    d.gregorian = d.julian ↔ centuryCorrection d.number = 0 := by
  rw [← fullGregorian_eq_fullCivil_iff, h.julian_eq, gregorian, gregorian_civil_eq]
  constructor
  case mp =>
    intro he
    have hw : wrapYear (fullGregorian d.number).year = (fullCivil d.number).year :=
      congrArg Civil.year he
    have hy := eq_of_wrapYear_eq hw h.namesake_bounds.1 h.namesake_bounds.2
    calc fullGregorian d.number
      _ = { fullGregorian d.number with year := wrapYear (fullGregorian d.number).year } := by
        rw [hw, ← hy]
      _ = fullCivil d.number := he
  case mpr =>
    intro he
    have hw : wrapYear (fullCivil d.number).year = (fullCivil d.number).year :=
      wrapYear_eq_self h.fullYear_bounds.1 h.fullYear_bounds.2
    rw [he, hw]

theorem lt_reform_of_inStep (h : c.InStep) : c < reformOnJulian := by
  have hu := h.2
  simp only [Civil.lt_iff, reformOnJulian] at *
  omega

theorem Made.gregorian_eq_iff (h : Made c d) : d.gregorian = c ↔ c.InStep := by
  obtain ⟨hy, hj⟩ := h.hasYear_julian
  rw [← centuryCorrection_eq_zero_iff h.has, ← h.number_eq, ← hy.gregorian_eq_julian_iff, hj]

-- What is read of a day is its Gregorian date, also before the reform. So the Julian date comes back
-- only in the century in which both calendars are in step.
theorem gregorian_eq_iff_inStep (c : Civil) (d : Date) :
    (Made c d → (d.gregorian = c ↔ c.InStep) ∧
      ∃ g, Calendar.gregorian.Has g ∧ Calendar.gregorian.dayNumber g = d.number ∧
        d.gregorian = { g with year := wrapYear g.year }) ∧
    (c < reform → ofGregorian c = .ok d → (d.gregorian = c ↔ c.InStep)) := by
  constructor
  case left =>
    intro h
    exact ⟨h.gregorian_eq_iff, fullGregorian d.number, has_fullGregorian _,
      dayNumber_fullGregorian _, gregorian_civil_eq _⟩
  case right =>
    intro hr h
    have hm : Made (takenAs c) d := .beforeReform hr h
    by_cases hc : c < reformOnJulian
    case pos => exact takenAs_eq_self (Civil.lt_asymm hc) ▸ hm.gregorian_eq_iff
    case neg =>
      have hg : d.gregorian = reform := by
        rw [((ofGregorian_of_before hr).mp h).2, takenAs_eq_reformOnJulian hc]
        decide
      refine iff_of_false ?_ ?_
      · rw [hg]
        rintro rfl
        exact absurd hr (by decide)
      · exact fun hs => hc (lt_reform_of_inStep hs)

-- The last day before the calendars get out of step, and the first one behind it.
theorem gregorian_eq_iff_inStep_leapDay :
    let last : Civil := ⟨300, 2, 28⟩
    let leap : Civil := ⟨300, 2, 29⟩
    let d : Date := ⟨1830691⟩
    let d' : Date := ⟨1830692⟩
    last < reform ∧ ofGregorian last = .ok d ∧ d.gregorian = last ∧
      Made leap d' ∧ d'.gregorian ≠ leap := by
  intro last leap d d'
  have hr : last < reform := by decide
  have h : ofGregorian last = .ok d := toOption_eq_some_iff.mp (by decide)
  have h' : Made leap d' := .julian (toOption_eq_some_iff.mp (by decide))
  have hs : last.InStep := ⟨by decide, by decide⟩
  have hs' : ¬leap.InStep := fun hs => hs.2 (by decide)
  exact ⟨hr, h, ((gregorian_eq_iff_inStep last d).2 hr h).mpr hs, h',
    mt ((gregorian_eq_iff_inStep leap d').1 h').1.mp hs'⟩

theorem gregorian_ne_before_reform :
    let c : Civil := ⟨1500, 1, 1⟩
    let d : Date := ⟨2268933⟩
    c < reformOnJulian ∧ ofJulian c = .ok d ∧ ofGregorian c = .ok d ∧
      d.gregorian = ⟨1500, 1, 10⟩ ∧ d.gregorian ≠ c := by
  exact ⟨by decide, toOption_eq_some_iff.mp (by decide), toOption_eq_some_iff.mp (by decide),
    by decide, by decide⟩

end

section

theorem InGregorianYear.eq (h : d.InGregorianYear year) : (fullGregorian d.number).year = year := by
  have hs (year : Int) : Calendar.gregorian.Has ⟨year, 1, 1⟩ :=
    has_first _ year (Nat.le_refl 1) (by decide)
  have hg := has_fullGregorian d.number
  obtain ⟨h₁, h₂⟩ := h
  rw [← dayNumber_fullGregorian d.number] at h₁ h₂
  have h₁ := mt (gregorian_dayNumber_lt_iff hg (hs year)).mpr (Int.not_lt.mpr h₁)
  have h₂ := (gregorian_dayNumber_lt_iff hg (hs (year + 1))).mp h₂
  have hm := hg.month.1
  have hd := hg.day.1
  simp only [Civil.lt_iff] at h₁ h₂
  omega

theorem year_of_since (hr : ¬c < reform) : 1582 ≤ c.year := by
  simp only [Civil.lt_iff, reform] at hr
  omega

theorem ofGregorian_of_since (hr : ¬c < reform) : ofGregorian c = .ok d ↔
    (c.year ≤ lastYear ∧ Calendar.gregorian.Has c) ∧ d = ⟨Calendar.gregorian.dayNumber c⟩ := by
  have hl : firstYear ≤ c.year := by
    have := year_of_since hr
    simp only [firstYear]
    omega
  have hc : Calendar.gregorian.check c = .ok () ↔ c.year ≤ lastYear ∧ Calendar.gregorian.Has c := by
    rw [check_eq_ok_iff, and_iff_right hl]
  rw [ofGregorian, if_neg hr, bind_eq_ok_iff, ← hc]
  constructor
  case mp =>
    rintro ⟨_, hc, h⟩
    cases h
    exact ⟨hc, rfl⟩
  case mpr =>
    rintro ⟨hc, rfl⟩
    exact ⟨_, hc, rfl⟩

theorem gregorian_eq_fullGregorian (hr : Calendar.gregorian.dayNumber reform ≤ d.number)
    (hu : (fullGregorian d.number).year ≤ lastYear) :
    d.gregorian = fullGregorian d.number ∧ ¬fullGregorian d.number < reform := by
  have hn : ¬fullGregorian d.number < reform := by
    rw [← gregorian_dayNumber_lt_iff (has_fullGregorian _) has_reform, dayNumber_fullGregorian]
    exact Int.not_lt.mpr hr
  have hl := year_of_since hn
  simp only [lastYear] at hu
  rw [gregorian, gregorian_civil_eq, wrapYear_eq_self (by omega) (by omega)]
  exact ⟨rfl, hn⟩

theorem gregorian_dayNumber (hr : ¬c < reform) (hu : c.year ≤ lastYear)
    (h : Calendar.gregorian.Has c) : gregorian ⟨Calendar.gregorian.dayNumber c⟩ = c := by
  have hn : Calendar.gregorian.dayNumber reform ≤ Calendar.gregorian.dayNumber c :=
    Int.not_lt.mp (mt (gregorian_dayNumber_lt_iff h has_reform).mp hr)
  have hc := fullGregorian_dayNumber h
  have hg := gregorian_eq_fullGregorian (d := ⟨Calendar.gregorian.dayNumber c⟩) hn
    (le_of_eq_of_le (congrArg Civil.year hc) hu)
  exact hg.1.trans hc

theorem fallsOn_of_ofGregorian (h : ofGregorian c = .ok d) : FallsOn c d := by
  by_cases hr : c < reform
  case pos =>
    obtain ⟨⟨_, hg⟩, rfl⟩ := (ofGregorian_of_before hr).mp h
    by_cases hl : c < reformOnJulian
    case pos => exact .before hl hg.julian (by rw [takenAs_eq_self (Civil.lt_asymm hl)])
    case neg =>
      refine .dropped hl (Civil.lt_asymm hr) ?_
      rw [takenAs_eq_reformOnJulian hl, dayNumber_reform]
  case neg =>
    obtain ⟨⟨_, hg⟩, rfl⟩ := (ofGregorian_of_since hr).mp h
    rcases c.lt_trichotomy reform with hl | rfl | hl
    case inl     => exact absurd hl hr
    case inr.inl => exact .dropped (by decide) (by decide) rfl
    case inr.inr => exact .after hl hg rfl

theorem FallsOn.number_lt_or (h : FallsOn c d) (h' : FallsOn c' d') (hl : c < c') :
    d.number < d'.number ∨ d.number = d'.number ∧ ¬c < reformOnJulian ∧ ¬reform < c' := by
  rcases h with ⟨hc, hj, hn⟩ | ⟨hc, _, hn⟩ | ⟨hc, hg, hn⟩
  all_goals rcases h' with ⟨hc', hj', hn'⟩ | ⟨_, hc', hn'⟩ | ⟨hc', hg', hn'⟩
  all_goals rw [hn, hn']
  case before.before   => exact .inl ((dayNumber_lt_iff hj hj').mpr hl)
  case before.dropped  => exact .inl ((dayNumber_lt_reform_iff hj).mpr hc)
  case before.after    =>
    exact .inl (Int.lt_trans ((dayNumber_lt_reform_iff hj).mpr hc)
      ((gregorian_dayNumber_lt_iff has_reform hg').mpr hc'))
  case dropped.before  => exact absurd (Civil.lt_trans hl hc') hc
  case dropped.dropped => exact .inr ⟨rfl, hc, hc'⟩
  case dropped.after   => exact .inl ((gregorian_dayNumber_lt_iff has_reform hg').mpr hc')
  case after.before    =>
    have hr : reform < reformOnJulian := Civil.lt_trans hc (Civil.lt_trans hl hc')
    exact absurd hr (by decide)
  case after.dropped   => exact absurd (Civil.lt_trans hc hl) hc'
  case after.after     => exact .inl ((gregorian_dayNumber_lt_iff hg hg').mpr hl)

-- From the reform on, dates and days correspond to each other, and the next date is that of the next
-- day. A later date is never made into an earlier day, and into the same day only among the days
-- that the reform dropped.
theorem ofGregorian_correspondence :
    (∀ c, ¬c < reform → c.year ≤ lastYear → Calendar.gregorian.Has c →
      ∃ d, ofGregorian c = .ok d ∧ d.gregorian = c) ∧
    (∀ c d year, Made c d → ¬c < reformOnJulian → d.InGregorianYear year → year ≤ lastYear →
      d.gregorian.year = year ∧ ofGregorian d.gregorian = .ok d ∧ d.julian = c) ∧
    (∀ c, ¬c < reform → (Calendar.gregorian.next c).year ≤ lastYear → Calendar.gregorian.Has c →
      ∃ d, ofGregorian c = .ok d ∧ ofGregorian (Calendar.gregorian.next c) = .ok (d.addDays 1)) ∧
    (∀ c c' d d', ofGregorian c = .ok d → ofGregorian c' = .ok d' → c < c' →
      d.number < d'.number ∨
        d.number = d'.number ∧ ¬c < reformOnJulian ∧ ¬reform < c') := by
  refine ⟨?made, ?read, ?next, ?order⟩
  case made =>
    intro c hr hu hg
    exact ⟨_, (ofGregorian_of_since hr).mpr ⟨⟨hu, hg⟩, rfl⟩, gregorian_dayNumber hr hu hg⟩
  case read =>
    intro c d year h hr hy hu
    have hn : Calendar.gregorian.dayNumber reform ≤ d.number := by
      rw [h.number_eq]
      exact Int.not_lt.mp (mt (dayNumber_lt_reform_iff h.has).mp hr)
    have hy := hy.eq
    obtain ⟨hg, hc⟩ := gregorian_eq_fullGregorian hn (hy ▸ hu)
    rw [hg]
    refine ⟨hy, (ofGregorian_of_since hc).mpr ⟨⟨hy ▸ hu, has_fullGregorian _⟩, ?_⟩,
      h.hasYear_julian.2⟩
    rw [dayNumber_fullGregorian]
  case next =>
    intro c hr hu hg
    have hn := lt_next Calendar.gregorian c
    have hr' : ¬Calendar.gregorian.next c < reform := fun h => hr (Civil.lt_trans hn h)
    have hu' : c.year ≤ lastYear := by
      rw [Civil.lt_iff] at hn
      omega
    refine ⟨_, (ofGregorian_of_since hr).mpr ⟨⟨hu', hg⟩, rfl⟩,
      (ofGregorian_of_since hr').mpr ⟨⟨hu, has_next hg⟩, ?_⟩⟩
    rw [gregorian_dayNumber_next hg]
    rfl
  case order =>
    intro c c' d d' h h' hl
    exact (fallsOn_of_ofGregorian h).number_lt_or (fallsOn_of_ofGregorian h') hl

-- Around a leap day left out, on a Julian leap day, and at the days that the reform dropped.
theorem ofGregorian_correspondence_1900 :
    let last : Civil := ⟨1900, 2, 28⟩
    let first : Civil := ⟨1900, 3, 1⟩
    let leap : Civil := ⟨1900, 2, 29⟩
    let d : Date := ⟨2415092⟩
    ¬last < reform ∧ Calendar.gregorian.Has last ∧ Calendar.gregorian.next last = first ∧
      (∃ d, ofGregorian last = .ok d ∧ d.gregorian = last) ∧
      (∃ d, ofGregorian last = .ok d ∧ ofGregorian first = .ok (d.addDays 1)) ∧
      Made leap d ∧ ¬leap < reformOnJulian ∧ d.InGregorianYear 1900 ∧
      ofGregorian d.gregorian = .ok d ∧ d.julian = leap ∧
      ∃ d d', ofGregorian ⟨1582, 10, 4⟩ = .ok d ∧ ofGregorian ⟨1582, 10, 10⟩ = .ok d' ∧
        d.number < d'.number := by
  intro last first leap d
  obtain ⟨made, read, next, order⟩ := ofGregorian_correspondence
  have hr : ¬last < reform := by decide
  have hg : Calendar.gregorian.Has last := ⟨by decide, by decide⟩
  have hm : Made leap d := .julian (toOption_eq_some_iff.mp (by decide))
  have hl : ¬leap < reformOnJulian := by decide
  have hy : d.InGregorianYear 1900 := ⟨by decide, by decide⟩
  obtain ⟨_, ho, hj⟩ := read leap d 1900 hm hl hy (by decide)
  have h : ofGregorian ⟨1582, 10, 4⟩ = .ok ⟨2299160⟩ := toOption_eq_some_iff.mp (by decide)
  have h' : ofGregorian ⟨1582, 10, 10⟩ = .ok ⟨2299161⟩ := toOption_eq_some_iff.mp (by decide)
  have hlt := (order _ _ _ _ h h' (by decide)).resolve_right fun he => he.2.1 (by decide)
  exact ⟨hr, hg, by decide, made last hr (by decide) hg, next last hr (by decide) hg, hm, hl, hy, ho,
    hj, _, _, h, h', hlt⟩

end

end Date

end Ordo
