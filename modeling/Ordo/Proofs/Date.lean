import Ordo.Proofs.Calendar.Civil

namespace Ordo.Date

open Calendar

-- The year of the date can be held in 32 bits.
def HasYear (d : Date) : Prop :=
  yearStart (-0x80000000) ≤ d.number ∧ d.number < yearStart 0x80000000

-- All ways to make a date, each with the year, month and day that the new date is given.
inductive Made : Civil → Date → Prop
  | julian {c d} : ofJulian c = .ok d → Made c d
  | trusted {c} :
    Calendar.julian.Has c → -0x80000000 ≤ c.year → c.year < 0x80000000 →
    Made c ⟨Calendar.julian.dayNumber c⟩
  | number {d} : d.HasYear → Made d.julian d
  | beforeReform {c d} :
    c < reform → ofGregorian c = .ok d →
    Made (if reformOnJulian < c then reformOnJulian else c) d
  | sinceReform {c d} : ¬c < reform → ofGregorian c = .ok d → Made d.julian d

variable {d d' : Date} {c c' : Civil}

theorem HasYear.julian_eq (h : d.HasYear) : d.julian = fullCivil d.number := by
  obtain ⟨h, h'⟩ := h
  have h₁ := yearStart_fullYear_le d.number
  have h₂ := lt_yearStart_fullYear_succ d.number
  have hy : -0x80000000 ≤ fullYear d.number ∧ fullYear d.number < 0x80000000 := by
    simp only [yearStart_eq] at *
    omega
  rw [julian, civil_eq, wrapYear_eq_self hy.1 hy.2]
  rfl

theorem hasYear_dayNumber (h : Calendar.julian.Has c) (hl : -0x80000000 ≤ c.year)
    (hu : c.year < 0x80000000) : HasYear ⟨Calendar.julian.dayNumber c⟩ := by
  have h₁ := yearStart_le_dayNumber h
  have h₂ := dayNumber_lt_yearStart h
  simp only [HasYear, yearStart_eq] at *
  omega

theorem HasYear.has_julian (h : d.HasYear) : Calendar.julian.Has d.julian :=
  h.julian_eq ▸ has_fullCivil d.number

theorem HasYear.dayNumber_julian (h : d.HasYear) :
    Calendar.julian.dayNumber d.julian = d.number :=
  h.julian_eq ▸ dayNumber_fullCivil d.number

theorem ofJulian_eq_ok_iff : ofJulian c = .ok d ↔
    ((firstYear ≤ c.year ∧ c.year ≤ lastYear) ∧ Calendar.julian.Has c) ∧
      d = ⟨Calendar.julian.dayNumber c⟩ := by
  rw [ofJulian, bind_eq_ok_iff, ← check_eq_ok_iff]
  constructor
  case mp =>
    rintro ⟨_, hc, h⟩
    cases h
    exact ⟨hc, rfl⟩
  case mpr =>
    rintro ⟨hc, rfl⟩
    exact ⟨_, hc, rfl⟩

-- From the reform on, the Gregorian calendar differs by some days from the Julian one.
theorem hasYear_of_ofGregorian (hr : ¬c < reform) (h : ofGregorian c = .ok d) : d.HasYear := by
  obtain ⟨_, hc, h⟩ := bind_eq_ok_iff.mp h
  rw [if_neg hr] at h
  cases h
  obtain ⟨⟨_, hy⟩, hc⟩ := check_eq_ok_iff.mp hc
  obtain ⟨⟨hm, hm'⟩, hd, hd'⟩ := has_iff.mp hc
  have hr : reform.year ≤ c.year := by
    simp only [Civil.lt_iff] at hr
    omega
  have hd' : c.day ≤ 31 := by
    refine Nat.le_trans hd' ?_
    unfold daysIn
    repeat' split
    all_goals decide
  simp only [HasYear, yearStart_eq, dayNumber, reform, lastYear] at *
  omega

theorem julian_dayNumber (h : Calendar.julian.Has c) (hl : -0x80000000 ≤ c.year)
    (hu : c.year < 0x80000000) : julian ⟨Calendar.julian.dayNumber c⟩ = c := by
  have hy := hasYear_dayNumber h hl hu
  exact dayNumber_injective hy.has_julian h hy.dayNumber_julian

theorem hasYear_julian_of_ofJulian (h : ofJulian c = .ok d) : d.HasYear ∧ d.julian = c := by
  obtain ⟨⟨⟨hl, hu⟩, hc⟩, rfl⟩ := ofJulian_eq_ok_iff.mp h
  simp only [firstYear, lastYear] at hl hu
  exact ⟨hasYear_dayNumber hc (by omega) (by omega), julian_dayNumber hc (by omega) (by omega)⟩

namespace Made

-- The year, month and day that a date is given are found again from its number.
theorem hasYear_julian (h : Made c d) : d.HasYear ∧ d.julian = c := by
  cases h
  case julian h         => exact hasYear_julian_of_ofJulian h
  case trusted hc hl hu => exact ⟨hasYear_dayNumber hc hl hu, julian_dayNumber hc hl hu⟩
  case number h         => exact ⟨h, rfl⟩
  case sinceReform hr h => exact ⟨hasYear_of_ofGregorian hr h, rfl⟩
  case beforeReform c hr h =>
    obtain ⟨_, _, h⟩ := bind_eq_ok_iff.mp h
    rw [if_pos hr] at h
    exact hasYear_julian_of_ofJulian h

theorem has (h : Made c d) : Calendar.julian.Has c := by
  obtain ⟨hy, rfl⟩ := h.hasYear_julian
  exact hy.has_julian

theorem number_eq (h : Made c d) : d.number = Calendar.julian.dayNumber c := by
  obtain ⟨hy, rfl⟩ := h.hasYear_julian
  exact hy.dayNumber_julian.symm

theorem lt_iff (h : Made c d) (h' : Made c' d') : d < d' ↔ c < c' := by
  rw [← dayNumber_lt_iff h.has h'.has, ← h.number_eq, ← h'.number_eq]
  rfl

theorem number_eq_iff (h : Made c d) (h' : Made c' d') : d.number = d'.number ↔ c = c' := by
  rw [h.number_eq, h'.number_eq]
  exact ⟨dayNumber_injective h.has h'.has, congrArg _⟩

end Made

theorem addDays_daysSince (d d' : Date) : d.addDays (d'.daysSince d) = d' := by
  simp [addDays, daysSince]

-- Dates and day numbers correspond to each other, and in the same order.
theorem made_correspondence :
    (∀ d : Date, d.HasYear →
      Calendar.julian.Has d.julian ∧ Calendar.julian.dayNumber d.julian = d.number) ∧
    (∀ c d, Made c d → d.number = Calendar.julian.dayNumber c ∧ julian ⟨d.number⟩ = c) ∧
    (∀ c c' d d', Made c d → Made c' d' →
      (d < d' ↔ c < c') ∧ (d.number = d'.number ↔ c = c') ∧ (d = d' ↔ c = c') ∧
        d.addDays (d'.daysSince d) = d' ∧ (d.addDays (d'.daysSince d)).julian = c') := by
  refine ⟨fun d h => ⟨h.has_julian, h.dayNumber_julian⟩,
    fun c d h => ⟨h.number_eq, h.hasYear_julian.2⟩, fun c c' d d' h h' => ?_⟩
  have hn := h.number_eq_iff h'
  have he : d = d' ↔ d.number = d'.number := by rw [mk.injEq]
  rw [addDays_daysSince]
  exact ⟨h.lt_iff h', hn, he.trans hn, rfl, h'.hasYear_julian.2⟩

-- A leap day before our era, and the date that the days dropped by the reform count as.
theorem made_correspondence_leapDay :
    let leap : Civil := ⟨-4, 2, 29⟩
    let d : Date := ⟨1719656⟩
    let d' : Date := ⟨2299161⟩
    d.HasYear ∧ Made leap d ∧ Made reformOnJulian d' ∧ Calendar.julian.Has leap ∧
      julian ⟨d.number⟩ = leap ∧ (d < d' ↔ leap < reformOnJulian) ∧
      (d.addDays (d'.daysSince d)).julian = reformOnJulian := by
  intro leap d d'
  have hy : d.HasYear := ⟨by decide, by decide⟩
  have h : Made leap d := .julian (toOption_eq_some_iff.mp (by decide))
  have h' : Made reformOnJulian d' :=
    .beforeReform (c := ⟨1582, 10, 10⟩) (by decide) (toOption_eq_some_iff.mp (by decide))
  obtain ⟨hc, hj, ho⟩ := made_correspondence
  obtain ⟨hl, _, _, _, ha⟩ := ho _ _ _ _ h h'
  obtain ⟨_, hj⟩ := hj _ _ h
  have hd : d.julian = leap := hj
  exact ⟨hy, h, h', hd ▸ (hc d hy).1, hj, hl, ha⟩

end Ordo.Date
