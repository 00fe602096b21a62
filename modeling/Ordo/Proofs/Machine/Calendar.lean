import Ordo.Proofs.Calendar.Ordinal
import Ordo.Proofs.Number.Word

namespace Ordo.Machine

open Word Calendar

-- The year, the month and the day of a date.
structure Fields where
  year  : Signed32
  month : Unsigned32
  day   : Unsigned32

structure Day extends Fields where
  number : Signed64

def Fields.hold (d : Civil) : Fields :=
  ⟨.hold d.year, .hold d.month, .hold d.day⟩

def Day.hold (d : Date) : Day :=
  { Fields.hold d.julian with number := .hold d.number }

structure Fields.Are (x : Fields) (d : Civil) : Prop where
  year  : x.year.Is d.year
  month : x.month.Is d.month
  day   : x.day.Is d.day

structure Day.Is (x : Day) (d : Date) : Prop where
  number : x.number.Is d.number
  fields : x.toFields.Are d.julian

def isLeapYear (year : Signed32) : Calendar → Option Bool
  | julian => do
    let inFour ← (year.emod 4).value?
    return inFour = 0
  | gregorian => do
    let inFour ← (year.emod 4).value?
    let inCentury ← (year.emod 100).value?
    let inCycle ← (year.emod 400).value?
    return (inFour = 0 && inCentury ≠ 0) || inCycle = 0

def daysIn (c : Calendar) (year : Signed32) (month : Nat) : Option Nat := do
  let isLeap ← isLeapYear year c
  return match month with
    | 2 => if isLeap then 29 else 28
    | 4 | 6 | 9 | 11 => 30
    | _ => 31

def check (c : Calendar) (d : Civil) : Option Unit := do
  guard (firstYear ≤ d.year ∧ d.year ≤ lastYear)
  guard (1 ≤ d.month ∧ d.month ≤ 12)
  let days ← daysIn c (.hold d.year) d.month
  guard (1 ≤ d.day ∧ d.day ≤ days)

def dayNumber (c : Calendar) (d : Fields) : Signed64 :=
  let year : Signed64 := d.year.cast
  let month : Signed64 := d.month.cast
  let day : Signed64 := d.day.cast
  let early := (14 - month) / 12
  let y := year + 4800 - early
  let m := month + 12 * early - 3
  let days := day + (153 * m + 2) / 5 + 365 * y + y.ediv 4 - 32083
  match c with
  | julian    => days
  | gregorian => days + (y.ediv 400 - y.ediv 100 + 38)

def centuryCorrection (n : Signed64) : Signed64 :=
  ((4 * n + 274277).ediv 146097 * 3).ediv 4 - 38

def fields (c : Calendar) (n : Signed64) : Fields :=
  let f :=
    match c with
    | julian    => n + 1401
    | gregorian => n + 1401 + centuryCorrection n
  let e := 4 * f + 3
  let h := 5 * (e.emod 1461).ediv 4 + 2
  let month := (h.ediv 153 + 2).emod 12 + 1
  {
    year  := (e.ediv 1461 - 4716 + (14 - month).ediv 12).cast
    month := month.cast
    day   := ((h.emod 153).ediv 5 + 1).cast
  }

namespace Day

def ofFields (d : Fields) : Day :=
  { d with number := dayNumber .julian d }

def ofNumber (n : Signed64) : Day :=
  { fields .julian n with number := n }

def ofJulian (d : Civil) : Option Day := do
  check .julian d
  return ofFields (.hold d)

def ofGregorian (d : Civil) : Option Day := do
  check .gregorian d
  if d < Date.reform then
    ofJulian (if Date.reformOnJulian < d then Date.reformOnJulian else d)
  else
    return ofNumber (dayNumber .gregorian (.hold d))

def gregorian (d : Day) : Fields :=
  fields .gregorian d.number

def weekday (d : Day) : Unsigned32 :=
  ((d.number + 1).emod 7).cast

def ordinal (d : Day) : Unsigned32 :=
  if d.month = 2 ∧ d.day = 29 then 366
  else .ofNat? ((d.month - 1).entry Date.daysBeforeMonth) + d.day - 1

def addDays (d : Day) (days : Signed64) : Day :=
  ofNumber (d.number + days)

def daysSince (d d' : Day) : Signed64 :=
  d.number - d'.number

end Day

section

variable {d : Civil} {n : Int}

theorem dayNumber_hold (c : Calendar) (hy : -1000001 ≤ d.year) (hy' : d.year ≤ 1000001)
    (hm : 1 ≤ d.month) (hm' : d.month ≤ 12) (hd : d.day ≤ 31) :
    dayNumber c (.hold d) = .hold (c.dayNumber d) := by
  simp (disch := omega) only [dayNumber, Fields.hold, cast_hold, ofNat_eq, hold_add, hold_sub,
    hold_mul, hold_div, hold_ediv]
  cases c
  case julian    => rfl
  case gregorian => rfl

section

variable (h : -400000000 ≤ n) (h' : n ≤ 400000000)

include h h'

theorem centuryCorrection_bounds :
    -10000000 ≤ Calendar.centuryCorrection n ∧ Calendar.centuryCorrection n ≤ 10000000 := by
  simp only [Calendar.centuryCorrection]
  omega

theorem centuryCorrection_hold :
    centuryCorrection (.hold n) = .hold (Calendar.centuryCorrection n) := by
  simp (disch := omega) only [centuryCorrection, ofNat_eq, hold_add, hold_sub, hold_mul, hold_ediv]
  rfl

-- The year is not cut, so that it is the same as in unbounded numbers.
theorem fields_hold (c : Calendar) : fields c (.hold n) = .hold (c.civil n) := by
  have hc := centuryCorrection_bounds h h'
  cases c
  all_goals
    simp (disch := omega) only [fields, Fields.hold, civil, centuryCorrection_hold, cast_hold,
      ofNat_eq, hold_add, hold_sub, hold_mul, hold_ediv, hold_emod, wrapYear_eq_self,
      Int.toNat_of_nonneg]

end

theorem wrapYear_bounds (year : Int) :
    -0x80000000 ≤ wrapYear year ∧ wrapYear year ≤ 0x7FFFFFFF := by
  have h : -(0x100000000 / 2) ≤ wrapYear year := Int.le_bmod (by decide)
  have h' : wrapYear year < (0x100000000 + 1) / 2 := Int.bmod_lt (by decide)
  omega

theorem are_hold_civil (c : Calendar) (n : Int) : (Fields.hold (c.civil n)).Are (c.civil n) := by
  constructor
  case year => exact is_hold_iff.mpr (wrapYear_bounds _)
  all_goals
    rw [Fields.hold, is_hold_iff]
    simp only [civil]
    omega

theorem value?_emod {year k : Int} (h : -1000001 ≤ year) (h' : year ≤ 1000001) (hk : 0 < k)
    (hk' : k ≤ 400) : ((hold year : Signed32).emod (hold k)).value? = some (year % k) := by
  have hl := Int.emod_nonneg year (show k ≠ 0 by omega)
  have hu := Int.emod_lt_of_pos year hk
  rw [hold_emod (by omega) (by omega) hk (by omega) (by decide)]
  exact is_hold_iff.mpr (by omega)

theorem isLeapYear_hold (c : Calendar) {year : Int} (h : -1000001 ≤ year) (h' : year ≤ 1000001) :
    isLeapYear (.hold year) c = some (c.isLeapYear year) := by
  cases c
  all_goals
    simp (disch := omega) only [isLeapYear, ofNat_eq, value?_emod]
    rfl

theorem check_eq_some {c : Calendar} (h : c.check d = .ok ()) : check c d = some () := by
  obtain ⟨hy, hc⟩ := check_eq_ok_iff.mp h
  have hd : daysIn c (.hold d.year) d.month = some (c.daysIn d.year d.month) := by
    simp only [firstYear, lastYear] at hy
    rw [daysIn, isLeapYear_hold c (by omega) (by omega)]
    rfl
  rw [check, hd]
  simp only [guard, if_pos hy, if_pos hc.month]
  exact if_pos hc.day

end

-- The days of the years up to `k`, in our era and before it.
structure Within (k : Int) (d : Date) : Prop where
  least    : yearStart (-k) ≤ d.number
  greatest : d.number < yearStart (k + 1)

variable {c : Civil} {d d' : Date} {k k' : Int}

namespace Within

theorem mono (h : Within k d) (hk : k ≤ k') : Within k' d := by
  obtain ⟨h, h'⟩ := h
  constructor
  all_goals
    simp only [yearStart_eq] at *
    omega

theorem addDays_neighbours (h : Within k d) :
    Within (k + 1) (d.addDays (-1)) ∧ Within (k + 1) (d.addDays 1) := by
  obtain ⟨h, h'⟩ := h
  refine ⟨⟨?_, ?_⟩, ⟨?_, ?_⟩⟩
  all_goals
    simp only [Date.addDays, yearStart_eq] at *
    omega

theorem number_bounds (h : Within 1000001 d) : -400000000 ≤ d.number ∧ d.number ≤ 400000000 := by
  obtain ⟨h, h'⟩ := h
  simp only [yearStart_eq] at h h'
  omega

theorem hasYear (h : Within 1000001 d) : d.HasYear := by
  obtain ⟨h, h'⟩ := h
  simp only [Date.HasYear, yearStart_eq] at *
  omega

theorem year_bounds (h : Within k d) (hk : k ≤ 1000001) : -k ≤ d.year ∧ d.year ≤ k := by
  have hy := (h.mono hk).hasYear.julian_eq
  have h₁ := yearStart_fullYear_le d.number
  have h₂ := lt_yearStart_fullYear_succ d.number
  obtain ⟨h, h'⟩ := h
  rw [Date.year, hy]
  simp only [fullCivil, yearStart_eq] at *
  omega

end Within

theorem within_dayNumber (h : julian.Has c) (hy : -k ≤ c.year) (hy' : c.year ≤ k) :
    Within k ⟨julian.dayNumber c⟩ := by
  have h₁ := yearStart_le_dayNumber h
  have h₂ := dayNumber_lt_yearStart h
  constructor
  all_goals
    simp only [yearStart_eq] at *
    omega

theorem within_of_ofJulian (h : Date.ofJulian c = .ok d) : Within 999999 d := by
  obtain ⟨⟨⟨hy, hy'⟩, hc⟩, rfl⟩ := Date.ofJulian_eq_ok_iff.mp h
  exact within_dayNumber hc hy hy'

-- From the reform on, a Gregorian date comes before the Julian one of the same name.
theorem within_gregorian_dayNumber (h : gregorian.Has c) (hy : Date.reform.year ≤ c.year)
    (hy' : c.year ≤ lastYear) : Within 999999 ⟨gregorian.dayNumber c⟩ := by
  obtain ⟨hm, hm'⟩ := h.month
  have hd := Nat.le_trans h.day.2 (daysIn_bounds ..).2
  have hu := dayNumber_lt_yearStart h.julian
  simp only [lastYear, Date.reform] at hy hy'
  constructor
  all_goals
    simp only [yearStart_eq, Calendar.dayNumber] at *
    omega

theorem within_of_ofGregorian (h : Date.ofGregorian c = .ok d) : Within 999999 d := by
  obtain ⟨_, hc, hd⟩ := bind_eq_ok_iff.mp h
  by_cases hr : c < Date.reform
  case pos =>
    rw [if_pos hr] at hd
    exact within_of_ofJulian hd
  case neg =>
    obtain ⟨⟨-, hy⟩, hc⟩ := check_eq_ok_iff.mp hc
    rw [if_neg hr] at hd
    cases hd
    refine within_gregorian_dayNumber hc ?_ hy
    simp only [Civil.lt_iff] at hr
    omega

namespace Day

theorem is_hold (h : Within 1000001 d) : (hold d).Is d :=
  ⟨is_hold_iff.mpr (by have := h.number_bounds; omega), are_hold_civil .julian d.number⟩

theorem ofFields_hold (h : julian.Has c) (hy : -1000001 ≤ c.year) (hy' : c.year ≤ 1000001) :
    ofFields (.hold c) = hold ⟨julian.dayNumber c⟩ := by
  have hd := Nat.le_trans h.day.2 (daysIn_bounds ..).2
  rw [ofFields, dayNumber_hold _ hy hy' h.month.1 h.month.2 hd, hold,
    Date.julian_dayNumber h (by omega) (by omega)]

theorem ofNumber_hold (h : Within 1000001 d) : ofNumber (.hold d.number) = hold d := by
  obtain ⟨hn, hn'⟩ := h.number_bounds
  rw [ofNumber, fields_hold hn hn']
  rfl

theorem gregorian_hold (h : Within 1000001 d) : (hold d).gregorian = .hold d.gregorian :=
  fields_hold h.number_bounds.1 h.number_bounds.2 .gregorian

theorem weekday_hold (h : Within 1000001 d) : (hold d).weekday = .hold d.weekday := by
  obtain ⟨h, h'⟩ := h.number_bounds
  simp (disch := omega) only [weekday, hold, Date.weekday, ofNat_eq, hold_add, hold_emod, cast_hold,
    Int.toNat_of_nonneg]

theorem exists_daysBeforeMonth {month : Nat} (h : 1 ≤ month) (h' : month ≤ 12) :
    ∃ days, Date.daysBeforeMonth[month - 1]? = some days ∧ days ≤ 334 := by
  have hl : month - 1 < Date.daysBeforeMonth.length := by
    rw [show Date.daysBeforeMonth.length = 12 from rfl]
    omega
  have hb : ∀ days ∈ Date.daysBeforeMonth, days ≤ 334 := by decide
  exact ⟨_, List.getElem?_eq_getElem hl, hb _ (List.getElem_mem hl)⟩

theorem isLeapDay_hold_iff (d : Date) :
    (hold d).month = 2 ∧ (hold d).day = 29 ↔ d.month = 2 ∧ d.day = 29 := by
  obtain ⟨-, hd, -⟩ := Date.day_bounds d
  have hm : d.month ≤ 12 := (Date.has_monthDay d).month.2
  change (Word.hold d.month : Unsigned32) = Word.hold 2 ∧
    (Word.hold d.day : Unsigned32) = Word.hold 29 ↔ _
  rw [hold_eq_iff, hold_eq_iff]
  all_goals omega

-- The place of the month in the table is no negative number, nor is the sum.
theorem ordinal_hold (d : Date) : (hold d).ordinal = .hold d.ordinal := by
  obtain ⟨hd, hd', -⟩ := Date.day_bounds d
  obtain ⟨hm, hm'⟩ : 1 ≤ d.month ∧ d.month ≤ 12 := (Date.has_monthDay d).month
  have hl := isLeapDay_hold_iff d
  by_cases hf : d.month = 2 ∧ d.day = 29
  case pos =>
    rw [ordinal, Date.ordinal, if_pos (hl.mpr hf), if_pos hf]
    rfl
  case neg =>
    obtain ⟨days, ht, hb⟩ := exists_daysBeforeMonth hm hm'
    have he : ((hold d).month - 1).entry Date.daysBeforeMonth = some days := by
      change ((Word.hold d.month : Unsigned32) - Word.hold 1).entry _ = _
      rw [hold_sub (by omega) (by omega) (by decide) (by decide),
        entry_hold _ (by omega) (by omega) (by omega), ← ht]
      congr 1
      omega
    rw [ordinal, Date.ordinal, if_neg (hl.not.mpr hf), if_neg hf, he,
      List.getD_eq_getElem?_getD, ht, Option.getD_some]
    change (Word.hold days + Word.hold d.day - Word.hold 1 : Unsigned32) = _
    rw [hold_add (by omega) (by omega) (by omega) (by omega),
      hold_sub (by omega) (by omega) (by decide) (by decide)]
    congr 1
    omega

theorem addDays_hold {days : Int} (h : Within 1000001 d) (h' : Within 1000001 (d.addDays days)) :
    (hold d).addDays (.hold days) = hold (d.addDays days) := by
  have hn := h.number_bounds
  have hn' : -400000000 ≤ d.number + days ∧ d.number + days ≤ 400000000 := h'.number_bounds
  rw [← ofNumber_hold h']
  simp (disch := omega) only [addDays, hold, hold_add]
  rfl

theorem daysSince_hold (h : Within 1000001 d) (h' : Within 1000001 d') :
    (hold d).daysSince (hold d') = .hold (d.daysSince d') := by
  have hn := h.number_bounds
  have hn' := h'.number_bounds
  simp (disch := omega) only [daysSince, hold, hold_sub, Date.daysSince]

theorem ofJulian_eq_some (h : Date.ofJulian c = .ok d) : ofJulian c = some (hold d) := by
  obtain ⟨⟨hy, hc⟩, rfl⟩ := Date.ofJulian_eq_ok_iff.mp h
  rw [ofJulian, check_eq_some (check_eq_ok_iff.mpr ⟨hy, hc⟩)]
  simp only [firstYear, lastYear] at hy
  exact congrArg some (ofFields_hold hc (by omega) (by omega))

theorem ofGregorian_eq_some (h : Date.ofGregorian c = .ok d) : ofGregorian c = some (hold d) := by
  obtain ⟨_, hc, hd⟩ := bind_eq_ok_iff.mp h
  rw [ofGregorian, check_eq_some hc]
  by_cases hr : c < Date.reform
  case pos =>
    rw [if_pos hr] at hd
    exact (if_pos hr).trans (ofJulian_eq_some hd)
  case neg =>
    have hn := ofNumber_hold ((within_of_ofGregorian h).mono (by decide))
    obtain ⟨hy, hc⟩ := check_eq_ok_iff.mp hc
    have hb := Nat.le_trans hc.day.2 (daysIn_bounds ..).2
    simp only [firstYear, lastYear] at hy
    rw [if_neg hr] at hd
    cases hd
    rw [← dayNumber_hold .gregorian (by omega) (by omega) hc.month.1 hc.month.2 hb] at hn
    exact (if_neg hr).trans (congrArg some hn)

end Day

end Ordo.Machine
