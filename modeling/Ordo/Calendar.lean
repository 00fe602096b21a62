import Ordo.Text.Basic

namespace Ordo

-- A year, month and day on some calendar.
structure Civil where
  year  : Int
  month : Nat
  day   : Nat
deriving DecidableEq, Repr, Inhabited

namespace Civil

-- The order of time, for days on one calendar.
def lt (a b : Civil) : Prop :=
  a.year < b.year ∨ a.year = b.year ∧ (a.month < b.month ∨ a.month = b.month ∧ a.day < b.day)

instance : LT Civil := ⟨lt⟩

instance (a b : Civil) : Decidable (a < b) :=
  inferInstanceAs (Decidable (_ ∨ _))

-- Four columns for the year and two each for the month and the day.
def text (d : Civil) : String :=
  Text.padded 4 d.year ++ "-" ++ Text.padded 2 d.month ++ "-" ++ Text.padded 2 d.day

end Civil

inductive CivilError
  | unsupportedYear (year : Int)
  | invalidMonth (month : Nat)
  | invalidDay (date : Civil)
deriving DecidableEq, Repr

inductive Calendar
  | julian
  | gregorian
deriving DecidableEq, Repr

namespace Calendar

-- Dates are made for these years only.
def firstYear : Int := -999999

def lastYear : Int := 999999

def isLeapYear (year : Int) : Calendar → Bool
  | julian    => year % 4 = 0
  | gregorian => (year % 4 = 0 && year % 100 ≠ 0) || year % 400 = 0

def daysIn (c : Calendar) (year : Int) (month : Nat) : Nat :=
  match month with
  | 2 => if c.isLeapYear year then 29 else 28
  | 4 | 6 | 9 | 11 => 30
  | _ => 31

-- Rejects a date that the calendar does not have, or whose year is out of range.
def check (c : Calendar) (d : Civil) : Except CivilError Unit := do
  unless firstYear ≤ d.year && d.year ≤ lastYear do
    throw (.unsupportedYear d.year)
  unless 1 ≤ d.month && d.month ≤ 12 do
    throw (.invalidMonth d.month)
  unless 1 ≤ d.day && d.day ≤ c.daysIn d.year d.month do
    throw (.invalidDay d)

-- The Julian day number of a date. Years are counted from March, so that the leap day is the last
-- of its year.
def dayNumber (c : Calendar) (d : Civil) : Int :=
  let early : Int := (14 - d.month) / 12
  let y := d.year + 4800 - early
  let m := d.month + 12 * early - 3
  let days := d.day + (153 * m + 2) / 5 + 365 * y + y / 4 - 32083
  match c with
  | julian    => days
  | gregorian => days + (y / 400 - y / 100 + 38)

-- The Gregorian leap days that are left out up to a day, less the days by which the calendars
-- differed at first.
def centuryCorrection (n : Int) : Int :=
  ((4 * n + 274277) / 146097 * 3) / 4 - 38

-- Years are held in 32 bits with a sign.
def wrapYear (year : Int) : Int :=
  year.bmod 0x100000000

-- The date with the Julian day number `n`.
def civil (c : Calendar) (n : Int) : Civil :=
  let f :=
    match c with
    | julian    => n + 1401
    | gregorian => n + 1401 + centuryCorrection n
  let e := 4 * f + 3
  let h := 5 * (e % 1461 / 4) + 2
  let month := (h / 153 + 2) % 12 + 1
  {
    year  := wrapYear (e / 1461 - 4716 + (14 - month) / 12)
    month := month.toNat
    day   := (h % 153 / 5 + 1).toNat
  }

end Calendar

namespace CivilError

def message : CivilError → String
  | unsupportedYear year =>
    s!"year {year} is not supported; expected {Calendar.firstYear}..={Calendar.lastYear}"
  | invalidMonth month => s!"bad month value: {month}"
  | invalidDay date =>
    s!"bad day value: {date.day} (year {date.year}, month {date.month})"

end CivilError

end Ordo
