import Ordo.Calendar

namespace Ordo

-- A day by its Julian day number. It is written on the Julian calendar unless another one is named.
structure Date where
  number : Int
deriving DecidableEq, Repr, Inhabited

namespace Date

-- The order of time. A date has nothing but its number, so nothing else decides.
instance : LT Date := ⟨(·.number < ·.number)⟩

instance (d d' : Date) : Decidable (d < d') :=
  inferInstanceAs (Decidable (d.number < d'.number))

-- The first day of the Gregorian calendar, and the Julian date that it took the place of.
def reform : Civil := ⟨1582, 10, 15⟩

def reformOnJulian : Civil := ⟨1582, 10, 5⟩

def ofJulian (d : Civil) : Except CivilError Date := do
  Calendar.julian.check d
  return ⟨Calendar.julian.dayNumber d⟩

-- The day that is called `d` on the calendar in force. Before the reform this is the Julian
-- calendar, and each of the ten days that the reform dropped counts as the last Julian one.
def ofGregorian (d : Civil) : Except CivilError Date := do
  Calendar.gregorian.check d
  if d < reform then
    ofJulian (if reformOnJulian < d then reformOnJulian else d)
  else
    return ⟨Calendar.gregorian.dayNumber d⟩

def julian (d : Date) : Civil :=
  Calendar.julian.civil d.number

def gregorian (d : Date) : Civil :=
  Calendar.gregorian.civil d.number

def year (d : Date) : Int := d.julian.year

def month (d : Date) : Nat := d.julian.month

def day (d : Date) : Nat := d.julian.day

def text (d : Date) : String := d.julian.text

-- The day of the week; Sunday is 0.
def weekday (d : Date) : Nat :=
  ((d.number + 1) % 7).toNat

def daysBeforeMonth : List Nat :=
  [0, 31, 59, 90, 120, 151, 181, 212, 243, 273, 304, 334]

-- The day of the year that stands for the leap day.
def leapDay : Nat := 366

-- The days of a common year that lie before a date, so that a date has the same value in every
-- year. The leap day has a value of its own behind all others.
def ordinal (d : Date) : Nat :=
  if d.month = 2 ∧ d.day = 29 then leapDay
  else daysBeforeMonth.getD (d.month - 1) 0 + d.day - 1

def addDays (d : Date) (days : Int) : Date :=
  ⟨d.number + days⟩

-- The number of days from `d'` to `d`.
def daysSince (d d' : Date) : Int :=
  d.number - d'.number

end Date

end Ordo
