import Ordo.Date

namespace Ordo.Pascha

-- Pascha of a year: the Alexandrian computus in the form of Gauss.
def ofYear (year : Int) : Date :=
  let a := year % 4
  let b := year % 7
  let c := year % 19
  let d := (19 * c + 15) % 30
  let e := (2 * a + 4 * b - d + 34) % 7
  let month := (d + e + 114) / 31
  let day   := (d + e + 114) % 31 + 1
  ⟨Calendar.julian.dayNumber ⟨year, month.toNat, day.toNat⟩⟩

-- The first year of the first indiction.
def firstIndiction : Int := 313

-- The place of a year in its indiction of fifteen years; earlier years have none.
def indiction? (year : Int) : Option Int :=
  if year < firstIndiction then none else some ((year - 312 + 14) % 15 + 1)

def indictionMissing (year : Int) : String :=
  s!"year {year} is out of range; expected >= {firstIndiction}"

def solarCycle (year : Int) : Int :=
  (year + 20 + 27) % 28 + 1

def lunarCycle (year : Int) : Int :=
  (year - 2 + 18) % 19 + 1

-- The concurrent of a year, which names the weekday of March 24.
def concurrent (year : Int) : Int :=
  let solar := (year + 20) % 28
  (solar + solar / 4 + 6) % 7 + 1

-- The age of the moon on March 1.
def foundation (year : Int) : Int :=
  let age := (year + 1) % 19 * 11 % 30
  if age = 0 then 29 else age

-- What the foundation lacks to 21 or 51.
def epacta (year : Int) : Int :=
  (51 - foundation year) % 30

-- The letters of the days from March 22 to April 25.
def boundaryKeys : List String := [
  "А", "Б", "В", "Г", "Д", "Е", "Ж", "Ѕ", "З", "И", "І", "К", "Л", "М", "Н", "О", "П", "Р", "С",
  "Т", "Ꙋ", "Ф", "Х", "Ѿ", "Ц", "Ч", "Ш", "Щ", "Ъ", "Ы", "Ь", "Ѣ", "Ю", "Ѫ", "Ѧ"
]

-- The days from March 22 to Pascha.
def boundary (year : Int) : Int :=
  (ofYear year).daysSince ⟨Calendar.julian.dayNumber ⟨year, 3, 22⟩⟩

def keyOfBoundaries (year : Int) : String :=
  boundaryKeys.getD (boundary year).toNat ""

end Ordo.Pascha
