import Ordo.Archive.Library
import Ordo.Pascha
import Ordo.Value

namespace Ordo

-- The document of the movable cycle for a day.
inductive MovablePlace
  -- So many days before Pascha.
  | triodion (day : Int)
  -- The day that Pascha is the first of.
  | pentecostarion (day : Int)
deriving DecidableEq, Repr

structure DayFacts where
  date     : Date
  weekday  : Nat
  ordinal  : Nat
  -- The days since Pascha of the year, of the year before and of the next year.
  nday     : Int
  previous : Int
  next     : Int
deriving DecidableEq, Repr

namespace DayFacts

def ofDate (date : Date) : DayFacts where
  date     := date
  weekday  := date.weekday
  ordinal  := date.ordinal
  nday     := date.daysSince (Pascha.ofYear date.year)
  previous := date.daysSince (Pascha.ofYear (date.year - 1))
  next     := date.daysSince (Pascha.ofYear (date.year + 1))

-- The bindings of the names that stand for the facts.
def bindings (f : DayFacts) : Bindings := .ofList [
  ("dow",   .ofInt f.weekday),
  ("doy",   .ofInt f.ordinal),
  ("nday",  .ofInt f.nday),
  ("ndayP", .ofInt f.previous),
  ("ndayF", .ofInt f.next),
  ("Year",  .ofInt f.date.year),
  ("GS",    .ofInt 1)
]

def bindingsWithRank (f : DayFacts) (rank : Int) : Bindings :=
  f.bindings.withRank (.ofInt rank)

-- The days before Pascha that the Triodion has documents for.
def triodionSpan : Int := 70

-- Before the Triodion, the days are still counted from Pascha of the year before.
def place (f : DayFacts) : MovablePlace :=
  if f.nday < -triodionSpan then .pentecostarion (f.previous + 1)
  else if f.nday < 0 then .triodion (-f.nday)
  else .pentecostarion (f.nday + 1)

end DayFacts

def MovablePlace.read (l : Library) : MovablePlace → Logged ArchiveError SourceText
  | triodion day       => l.triodion day
  | pentecostarion day => l.pentecostarion day

end Ordo
