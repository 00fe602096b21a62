import Ordo.Command
import Ordo.Commemoration.Basic
import Ordo.Date

namespace Ordo

structure Day where
  date           : Date
  tone           : Int
  -- The highest rank of the fixed commemorations.
  rank           : Int
  fastingCode    : Option String
  commemorations : List Commemoration
  -- The commands of the liturgy; none if there is no liturgy.
  commands       : List Command
deriving DecidableEq, Inhabited

def hasLiturgy (cs : List Commemoration) : Bool :=
  cs.any (·.hasService .liturgy)

-- The largest of some numbers, and 0 if there are none.
def largest : List Int → Int
  | []      => 0
  | n :: ns => ns.foldl max n

-- The highest rank in both cycles, in which no rank counts as 0.
def maxRankOf (cs : List Commemoration) : Int :=
  largest (cs.map fun c => c.rankNumber?.getD 0)

namespace Day

def hasLiturgy (d : Day) : Bool :=
  Ordo.hasLiturgy d.commemorations

def maxRank (d : Day) : Int :=
  maxRankOf d.commemorations

def movable (d : Day) : List Commemoration :=
  d.commemorations.filter (·.cycle = .movable)

def fixed (d : Day) : List Commemoration :=
  d.commemorations.filter (·.cycle = .fixed)

end Day

end Ordo
