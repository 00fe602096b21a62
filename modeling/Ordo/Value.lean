import Ordo.Dictionary
import Ordo.Text.Basic
import Ordo.Number.Literal
import Ordo.Number.Shortest

namespace Ordo

inductive Value
  | truth (b : Bool)
  | number (x : Float)
  | text (s : String)
deriving DecidableEq, Inhabited

namespace Value

def ofInt (n : Int) : Value := number (.ofInt n)

-- False, the zeros, NaN and the empty text do not hold.
def holds : Value → Bool
  | truth b  => b
  | number x => x != 0.0 && !x.isNaN
  | text s   => !s.isEmpty

-- The number that a text stands for: 0 if it is blank, and NaN if it is no numeral.
def numberOfText (s : String) : Float :=
  let s := Text.trim s
  if s.isEmpty then 0.0 else (Number.ofText? s).getD Number.nan

def toNumber : Value → Float
  | truth b  => if b then 1.0 else 0.0
  | number x => x
  | text s   => numberOfText s

-- The whole part of a value's number, unless that is infinite or NaN.
def toInteger? (v : Value) : Option Int :=
  (Number.truncated? v.toNumber).map Number.clampedToInt64

-- Equality of two texts or two truths; all other values are equal if their numbers are.
def looselyEqual : Value → Value → Bool
  | text s,  text t  => s == t
  | truth a, truth b => a == b
  | v,       w       => v.toNumber == w.toNumber

-- Equality of two values of one kind.
def strictlyEqual : Value → Value → Bool
  | text s,   text t   => s == t
  | truth a,  truth b  => a == b
  | number x, number y => x == y
  | _,        _        => false

-- The order of two texts by their characters, and of all other values by their numbers.
def order? : Value → Value → Option Ordering
  | text s, text t => some (if s < t then .lt else if s = t then .eq else .gt)
  | v,      w      => Number.order? v.toNumber w.toNumber

-- The first whole number of more than fifteen digits.
def integerBound : Nat := 1000000000000000

-- Whole numbers below the bound are written as integers, so zero has no sign.
def numberText (x : Float) : String :=
  match Number.truncated? x with
  | some n =>
    if Float.ofInt n == x && n.natAbs < integerBound then toString n else Number.text x
  | none =>
    if x.isNaN then "NaN" else if x < 0.0 then "-Infinity" else "Infinity"

def toText : Value → String
  | truth b  => if b then "true" else "false"
  | number x => numberText x
  | text s   => s

-- The texts of two values in a row if one of the values is a text, otherwise the sum.
def plus : Value → Value → Value
  | text s,  w       => text (s ++ w.toText)
  | v,       text t  => text (v.toText ++ t)
  | v,       w       => number (v.toNumber + w.toNumber)

end Value

-- The values of the names that a formula may use.
abbrev Bindings := Dictionary Value

namespace Bindings

-- The name of the rank of a day or of a commemoration.
def rankName : String := "dRank"

def withRank (b : Bindings) (rank : Float) : Bindings :=
  b.insert rankName (.number rank)

end Bindings

end Ordo
