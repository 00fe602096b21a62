import Ordo.Number.Exact
import Ordo.Text.Basic

namespace Ordo.Number

-- A numeral without a sign: the digits before and after the point, and the power of ten.
structure Literal where
  whole    : List Char
  fraction : List Char
  exponent : Int
deriving DecidableEq, Repr

def digitValue (c : Char) : Nat :=
  c.toNat - '0'.toNat

def hexDigit? (c : Char) : Option Nat :=
  if c.isDigit then some (digitValue c)
  else if 'a' ≤ c ∧ c ≤ 'f' then some (c.toNat - 'a'.toNat + 10)
  else if 'A' ≤ c ∧ c ≤ 'F' then some (c.toNat - 'A'.toNat + 10)
  else none

def naturalOf (digits : List Char) : Nat :=
  digits.foldl (fun n c => 10 * n + digitValue c) 0

-- An optional sign, which is a minus or not, and what follows it.
def splitSign : List Char → Bool × List Char
  | '+' :: cs => (false, cs)
  | '-' :: cs => (true, cs)
  | cs        => (false, cs)

theorem length_splitSign (cs : List Char) : (splitSign cs).2.length ≤ cs.length := by
  unfold splitSign
  split <;> simp

namespace Literal

def significand (l : Literal) : Nat :=
  naturalOf (l.whole ++ l.fraction)

def scale (l : Literal) : Int :=
  l.exponent - l.fraction.length

-- Beyond these powers of ten every number reads as infinity or as zero.
def largestPower : Int := 310

def smallestPower : Int := -330

-- The binary64 number closest to the numeral; of two equally close ones, the even one.
def toFloat (l : Literal) : Float :=
  let m := l.significand
  let power := (toString m).length + l.scale
  if m = 0 ∨ power < smallestPower then 0.0
  else if largestPower < power then infinity
  else .ofScientific m (l.scale < 0) l.scale.natAbs

-- The digits of an exponent with an optional sign, and what follows them.
def exponentAfterMark (cs : List Char) : Option (Int × List Char) :=
  let (negative, digits) := splitSign cs
  match digits.takeWhile Char.isDigit with
  | [] => none
  | ds =>
    let n : Int := naturalOf ds
    some (if negative then -n else n, digits.dropWhile Char.isDigit)

-- A mark without digits behind it is no part of the numeral.
def exponentOf (cs : List Char) : Int × List Char :=
  match cs with
  | c :: rest => if c = 'e' ∨ c = 'E' then (exponentAfterMark rest).getD (0, cs) else (0, cs)
  | []        => (0, cs)

-- The digits behind a point, which may be none, and what follows them.
def fractionOf : List Char → List Char × List Char
  | '.' :: rest => (rest.takeWhile Char.isDigit, rest.dropWhile Char.isDigit)
  | rest        => ([], rest)

-- The longest numeral at the start of `cs` and what follows it: digits with an optional point
-- behind, inside or in front of them, and an optional exponent.
def read? (cs : List Char) : Option (Literal × List Char) :=
  let whole := cs.takeWhile Char.isDigit
  let (fraction, rest) := fractionOf (cs.dropWhile Char.isDigit)
  if whole.isEmpty && fraction.isEmpty then none
  else
    let (exponent, rest) := exponentOf rest
    some (⟨whole, fraction, exponent⟩, rest)

theorem length_takeWhile_add (p : Char → Bool) (cs : List Char) :
    (cs.takeWhile p).length + (cs.dropWhile p).length = cs.length := by
  rw [← List.length_append, List.takeWhile_append_dropWhile]

theorem length_exponentOf (cs : List Char) : (exponentOf cs).2.length ≤ cs.length := by
  unfold exponentOf
  split
  case h_2 => simp
  case h_1 c rest =>
    split
    case isFalse => simp
    case isTrue =>
      have h₁ := length_splitSign rest
      have h₂ := Text.length_dropWhile_le Char.isDigit (splitSign rest).2
      simp only [exponentAfterMark]
      split
      case h_1 => simp
      case h_2 => simp; omega

theorem length_fractionOf (cs : List Char) :
    (fractionOf cs).1.length + (fractionOf cs).2.length ≤ cs.length := by
  unfold fractionOf
  split
  case h_1 rest => simp [length_takeWhile_add]
  case h_2 => simp

theorem length_lt_of_read? {cs : List Char} {l : Literal} {rest : List Char}
    (h : read? cs = some (l, rest)) : rest.length < cs.length := by
  simp only [read?] at h
  split at h
  case isTrue => contradiction
  case isFalse hd =>
    obtain ⟨-, rfl⟩ := Prod.mk.inj (Option.some.inj h)
    have h₁ := length_takeWhile_add Char.isDigit cs
    have h₂ := length_fractionOf (cs.dropWhile Char.isDigit)
    have h₃ := length_exponentOf (fractionOf (cs.dropWhile Char.isDigit)).2
    simp only [Bool.and_eq_true, List.isEmpty_iff_length_eq_zero] at hd
    omega

end Literal

-- The names of the numbers that have no digits, in small letters.
def named? (cs : List Char) : Option Float :=
  match String.ofList (cs.map Char.toLower) with
  | "inf" | "infinity" => some infinity
  | "nan"              => some nan
  | _                  => none

-- The number that is written without a sign as the whole of `cs`.
def unsigned? (cs : List Char) : Option Float :=
  match Literal.read? cs with
  | some (literal, []) => some literal.toFloat
  | some _             => none
  | none               => named? cs

-- The number that is written as the whole of `s`, if `s` is a numeral, an infinity or NaN.
def ofText? (s : String) : Option Float :=
  let (negative, cs) := splitSign s.toList
  (unsigned? cs).map fun x => if negative then -x else x

-- The 64-bit integer that is written as the whole of `s`: digits behind an optional sign.
def integer64? (s : String) : Option Int := do
  let (negative, digits) := splitSign s.toList
  guard (!digits.isEmpty && digits.all Char.isDigit)
  let n : Int := if negative then -naturalOf digits else naturalOf digits
  guard (clampedToInt64 n = n)
  return n

end Ordo.Number
