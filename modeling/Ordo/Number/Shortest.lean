namespace Ordo.Number

open Float.Model.UnpackedFloat (Sign)

-- The number `digits * 10 ^ exponent`.
structure Decimal where
  digits   : Nat
  exponent : Int
deriving DecidableEq, Repr

-- A positive binary64 number `m * 2 ^ q` in quarters of its last place, with the ends of its
-- interval. Below a power of two the neighbour is only half as far away.
structure Interval where
  low    : Nat
  value  : Nat
  high   : Nat
  closed : Bool
  scale  : Int

-- The significand of the powers of two, and the exponent below which there is none.
def smallestSignificand : Nat := 0x10000000000000

def smallestExponent : Int := -1074

def Interval.around (m : Nat) (q : Int) : Interval where
  low    := if m = smallestSignificand ∧ smallestExponent < q then 4 * m - 1 else 4 * m - 2
  value  := 4 * m
  high   := 4 * m + 2
  closed := m % 2 = 0
  scale  := q - 2

namespace Interval

-- The factors which turn quarters of the last place and multiples of `10 ^ p` into whole numbers
-- of one unit.
def quarter (i : Interval) (p : Int) : Nat :=
  Nat.pow 2 i.scale.toNat * Nat.pow 10 (-p).toNat

def step (i : Interval) (p : Int) : Nat :=
  Nat.pow 2 (-i.scale).toNat * Nat.pow 10 p.toNat

def contains (i : Interval) (p : Int) (n : Nat) : Bool :=
  let (low, here, high) := (i.low * i.quarter p, n * i.step p, i.high * i.quarter p)
  if i.closed then low ≤ here && here ≤ high else low < here && here < high

-- The point of the grid of multiples of `10 ^ p` in the interval that is closest to its value.
def point? (i : Interval) (p : Int) : Option Nat :=
  let value := i.value * i.quarter p
  let below := value / i.step p
  let above := below + 1
  match i.contains p below, i.contains p above with
  | false, false => none
  | true,  false => some below
  | false, true  => some above
  -- Of two points that are equally close, the larger one is taken.
  | true,  true  =>
    if value - below * i.step p < above * i.step p - value then some below else some above

-- Goes from the grid of `10 ^ p` to finer ones.
def search (i : Interval) (p : Int) : Nat → Decimal
  | 0 => ⟨i.value * i.quarter p / i.step p, p⟩
  | grids + 1 =>
    match i.point? p with
    | some n => ⟨n, p⟩
    | none   => i.search (p - 1) grids

end Interval

-- A power of ten that is not below `m * 2 ^ q`.
def magnitude (m : Nat) (q : Int) : Int :=
  (m.log2 + 1 + q) * 30103 / 100000 + 1

-- The fewest digits that read back as `m * 2 ^ q`: those of the coarsest grid with a point in the
-- interval of the numbers that round to it. Seventeen digits are always enough, and the search
-- starts at most two grids above the first of them.
def shortest (m : Nat) (q : Int) : Decimal :=
  (Interval.around m q).search (magnitude m q) 20

def zeros (n : Nat) : String :=
  String.ofList (List.replicate n '0')

-- The decimal digits of a number with a point where needed and no exponent.
def Decimal.positional (d : Decimal) : String :=
  let digits := toString d.digits
  if 0 ≤ d.exponent then
    digits ++ zeros d.exponent.toNat
  else
    let places := (-d.exponent).toNat
    let filled := zeros (places + 1 - digits.length) ++ digits
    let whole  := filled.length - places
    String.ofList (filled.toList.take whole) ++ "." ++ String.ofList (filled.toList.drop whole)

def minus : Sign → String
  | .positive => ""
  | .negative => "-"

-- The text of a number: its shortest digits, never with an exponent, and the zeros with their sign.
def text (x : Float) : String :=
  match x.toModel.unpack with
  | .notANumber     => "NaN"
  | .infinity s     => minus s ++ "inf"
  | .zero s         => minus s ++ "0"
  | .finite s m q _ => minus s ++ (shortest m q).positional

end Ordo.Number
