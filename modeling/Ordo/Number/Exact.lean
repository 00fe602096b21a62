namespace Ordo.Number

open Float.Model (UnpackedFloat Format)
open Float.Model.UnpackedFloat (Sign)

def infinity : Float := 1.0 / 0.0

def nan : Float := 0.0 / 0.0

-- The whole part of `m * 2 ^ e`.
def wholePart (m : Nat) (e : Int) : Nat :=
  if 0 ≤ e then m * Nat.pow 2 e.toNat else m / Nat.pow 2 (-e).toNat

-- The number without its fraction, if it is finite.
def truncated? (x : Float) : Option Int :=
  match x.toModel.unpack with
  | .finite s m e _ => some (s.apply (wholePart m e))
  | .zero _ => some 0
  | .infinity _ | .notANumber => none

-- The integers of 64 bits with a sign.
def minInt64 : Int := -0x8000000000000000

def maxInt64 : Int := 0x7FFFFFFFFFFFFFFF

-- The closest integer that fits into 64 bits with a sign.
def clampedToInt64 (n : Int) : Int :=
  max minInt64 (min n maxInt64)

-- `m₁ * 2 ^ e₁` modulo `m₂ * 2 ^ e₂`, as a multiple of the smaller of the two powers.
def remainderOf (m₁ : Nat) (e₁ : Int) (m₂ : Nat) (e₂ : Int) : Nat × Int :=
  let e := min e₁ e₂
  ((m₁ * Nat.pow 2 (e₁ - e).toNat) % (m₂ * Nat.pow 2 (e₂ - e).toNat), e)

-- The remainder of the division of `x` by `y` with a whole quotient that is cut towards zero. It
-- has the sign of `x`, and it is no rounding of another number.
def remainder (x y : Float) : Float :=
  match x.toModel.unpack, y.toModel.unpack with
  | .zero _, .finite .. | .zero _, .infinity _ | .finite .., .infinity _ => x
  | .finite s m₁ e₁ _, .finite _ m₂ e₂ _ =>
    match remainderOf m₁ e₁ m₂ e₂ with
    | (0, _) => .ofModel (.pack (.zero s))
    | (m, e) => .ofModel (.pack (.round Format.binary64 s m e))
  | _, _ => nan

-- The order of two numbers, in which the two zeros are equal and NaN has no place.
def order? (x y : Float) : Option Ordering :=
  if x < y then some .lt else if x == y then some .eq else if y < x then some .gt else none

end Ordo.Number
