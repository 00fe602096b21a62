import Ordo.Value

namespace Ordo.Formula

inductive UnaryOp
  | not
  | negate
  | plus
deriving DecidableEq, Repr

inductive BinaryOp
  | add
  | subtract
  | multiply
  | divide
  | remainder
  | equal
  | unequal
  | strictlyEqual
  | strictlyUnequal
  | less
  | greater
  | atMost
  | atLeast
deriving DecidableEq, Repr

inductive LogicalOp
  | and
  | or
deriving DecidableEq, Repr

inductive Tree
  | literal (v : Value)
  | name (n : String)
  | unary (op : UnaryOp) (x : Tree)
  | binary (op : BinaryOp) (x y : Tree)
  | logical (op : LogicalOp) (x y : Tree)
  | conditional (c x y : Tree)
deriving DecidableEq, Inhabited

def UnaryOp.apply : UnaryOp → Value → Value
  | not,    v => .truth !v.holds
  | negate, v => .number (-v.toNumber)
  | plus,   v => .number v.toNumber

-- A comparison with NaN has no order, and then none of the four relations is true.
def BinaryOp.apply (op : BinaryOp) (v w : Value) : Value :=
  match op with
  | add             => v.plus w
  | subtract        => .number (v.toNumber - w.toNumber)
  | multiply        => .number (v.toNumber * w.toNumber)
  | divide          => .number (v.toNumber / w.toNumber)
  | remainder       => .number (Number.remainder v.toNumber w.toNumber)
  | equal           => .truth (v.looselyEqual w)
  | unequal         => .truth !(v.looselyEqual w)
  | strictlyEqual   => .truth (v.strictlyEqual w)
  | strictlyUnequal => .truth !(v.strictlyEqual w)
  | less            => .truth (v.order? w == some .lt)
  | greater         => .truth (v.order? w == some .gt)
  | atMost          => .truth ((v.order? w).any (·.isLE))
  | atLeast         => .truth ((v.order? w).any (·.isGE))

-- Whether the left value of a logical operator is already the value of the whole.
def LogicalOp.decidedBy : LogicalOp → Value → Bool
  | and, v => !v.holds
  | or,  v => v.holds

-- The value of a tree, or the first name without a value that its evaluation comes to. Only the
-- chosen branch of a conditional is evaluated, and the right side of a logical operator only if the
-- left one does not decide.
def Tree.eval (b : Bindings) : Tree → Except String Value
  | literal v => .ok v
  | name n =>
    match b.get? n with
    | some v => .ok v
    | none   => .error n
  | unary op x => do
    return op.apply (← x.eval b)
  | binary op x y => do
    let v ← x.eval b
    let w ← y.eval b
    return op.apply v w
  | logical op x y => do
    let v ← x.eval b
    if op.decidedBy v then return v else y.eval b
  | conditional c x y => do
    if (← c.eval b).holds then x.eval b else y.eval b

end Ordo.Formula
