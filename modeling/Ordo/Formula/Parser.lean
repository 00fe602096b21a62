import Ordo.Formula.Token
import Ordo.Formula.Tree

namespace Ordo.Formula

inductive MisparseCause
  | trailingInput
  | missingColon
  | missingParenthesis
  | noValue
  | endOfInput
deriving DecidableEq, Repr

def MisparseCause.message : MisparseCause → String
  | trailingInput      => "unexpected trailing input"
  | missingColon       => "expected `:` in conditional expression"
  | missingParenthesis => "expected `)`"
  | noValue            => "expected a value"
  | endOfInput         => "unexpected end of expression"

-- Why no tree can be read, and the tokens from the first one that does not fit.
structure Misparse where
  cause : MisparseCause
  rest  : List Located
deriving DecidableEq

-- What is left of `ts` after at least one token of it has been read.
abbrev Behind (ts : List Located) := { rest : List Located // rest.length < ts.length }

-- A tree read from the start of `ts` and the tokens behind it.
abbrev Parsed (ts : List Located) := Except Misparse (Tree × Behind ts)

-- The levels of the operators that stand between two operands, from the loosest one.
inductive Level
  | or
  | and
  | equality
  | relation
  | sum
  | product
deriving DecidableEq, Repr

namespace Level

def tighter? : Level → Option Level
  | or       => some and
  | and      => some equality
  | equality => some relation
  | relation => some sum
  | sum      => some product
  | product  => none

def height : Level → Nat
  | or       => 6
  | and      => 5
  | equality => 4
  | relation => 3
  | sum      => 2
  | product  => 1

theorem height_le (l : Level) : l.height ≤ 6 := by
  cases l <;> decide

theorem height_tighter {l l' : Level} (h : l.tighter? = some l') : l.height = l'.height + 1 := by
  cases l <;> cases h <;> rfl

-- What an operator of a level makes of its two operands.
def operator? : Level → Symbol → Option (Tree → Tree → Tree)
  | or,       .either          => some (.logical .or)
  | and,      .both            => some (.logical .and)
  | equality, .equal           => some (.binary .equal)
  | equality, .unequal         => some (.binary .unequal)
  | equality, .strictlyEqual   => some (.binary .strictlyEqual)
  | equality, .strictlyUnequal => some (.binary .strictlyUnequal)
  | relation, .less            => some (.binary .less)
  | relation, .greater         => some (.binary .greater)
  | relation, .atMost          => some (.binary .atMost)
  | relation, .atLeast         => some (.binary .atLeast)
  | sum,      .plus            => some (.binary .add)
  | sum,      .minus           => some (.binary .subtract)
  | product,  .star            => some (.binary .multiply)
  | product,  .slash           => some (.binary .divide)
  | product,  .percent         => some (.binary .remainder)
  | _,        _                => none

end Level

def unaryOperator? : Symbol → Option UnaryOp
  | .bang  => some .not
  | .minus => some .negate
  | .plus  => some .plus
  | _      => none

-- What `f` makes of a symbol at the start of `ts`, and the tokens behind the symbol.
def symbolAt? {α : Type} (f : Symbol → Option α) : (ts : List Located) → Option (α × Behind ts)
  | ⟨.symbol s, _⟩ :: rest => (f s).map (·, ⟨rest, by simp⟩)
  | _                      => none

-- The tokens behind the symbol `s`, if `ts` begins with it.
def after? (s : Symbol) (ts : List Located) : Option (Behind ts) :=
  (symbolAt? (fun s' => if s' = s then some () else none) ts).map (·.2)

-- The grammar, from the loosest to the tightest binding:
--   conditional := or [? conditional : conditional]
--   or, and, equality, relation, sum, product: chains of the next level that associate to the left
--   unary       := (! | - | +) unary | primary
--   primary     := literal | name | ( conditional )
mutual

def conditional (ts : List Located) : Parsed ts := do
  let (c, ⟨r, _⟩) ← chain .or ts
  match after? .question r with
  | none => return (c, ⟨r, by omega⟩)
  | some ⟨r, _⟩ =>
    let (x, ⟨r, _⟩) ← conditional r
    match after? .colon r with
    | none => throw ⟨.missingColon, r⟩
    | some ⟨r, _⟩ =>
      let (y, ⟨r, _⟩) ← conditional r
      return (.conditional c x y, ⟨r, by omega⟩)
termination_by 16 * ts.length + 14
decreasing_by
  · simp [Level.height]
  · omega
  · omega

-- A chain of operands of the level `l`.
def chain (l : Level) (ts : List Located) : Parsed ts := do
  let (x, ⟨r, _⟩) ← operand l ts
  let (x, ⟨r, _⟩) ← links l x r
  return (x, ⟨r, by omega⟩)
termination_by 16 * ts.length + 2 * l.height + 1
decreasing_by
  · omega
  · omega

-- The operators of the level `l` that follow the operand `x`, with their right operands.
def links (l : Level) (x : Tree) (ts : List Located) :
    Except Misparse (Tree × { rest : List Located // rest.length ≤ ts.length }) :=
  match symbolAt? l.operator? ts with
  | none => return (x, ⟨ts, Nat.le_refl _⟩)
  | some (op, ⟨r, _⟩) => do
    let (y, ⟨r, _⟩) ← operand l r
    let (x, ⟨r, _⟩) ← links l (op x y) r
    return (x, ⟨r, by omega⟩)
termination_by 16 * ts.length
decreasing_by
  · have := l.height_le; omega
  · omega

-- An operand of the level `l`: a chain of the next level or, behind the last one, a unary.
def operand (l : Level) (ts : List Located) : Parsed ts :=
  match _h : l.tighter? with
  | some l' => chain l' ts
  | none    => unary ts
termination_by 16 * ts.length + 2 * l.height
decreasing_by
  · have := Level.height_tighter _h; omega
  · cases l <;> simp [Level.height]

def unary (ts : List Located) : Parsed ts :=
  match symbolAt? unaryOperator? ts with
  | none => primary ts
  | some (op, ⟨r, _⟩) => do
    let (x, ⟨r, _⟩) ← unary r
    return (.unary op x, ⟨r, by omega⟩)
termination_by 16 * ts.length + 1

def primary (ts : List Located) : Parsed ts :=
  match ts with
  | [] => throw ⟨.endOfInput, []⟩
  | t :: r =>
    match t.token with
    | .number x => return (.literal (.number x), ⟨r, by simp⟩)
    | .text s   => return (.literal (.text s), ⟨r, by simp⟩)
    | .truth b  => return (.literal (.truth b), ⟨r, by simp⟩)
    | .name n   => return (.name n, ⟨r, by simp⟩)
    | .symbol .opening => do
      let (x, ⟨r, _⟩) ← conditional r
      match after? .closing r with
      | none         => throw ⟨.missingParenthesis, r⟩
      | some ⟨r, _⟩ => return (x, ⟨r, by simp; omega⟩)
    | .symbol _ => throw ⟨.noValue, ts⟩
termination_by 16 * ts.length

end

-- The tree that the whole of `ts` stands for.
def Tree.ofTokens (ts : List Located) : Except Misparse Tree := do
  let (x, ⟨rest, _⟩) ← Formula.conditional ts
  unless rest.isEmpty do
    throw ⟨.trailingInput, rest⟩
  return x

end Ordo.Formula
