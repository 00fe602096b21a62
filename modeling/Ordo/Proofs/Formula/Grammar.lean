import Ordo.Formula.Parser

namespace Ordo.Formula

inductive Nonterminal
  | conditional
  | chain (l : Level)
  | unary
  | primary

namespace Level

def operands : Level → Nonterminal
  | or       => .chain and
  | and      => .chain equality
  | equality => .chain relation
  | relation => .chain sum
  | sum      => .chain product
  | product  => .unary

-- `Joins l s f`: the symbol `s` stands between two operands of the level `l`, and `f` is the tree
-- of the whole.
inductive Joins : Level → Symbol → (Tree → Tree → Tree) → Prop
  | either          : Joins or .either (.logical .or)
  | both            : Joins and .both (.logical .and)
  | equal           : Joins equality .equal (.binary .equal)
  | unequal         : Joins equality .unequal (.binary .unequal)
  | strictlyEqual   : Joins equality .strictlyEqual (.binary .strictlyEqual)
  | strictlyUnequal : Joins equality .strictlyUnequal (.binary .strictlyUnequal)
  | less            : Joins relation .less (.binary .less)
  | greater         : Joins relation .greater (.binary .greater)
  | atMost          : Joins relation .atMost (.binary .atMost)
  | atLeast         : Joins relation .atLeast (.binary .atLeast)
  | plus            : Joins sum .plus (.binary .add)
  | minus           : Joins sum .minus (.binary .subtract)
  | star            : Joins product .star (.binary .multiply)
  | slash           : Joins product .slash (.binary .divide)
  | percent         : Joins product .percent (.binary .remainder)

end Level

inductive Precedes : Symbol → UnaryOp → Prop
  | bang  : Precedes .bang .not
  | minus : Precedes .minus .negate
  | plus  : Precedes .plus .plus

inductive Denotes : Token → Tree → Prop
  | number {x} : Denotes (.number x) (.literal (.number x))
  | text {s}   : Denotes (.text s) (.literal (.text s))
  | truth {b}  : Denotes (.truth b) (.literal (.truth b))
  | name {s}   : Denotes (.name s) (.name s)

-- `Derives n ts t`: the tokens `ts` can be derived from `n`, and `t` is the tree of the derivation.
inductive Derives : Nonterminal → List Token → Tree → Prop
  | plain {ts t} :
    Derives (.chain .or) ts t → Derives .conditional ts t
  | conditional {cs xs ys c x y} :
    Derives (.chain .or) cs c → Derives .conditional xs x → Derives .conditional ys y →
    Derives .conditional (cs ++ .symbol .question :: (xs ++ .symbol .colon :: ys))
      (.conditional c x y)
  | operand {l ts t} :
    Derives l.operands ts t → Derives (.chain l) ts t
  | link {l s f xs ys x y} :
    l.Joins s f → Derives (.chain l) xs x → Derives l.operands ys y →
    Derives (.chain l) (xs ++ .symbol s :: ys) (f x y)
  | primary {ts t} :
    Derives .primary ts t → Derives .unary ts t
  | unary {s op ts t} :
    Precedes s op → Derives .unary ts t → Derives .unary (.symbol s :: ts) (.unary op t)
  | single {k t} :
    Denotes k t → Derives .primary [k] t
  | enclosed {ts t} :
    Derives .conditional ts t →
    Derives .primary (.symbol .opening :: (ts ++ [.symbol .closing])) t

theorem Level.operator?_eq_some_iff {l : Level} {s : Symbol} {f : Tree → Tree → Tree} :
    l.operator? s = some f ↔ l.Joins s f := by
  constructor
  case mp =>
    intro h
    unfold operator? at h
    split at h
    all_goals cases h
    all_goals constructor
  case mpr =>
    intro h
    cases h <;> rfl

-- No symbol is an operator of two levels.
theorem Level.Joins.level_unique {l l' : Level} {s : Symbol} {f f' : Tree → Tree → Tree}
    (h : l.Joins s f) (h' : l'.Joins s f') : l = l' := by
  cases h <;> cases h' <;> rfl

theorem unaryOperator?_eq_some_iff {s : Symbol} {op : UnaryOp} :
    unaryOperator? s = some op ↔ Precedes s op := by
  constructor
  case mp =>
    intro h
    unfold unaryOperator? at h
    split at h
    all_goals cases h
    all_goals constructor
  case mpr =>
    intro h
    cases h <;> rfl

end Ordo.Formula
