import Ordo.Formula.Basic

namespace Ordo

-- A named condition of the Divine Liturgy. It is evaluated each time that it is asked.
structure Command where
  name    : String
  value   : String
  comment : Option String := none
deriving DecidableEq, Repr, Inhabited

namespace Command

def holds (c : Command) (b : Bindings) : Except Formula.Error Bool :=
  (evaluate c.value b).map Value.holds

-- Whether one of the commands holds; those behind the first that does are not evaluated.
def anyHolds (cs : List Command) (b : Bindings) : Except Formula.Error Bool :=
  cs.anyM (·.holds b)

def named (name : String) (cs : List Command) : List Command :=
  cs.filter (·.name = name)

end Command

namespace Day

-- Whether some `Transfer` command does not hold.
def transferDisabled (cs : List Command) (b : Bindings) : Except Formula.Error Bool :=
  (Command.named "Transfer" cs).anyM fun c => return !(← c.holds b)

def suppresses (c : Command) : Bool :=
  c.name = "Suppress" || c.name = "Class3Transfers"

-- Whether a `Suppress` or `Class3Transfers` command holds. The commands of all names are evaluated
-- in their order up to that one.
def readingsSuppressed (cs : List Command) (b : Bindings) : Except Formula.Error Bool :=
  cs.anyM fun c => return (← c.holds b) && suppresses c

end Day

end Ordo
