import Ordo.Formula.Basic
import Ordo.Markup.Event

namespace Ordo.Markup

-- The attribute that holds the guard of an element.
def guardAttribute : String := "Cmd"

def guardHolds (attributes : Attributes) (b : Bindings) : Except Formula.Error Bool :=
  match attributes.get? guardAttribute with
  | none   => .ok true
  | some g => (evaluate g b).map Value.holds

-- The state of the pruning between two events.
structure Pruner where
  -- Whether the events are in a part that is left out.
  skipping : Bool := false
  -- One mark for each element that is open, innermost first: whether the skipping began with it.
  marks    : List Bool := []
deriving DecidableEq, Inhabited

namespace Pruner

def depth (p : Pruner) : Nat :=
  p.marks.length

-- Takes the next event, and gives it back if it is to be kept. Guards inside of a part that is left
-- out are not evaluated.
def feed (p : Pruner) (e : Event) (b : Bindings) : Except Formula.Error (Pruner × Option Event) :=
  match e with
  | .enter _ attributes =>
    if p.skipping then .ok ({ p with marks := false :: p.marks }, none)
    else do
      if ← guardHolds attributes b then return ({ p with marks := false :: p.marks }, some e)
      else return (⟨true, true :: p.marks⟩, none)
  | .exit _ =>
    let marks := p.marks.tail
    if p.marks.headD false then .ok (⟨false, marks⟩, none)
    else .ok (⟨p.skipping, marks⟩, if p.skipping then none else some e)
  | .text _ => .ok (p, if p.skipping then none else some e)

def push (mark : Bool) : StateM Pruner Unit :=
  modify fun p => { p with marks := mark :: p.marks }

-- Takes the innermost mark away. Outside of all elements there is none.
def pop : StateM Pruner Bool :=
  modifyGet fun p => (p.marks.headD false, { p with marks := p.marks.tail })

-- Takes the next event on a state that changes in place. What has been changed before a failure
-- would stay changed, so a guard is evaluated ahead of all changes.
def take (e : Event) (b : Bindings) : ExceptT Formula.Error (StateM Pruner) (Option Event) := do
  match e with
  | .enter _ attributes =>
    if (← get).skipping then
      push false
      return none
    unless ← guardHolds attributes b do
      modify fun p => { p with skipping := true }
      push true
      return none
    push false
    return some e
  | .exit _ =>
    if ← pop then
      modify fun p => { p with skipping := false }
      return none
    return if (← get).skipping then none else some e
  | .text _ => return if (← get).skipping then none else some e

-- The kept ones of the events that follow on the state `p`, up to the first guard without a value.
def run (b : Bindings) (p : Pruner) : List Event → List Event × Option Formula.Error
  | [] => ([], none)
  | e :: es =>
    match p.feed e b with
    | .error f => ([], some f)
    | .ok (p, kept) =>
      let (rest, f) := p.run b es
      (kept.toList ++ rest, f)

end Pruner

-- The events that remain of a document, and the first guard without a value, at which they end.
def prune (b : Bindings) (es : List Event) : List Event × Option Formula.Error :=
  ({} : Pruner).run b es

end Ordo.Markup
