import Ordo.Markup.Pruner
import Ordo.Markup.Reader

namespace Ordo.Document

inductive Error
  | markup (e : Markup.Error)
  | formula (e : Formula.Error)
  | unexpectedTag (tag : String) (expected : List String)
  | missingAttribute (tag name : String)
  | unexpectedAttribute (tag name : String)
deriving DecidableEq

def Error.message : Error → String
  | markup e  => e.message
  | formula e => e.message
  | unexpectedTag tag expected =>
    s!"unexpected element <{tag}>; expected one of " ++ ", ".intercalate expected
  | missingAttribute tag name => s!"element <{tag}> is missing required attribute `{name}`"
  | unexpectedAttribute tag name => s!"element <{tag}> must not carry attribute `{name}`"

-- The elements of a document that remain after pruning. A guard without a value is an error.
def survivors (source : String) (b : Bindings) : Except Error (List Markup.Element) := do
  let es ← (Markup.read source).mapError .markup
  match Markup.prune b es with
  | (kept, none)   => return Markup.elements kept
  | (_,    some f) => throw (.formula f)

def expectTag (expected : List String) (e : Markup.Element) : Except Error Unit :=
  if e.tag ∈ expected then .ok () else .error (.unexpectedTag e.tag expected)

def required (e : Markup.Element) (name : String) : Except Error String :=
  match e.attributes.get? name with
  | some s => .ok s
  | none   => .error (.missingAttribute e.tag name)

-- The records that `read` makes of the remaining elements of a document, in their order.
def records {α : Type} (read : Markup.Element → Except Error (Option α)) (source : String)
    (b : Bindings) : Except Error (List α) := do
  let rs ← (← survivors source b).mapM read
  return rs.filterMap id

end Ordo.Document
