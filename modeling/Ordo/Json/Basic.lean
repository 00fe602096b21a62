import Ordo.Number.Exact
import Ordo.Dictionary

namespace Ordo

-- Whole numbers that fit into 64 bits are kept apart from the other numbers, since binary64 cannot
-- hold all of them.
inductive Json
  | null
  | boolean (b : Bool)
  | integer (n : Int)
  | decimal (x : Float)
  | text (s : String)
  | list (items : List Json)
  | object (fields : List (String × Json))
deriving Inhabited

namespace Json

-- The last value under the name `k` of an object.
def field? (k : String) : Json → Option Json
  | object fields => (fields.reverse.find? (·.1 == k)).map (·.2)
  | _             => none

def toText? : Json → Option String
  | text s => some s
  | _      => none

def toBoolean? : Json → Option Bool
  | boolean b => some b
  | _         => none

def toInteger? : Json → Option Int
  | integer n => some n
  | _         => none

def toFloat? : Json → Option Float
  | integer n => some (.ofInt n)
  | decimal x => some x
  | _         => none

def toList? : Json → Option (List Json)
  | list items => some items
  | _          => none

-- The texts of an object in which every value is a text.
def toTexts? : Json → Option (Dictionary String)
  | object fields =>
    let texts? := fields.mapM fun (k, v) => v.toText?.map (k, ·)
    texts?.map Dictionary.ofList
  | _ => none

def ofTexts (texts : Dictionary String) : Json :=
  object (texts.entries.map fun (k, s) => (k, text s))

end Json

end Ordo
