import Ordo.Commemoration.Basic
import Ordo.Json.Basic

namespace Ordo.Wire

-- The values of the fields `names` of a record, which may also be given as a list of them in their
-- order. Unknown fields are ignored.
def fields? (names : List String) : Json → Option (List (Option Json))
  | .list items =>
    if items.length ≤ names.length then
      some (items.map some ++ List.replicate (names.length - items.length) none)
    else none
  | .object fields => some (names.map fun k => (Json.object fields).field? k)
  | _ => none

-- A field that is none where it is missing or null.
def optional {α : Type} (decode : Json → Option α) : Option Json → Option (Option α)
  | none | some .null => some none
  | some j            => (decode j).map some

-- A name may also be given as an object with that name alone.
def label? : Json → Option String
  | .text s             => some s
  | .object [(s, .null)] => some s
  | _                   => none

def orNull {α : Type} (encode : α → Json) : Option α → Json
  | some a => encode a
  | none   => .null

-- A field that is left out where it is none.
def orAbsent {α : Type} (name : String) (encode : α → Json) : Option α → List (String × Json)
  | some a => [(name, encode a)]
  | none   => []

namespace Value

def encode : Ordo.Value → Json
  | .truth b  => .boolean b
  | .number x => if x.isFinite then .decimal x else .null
  | .text s   => .text s

def decode : Json → Option Ordo.Value
  | .boolean b => some (.truth b)
  | .text s    => some (.text s)
  | j          => j.toFloat?.map .number

end Value

namespace Reading

def encode (r : Ordo.Reading) : Json := .object [
  ("effWeek",  orNull .text r.week),
  ("pericope", orNull .text r.pericope),
  ("reading",  .text r.citation),
  ("type",     orNull .text r.kind)
]

def decode (j : Json) : Option Ordo.Reading := do
  let [week, pericope, citation, kind] ← fields? ["effWeek", "pericope", "reading", "type"] j | none
  return {
    week     := ← optional Json.toText? week
    pericope := ← optional Json.toText? pericope
    citation := ← citation >>= Json.toText?
    kind     := ← optional Json.toText? kind
  }

end Reading

namespace Office

def label : Ordo.Office → String
  | .vespers   => "vespers"
  | .matins    => "matins"
  | .liturgy   => "liturgy"
  | .sixthHour => "sexte"
  | .firstHour => "prime"
  | .thirdHour => "terce"
  | .ninthHour => "none"

def all : List Ordo.Office :=
  [.vespers, .matins, .liturgy, .sixthHour, .firstHour, .thirdHour, .ninthHour]

def decode (j : Json) : Option Ordo.Office := do
  let s ← label? j
  all.find? (label · = s)

end Office

namespace Service

def encode (s : Ordo.Service) : Json := .object <|
  [("type", .text (Office.label s.office))] ++
  orAbsent "readings" (fun rs => .list (rs.map Reading.encode)) s.readings

def decode (j : Json) : Option Ordo.Service := do
  let [office, readings] ← fields? ["type", "readings"] j | none
  return {
    office   := ← office >>= Office.decode
    readings := ← optional (fun j => j.toList?.bind (·.mapM Reading.decode)) readings
  }

end Service

namespace Life

-- The name of the text among the attributes; an attribute of this name gives way to it.
def textField : String := "Text"

def encode (l : Ordo.Life) : Json :=
  .ofTexts (l.attributes.insert textField l.text)

def decode (j : Json) : Option Ordo.Life := do
  let texts ← j.toTexts?
  return { attributes := texts.erase textField, text := ← texts.get? textField }

end Life

namespace Cycle

def label : Ordo.Cycle → String
  | .movable => "pentecostarion"
  | .fixed   => "menaion"

def decode (j : Json) : Option Ordo.Cycle := do
  match ← label? j with
  | "pentecostarion" => some .movable
  | "menaion"        => some .fixed
  | _                => none

end Cycle

namespace Commemoration

def encode (c : Ordo.Commemoration) : Json := .object <| [
    ("cid",        .text c.cid),
    ("src",        .text (Cycle.label c.cycle)),
    ("menologion", .text c.menologion),
    ("type",       orNull Value.encode c.rank),
    ("name",       orNull .ofTexts c.name),
    ("info",       orNull .ofTexts c.info),
    ("life",       orNull Life.encode c.life),
    ("ref",        orNull .text c.reference)
  ] ++ orAbsent "services" (fun ss => .list (ss.map Service.encode)) c.services

def fieldNames : List String :=
  ["cid", "src", "menologion", "type", "name", "info", "life", "ref", "services"]

def decode (j : Json) : Option Ordo.Commemoration := do
  let [cid, cycle, menologion, rank, name, info, life, reference, services] ← fields? fieldNames j
    | none
  return {
    cid        := ← cid >>= Json.toText?
    cycle      := ← cycle >>= Cycle.decode
    menologion := ← (menologion.getD (.text "")).toText?
    rank       := ← optional Value.decode rank
    name       := ← optional Json.toTexts? name
    info       := ← optional Json.toTexts? info
    life       := ← optional Life.decode life
    reference  := ← optional Json.toText? reference
    services   := ← optional (fun j => j.toList?.bind (·.mapM Service.decode)) services
  }

end Commemoration

end Ordo.Wire
