import Ordo.Commemoration.Basic
import Ordo.Document.Basic

namespace Ordo.Document

-- What has been read of a biography up to some event.
structure Walk where
  biography : Biography := {}
  -- The services in the order of their elements, each with its readings so far.
  offices   : List (Office × List Reading) := []
  current   : Option Office := none
  inLife    : Bool := false
deriving Inhabited

namespace Walk

def nonEmpty (e : Markup.Element) (name : String) : Option String :=
  (e.attributes.get? name).filter (!·.isEmpty)

-- The attributes of an element other than its guard.
def unguarded (e : Markup.Element) : Markup.Attributes :=
  e.attributes.erase Markup.guardAttribute

def readingOf (e : Markup.Element) : Except Error Reading := do
  let citation ← required e "Reading"
  return {
    week     := nonEmpty e "EffWeek"
    pericope := nonEmpty e "Pericope"
    citation
    kind     := nonEmpty e "Type"
  }

def rankOf (e : Markup.Element) : Option Value :=
  (nonEmpty e "Type").map .text

-- The number of a rank; 0 if there is none.
def rankNumber (rank : Option Value) : Float :=
  match rank with
  | some v => v.toNumber
  | none   => 0.0

-- A reading belongs to the service that it stands in.
def addReading (w : Walk) (office : Office) (r : Reading) : Walk :=
  { w with offices := w.offices.map fun (o, rs) => (o, if o = office then rs ++ [r] else rs) }

def enter (w : Walk) (e : Markup.Element) (b : Bindings) : Except Error (Walk × Bindings) :=
  let doc := w.biography
  match e.tag with
  | "NAME" => .ok ({ w with biography.name := overlaid doc.name (some (unguarded e)) }, b)
  | "INFO" => .ok ({ w with biography.info := overlaid doc.info (some (unguarded e)) }, b)
  | "REF" =>
    if e.attributes.contains "Type" then .ok (w, b)
    else .ok ({ w with biography.reference := e.attributes.get? "CId" }, b)
  | "SERVICE" =>
    let rank := rankOf e
    .ok ({ w with biography.rank := some rank }, b.withRank (rankNumber rank))
  | "SCRIPTURE" =>
    match w.current with
    | none        => .ok (w, b)
    | some office => (readingOf e).map fun r => (w.addReading office r, b)
  | "LIFE" =>
    .ok ({ w with biography.life := some ⟨unguarded e, ""⟩, inLife := true }, b)
  | tag =>
    match Office.ofTag? tag with
    | none        => .ok (w, b)
    | some office =>
      .ok ({ w with current := some office, offices := w.offices ++ [(office, [])] }, b)

def exit (w : Walk) (tag : String) : Walk :=
  if tag = "LIFE" then { w with inLife := false }
  else if (Office.ofTag? tag).isSome then { w with current := none }
  else w

-- Carriage returns do not count as text.
def text (w : Walk) (s : String) : Walk :=
  match w.inLife, w.biography.life with
  | true, some life =>
    let more := String.ofList (s.toList.filter (· ≠ '\r'))
    { w with biography.life := some { life with text := life.text ++ more } }
  | _, _ => w

def step (w : Walk) (e : Markup.Event) (b : Bindings) : Except Error (Walk × Bindings) :=
  match e with
  | .enter tag attributes => w.enter ⟨tag, attributes⟩ b
  | .exit tag             => .ok (w.exit tag, b)
  | .text s               => .ok (w.text s, b)

def result (w : Walk) : Biography :=
  { w.biography with
    services := w.offices.map fun (office, rs) => ⟨office, if rs.isEmpty then none else some rs⟩ }

-- Goes on with the remaining events. A service sets the rank that the guards behind it see, so the
-- events are pruned and read side by side. The bindings at the end are those of the last event that
-- was read without an error.
def run (w : Walk) (p : Markup.Pruner) (b : Bindings) :
    List Markup.Event → Except Error Biography × Bindings
  | [] => (.ok w.result, b)
  | e :: es =>
    match p.feed e b with
    | .error f         => (.error (.formula f), b)
    | .ok (p, none)    => w.run p b es
    | .ok (p, some e) =>
      match w.step e b with
      | .error f     => (.error f, b)
      | .ok (w, b) => w.run p b es

end Walk

-- The biography of a document, and the bindings as its services leave them.
def biography (source : String) (b : Bindings) : Except Error Biography × Bindings :=
  match Markup.read source with
  | .error e => (.error (.markup e), b)
  | .ok es   => ({} : Walk).run {} b es

end Ordo.Document
