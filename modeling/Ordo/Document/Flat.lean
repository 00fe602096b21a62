import Ordo.Command
import Ordo.Commemoration.Basic
import Ordo.Document.Basic

namespace Ordo.Document

def cycleTags : List String := ["DAY", "SAINT"]

def readSaint (cycle : Cycle) (b : Bindings) (e : Markup.Element) :
    Except Error (Option Commemoration) := do
  expectTag cycleTags e
  if e.tag = "SAINT" then
    let cid ← required e "CId"
    let rank ← (e.attributes.get? "Tone").mapM fun tone => (evaluate tone b).mapError .formula
    let menologion := (e.attributes.get? "Src").getD ""
    return some { cid, cycle, menologion, rank }
  else return none

-- The commemorations of a day in one of the cycles.
def commemorations (cycle : Cycle) (source : String) (b : Bindings) :
    Except Error (List Commemoration) :=
  records (readSaint cycle b) source b

def fastingTags : List String := ["FASTING", "PERIOD", "RULE"]

def readRule (e : Markup.Element) : Except Error (Option String) := do
  expectTag fastingTags e
  if e.attributes.contains "Tone" then
    throw (.unexpectedAttribute e.tag "Tone")
  if e.tag = "RULE" then some <$> required e "Case" else return none

-- The codes of the fasting rules that apply; the last one decides.
def fastingCodes (source : String) (b : Bindings) : Except Error (List String) :=
  records readRule source b

def commandTags : List String := ["DATA", "COMMAND"]

def readCommand (e : Markup.Element) : Except Error (Option Command) := do
  expectTag commandTags e
  if e.tag = "COMMAND" then
    let name ← required e "Name"
    let value ← required e "Value"
    return some { name, value, comment := e.attributes.get? "Comment" }
  else return none

-- The commands of a table, whose values are not evaluated here.
def commands (source : String) (b : Bindings) : Except Error (List Command) :=
  records readCommand source b

end Ordo.Document
