import Ordo.Day.Basic
import Ordo.Day.Facts
import Ordo.Document.Biography
import Ordo.Document.Flat

namespace Ordo

inductive ResolveError
  | archive (e : ArchiveError)
  | malformed (path : String) (e : Document.Error)
  | formula (path : Option String) (e : Formula.Error)
  | noMovable (path : String)
  | date (e : CivilError)
deriving DecidableEq

namespace ResolveError

def message : ResolveError → String
  | archive e             => e.message
  | malformed path e      => s!"malformed document `{path}`: {e.message}"
  | formula (some path) e => s!"in `{path}`: {e.message}"
  | formula none e        => e.message
  | noMovable path        => s!"movable-cycle document `{path}` yielded no commemoration"
  | date e                => e.message

-- The error of the document at `path`.
def inDocument (path : String) : Document.Error → ResolveError
  | .formula e => formula (some path) e
  | e          => malformed path e

end ResolveError

-- A computation about a day, with its notices.
abbrev Resolved := Logged ResolveError

namespace Resolved

def ofArchive {α : Type} (x : Logged ArchiveError α) : Resolved α :=
  x.mapError .archive

def inDocument {α : Type} (d : SourceText) (r : Except Document.Error α) : Resolved α :=
  .ofExcept (r.mapError (.inDocument d.path))

def ofFormula {α : Type} (r : Except Formula.Error α) : Resolved α :=
  .ofExcept (r.mapError (.formula none))

end Resolved

namespace Day

open Resolved (ofArchive inDocument)

def toneNotice (date : Date) (tone : Int) (path : String) : Notice where
  severity := .warning
  event    := "tone_out_of_range"
  part     := "service"
  status   := "ok"
  details  := [("date", date.text), ("tone", toString tone), ("path", path)]

-- The movable commemorations of a day with their document. There is at least one of them.
def readMovable (l : Library) (f : DayFacts) : Resolved (SourceText × List Commemoration) := do
  let d ← ofArchive (f.place.read l)
  let cs ← inDocument d (Document.commemorations .movable d.text f.bindings)
  if cs.isEmpty then .fail (.noMovable d.path) else return (d, cs)

def readFixed (l : Library) (f : DayFacts) : Resolved (List Commemoration) := do
  let d ← ofArchive (l.menaion f.date.month f.date.day)
  inDocument d (Document.commemorations .fixed d.text f.bindings)

-- Adds the biographies of a commemoration, from the general to the specific. Each one is read with
-- the rank that the commemoration has by then.
def addBiographies (b : Bindings) : Commemoration → List SourceText → Resolved Commemoration
  | c, [] => return c
  | c, d :: ds => do
    let rank := Document.Walk.rankNumber c.rank
    let (r, _) := Document.biography d.text (b.withRank rank)
    addBiographies b (c.withBiography (← inDocument d r)) ds

def readBiographies (l : Library) (b : Bindings) (c : Commemoration) : Resolved Commemoration := do
  addBiographies b c (← ofArchive (l.lives c.cid))

-- The last fasting rule that applies; those of more specific documents come later.
def readFasting (l : Library) (b : Bindings) : Resolved (Option String) := do
  let codes ← (← ofArchive l.fasting).mapM fun d => inDocument d (Document.fastingCodes d.text b)
  return codes.flatten.getLast?

def readCommands (l : Library) (b : Bindings) : Resolved (List Command) := do
  let d ← ofArchive l.liturgy
  inDocument d (Document.commands d.text b)

-- Puts a day together from its documents.
def build (l : Library) (date : Date) : Resolved Day := do
  let f := DayFacts.ofDate date
  let (d, movable) ← readMovable l f
  let tone := toneOf movable
  unless 1 ≤ tone && tone ≤ 8 do
    .notice (toneNotice date tone d.path)
  let fixed ← readFixed l f
  let commemorations ← (movable ++ fixed).mapM (readBiographies l f.bindings)
  let rank := dayRankOf commemorations
  let b := f.bindingsWithRank rank
  let fastingCode ← readFasting l b
  let commands ← if Ordo.hasLiturgy commemorations then readCommands l b else pure []
  return { date, tone, rank, fastingCode, commemorations, commands }

def resolveNotice (severity : Severity) (status : String) (l : Library) (date : Date)
    (details : List (String × String)) : Notice where
  severity := severity
  event    := "day_resolve"
  part     := "service"
  status   := status
  details  := [("date", date.text), ("lang", l.language)] ++ details

-- The notice at the end of a resolution.
def endNotice (l : Library) (date : Date) : Except ResolveError Day → Notice
  | .ok d => resolveNotice .info "ok" l date [
      ("saints", toString d.commemorations.length), ("tone", toString d.tone),
      ("day_rank", toString d.rank)]
  | .error e => resolveNotice .error "error" l date [("error", e.message)]

-- The day of a date, before any readings are moved between days.
def resolve (l : Library) (date : Date) : Resolved Day :=
  let built := build l date
  {
    result  := built.result
    notices := resolveNotice .info "start" l date [] :: built.notices ++
      [endNotice l date built.result]
  }

def resolveCivil (l : Library) (d : Civil) : Resolved Day := do
  resolve l (← .ofExcept ((Date.ofJulian d).mapError .date))

end Day

end Ordo
