import Ordo.Day.Resolve

namespace Ordo.Day

open Resolved (ofFormula)

-- The identifiers of the movable commemorations that stand for a day's lessons.
def lessonRanges : List (Int × Int) := [(9000, 9315), (9849, 9900)]

def isLesson (c : Commemoration) : Bool :=
  c.isMovable && c.cidNumber?.any fun n => lessonRanges.any fun (first, last) =>
    first ≤ n && n ≤ last

def isTransferable (s : Service) : Bool :=
  s.office = .liturgy && s.readings.isSome

-- The readings of the movable liturgies of a day.
def movableReadings (d : Day) : List Reading :=
  (d.movable.flatMap (·.allServices)).filter (·.office = .liturgy)
    |>.flatMap (·.readings.getD [])

-- What a neighbouring day lends, if its own `Class3Transfers` holds by the commands `cs`.
def lend (l : Library) (cs : List Command) (date : Date) : Resolved (List Reading) := do
  let d ← resolve l date
  let b := (DayFacts.ofDate date).bindingsWithRank d.rank
  if ← ofFormula (Command.anyHolds (Command.named "Class3Transfers" cs) b) then
    return d.movableReadings
  else
    return []

-- What has been borrowed from the neighbouring days so far.
structure Borrowed where
  next     : Option (List Reading) := none
  previous : Option (List Reading) := none
deriving Inhabited

-- A reading list borrowed once is used again.
def borrow (l : Library) (cs : List Command) (date : Date) : Option (List Reading) →
    Resolved (List Reading)
  | some rs => return rs
  | none    => lend l cs date

-- What the transfer of one day needs to know.
structure Transfer where
  library  : Library
  date     : Date
  commands : List Command
  bindings : Bindings
  rank     : Int

namespace Transfer

def notice (t : Transfer) (cid status : String) (details : List (String × String)) : Notice where
  severity := .info
  event    := "transfer_apply"
  part     := "service"
  status   := status
  details  := [("date", t.date.text), ("cid", cid), ("rank", toString t.rank)] ++ details

def asks (t : Transfer) (name : String) : Resolved Bool :=
  ofFormula (Command.anyHolds (Command.named name t.commands) t.bindings)

-- The readings of both neighbours that the rules ask for, the next day's first.
def extra (t : Transfer) (w : Borrowed) : Resolved (List Reading × Borrowed) := do
  let (after, w) ←
    if ← t.asks "TransferRulesB" then do
      let rs ← borrow t.library t.commands (t.date.addDays 1) w.next
      pure (rs, { w with next := some rs })
    else pure ([], w)
  let (before, w) ←
    if ← t.asks "TransferRulesF" then do
      let rs ← borrow t.library t.commands (t.date.addDays (-1)) w.previous
      pure (rs, { w with previous := some rs })
    else pure ([], w)
  return (after ++ before, w)

def service (t : Transfer) (cid : String) (s : Service) (w : Borrowed) :
    Resolved (Service × Borrowed) := do
  if ← ofFormula (transferDisabled t.commands t.bindings) then
    .notice (t.notice cid "skipped" [])
    return (s, w)
  else if ← ofFormula (readingsSuppressed t.commands t.bindings) then
    .notice (t.notice cid "suppressed" [])
    return ({ s with readings := none }, w)
  else
    let (rs, w) ← t.extra w
    .notice (t.notice cid "ok" [("merged", toString rs.length)])
    return ({ s with readings := some (s.readings.getD [] ++ rs) }, w)

def services (t : Transfer) (cid : String) : List Service → Borrowed →
    Resolved (List Service × Borrowed)
  | [], w => return ([], w)
  | s :: ss, w => do
    let (s, w) ← if isTransferable s then t.service cid s w else pure (s, w)
    let (ss, w) ← t.services cid ss w
    return (s :: ss, w)

def commemoration (t : Transfer) (c : Commemoration) (w : Borrowed) :
    Resolved (Commemoration × Borrowed) :=
  match isLesson c, c.services with
  | true, some ss => do
    let (ss, w) ← t.services c.cid ss w
    return ({ c with services := some ss }, w)
  | _, _ => return (c, w)

def commemorations (t : Transfer) : List Commemoration → Borrowed →
    Resolved (List Commemoration × Borrowed)
  | [], w => return ([], w)
  | c :: cs, w => do
    let (c, w) ← t.commemoration c w
    let (cs, w) ← t.commemorations cs w
    return (c :: cs, w)

end Transfer

-- The day after the transfer of readings at a rank.
def applyTransfer (l : Library) (d : Day) (rank : Int) : Resolved Day := do
  let t : Transfer := {
    library  := l
    date     := d.date
    commands := d.commands
    bindings := (DayFacts.ofDate d.date).bindingsWithRank rank
    rank
  }
  let (cs, _) ← t.commemorations d.commemorations {}
  return { d with commemorations := cs }

-- The day of a date with its transfers, at its highest rank unless one is given.
def resolveWithTransfers (l : Library) (date : Date) (rank : Option Int) : Resolved Day := do
  let d ← resolve l date
  applyTransfer l d (rank.getD d.maxRank)

end Ordo.Day
