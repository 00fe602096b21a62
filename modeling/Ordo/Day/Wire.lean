import Ordo.Commemoration.Wire
import Ordo.Day.Basic

namespace Ordo.Wire

namespace Command

def encode (c : Ordo.Command) : Json := .object [
  ("name",    .text c.name),
  ("value",   .text c.value),
  ("comment", orNull .text c.comment)
]

def decode (j : Json) : Option Ordo.Command := do
  let [name, value, comment] ← fields? ["name", "value", "comment"] j | none
  return {
    name    := ← name >>= Json.toText?
    value   := ← value >>= Json.toText?
    comment := ← optional Json.toText? comment
  }

end Command

def encodeDate (d : Date) : Json := .object [
  ("year",  .integer d.year),
  ("month", .integer d.month),
  ("day",   .integer d.day)
]

def encodeDay (d : Day) : Json := .object [
  ("date",        encodeDate d.date),
  ("tone",        .integer d.tone),
  ("dayRank",     .integer d.rank),
  ("fastingCode", orNull .text d.fastingCode),
  ("saints",      .list (d.commemorations.map Commemoration.encode)),
  ("commands",    .list (d.commands.map Command.encode))
]

end Ordo.Wire
