import Ordo.Archive.Basic
import Ordo.Archive.Bundle
import Ordo.Archive.Database
import Ordo.Archive.Directory
import Ordo.Archive.Library
import Ordo.Calendar
import Ordo.Command
import Ordo.Commemoration.Basic
import Ordo.Commemoration.Wire
import Ordo.Date
import Ordo.Day.Basic
import Ordo.Day.Facts
import Ordo.Day.Resolve
import Ordo.Day.Transfer
import Ordo.Day.Wire
import Ordo.Dictionary
import Ordo.Document.Basic
import Ordo.Document.Biography
import Ordo.Document.Flat
import Ordo.FileTree
import Ordo.Formula.Basic
import Ordo.Formula.Parser
import Ordo.Formula.Token
import Ordo.Formula.Tree
import Ordo.Journal
import Ordo.Journal.Level
import Ordo.Journal.Target
import Ordo.Json.Basic
import Ordo.Json.Printer
import Ordo.Json.Reader
import Ordo.Markup.Attribute
import Ordo.Markup.Entity
import Ordo.Markup.Event
import Ordo.Markup.Piece
import Ordo.Markup.Pruner
import Ordo.Markup.Reader
import Ordo.Number.Exact
import Ordo.Number.Literal
import Ordo.Number.Shortest
import Ordo.Pascha
import Ordo.Proofs.Archive.Alike
import Ordo.Proofs.Archive.Confinement
import Ordo.Proofs.Archive.Interchange
import Ordo.Proofs.Archive.Library
import Ordo.Proofs.Archive.Lookup
import Ordo.Proofs.Archive.Reading
import Ordo.Proofs.Calendar.Civil
import Ordo.Proofs.Calendar.Gregorian
import Ordo.Proofs.Calendar.Ordinal
import Ordo.Proofs.Calendar.Year
import Ordo.Proofs.Command
import Ordo.Proofs.Commemoration
import Ordo.Proofs.Commemoration.Wire
import Ordo.Proofs.Date
import Ordo.Proofs.Day.Cycle
import Ordo.Proofs.Day.Failure
import Ordo.Proofs.Day.Fasting
import Ordo.Proofs.Day.Frame
import Ordo.Proofs.Day.Layers
import Ordo.Proofs.Day.Lending
import Ordo.Proofs.Day.Locality
import Ordo.Proofs.Day.Names
import Ordo.Proofs.Day.Order
import Ordo.Proofs.Day.Outcome
import Ordo.Proofs.Day.Resolve
import Ordo.Proofs.Day.Saints
import Ordo.Proofs.Day.Transfer
import Ordo.Proofs.Day.WellFormed
import Ordo.Proofs.Document.Biography
import Ordo.Proofs.Document.Checks
import Ordo.Proofs.Document.Extension
import Ordo.Proofs.Document.Flat
import Ordo.Proofs.Document.Names
import Ordo.Proofs.Document.Order
import Ordo.Proofs.Document.Overlay
import Ordo.Proofs.Document.Scripture
import Ordo.Proofs.Document.Shape
import Ordo.Proofs.Document.Walk
import Ordo.Proofs.FileTree
import Ordo.Proofs.Formula.Evaluation
import Ordo.Proofs.Formula.Grammar
import Ordo.Proofs.Formula.Lexemes
import Ordo.Proofs.Formula.Misparse
import Ordo.Proofs.Formula.Names
import Ordo.Proofs.Formula.Parsing
import Ordo.Proofs.Formula.Reading
import Ordo.Proofs.Formula.Spelling
import Ordo.Proofs.Machine.Calendar
import Ordo.Proofs.Machine.Paschalion
import Ordo.Proofs.Markup.Balance
import Ordo.Proofs.Markup.Escaping
import Ordo.Proofs.Markup.Forest
import Ordo.Proofs.Markup.Marks
import Ordo.Proofs.Markup.Nesting
import Ordo.Proofs.Markup.Pruning
import Ordo.Proofs.Markup.Tag
import Ordo.Proofs.Markup.Writing
import Ordo.Proofs.Number.Binary
import Ordo.Proofs.Number.Numeral
import Ordo.Proofs.Number.Rounding
import Ordo.Proofs.Number.Word
import Ordo.Proofs.Pascha
import Ordo.Proofs.Paschalion
import Ordo.Proofs.Reform
import Ordo.Proofs.Result
import Ordo.Proofs.Settings
import Ordo.Proofs.Sun.Hours
import Ordo.Proofs.Text.Segments
import Ordo.Proofs.Text.Trimming
import Ordo.Proofs.Value
import Ordo.Settings
import Ordo.Sun.Horizon
import Ordo.Sun.Times
import Ordo.Text.Basic
import Ordo.Text.Quoted
import Ordo.Value
