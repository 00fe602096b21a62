import Ordo.Text.Basic

namespace Ordo.Journal

inductive Level
  | trace
  | debug
  | info
  | warn
  | error
deriving DecidableEq, Repr, Inhabited

namespace Level

def name : Level → String
  | trace => "trace"
  | debug => "debug"
  | info  => "info"
  | warn  => "warn"
  | error => "error"

-- The level where none is asked for.
def standard : Level := info

-- Names are read without regard to case and to blanks around them.
def normalName (s : String) : String :=
  (Text.trim s).map Char.toLower

def unknownName (s : String) : String :=
  s!"unsupported log level `{normalName s}`; expected trace|debug|info|warn|error"

def ofName? (s : String) : Option Level :=
  match normalName s with
  | "trace"            => some trace
  | "debug"            => some debug
  | "info"             => some info
  | "warn" | "warning" => some warn
  | "error"            => some error
  | _                  => none

end Level

end Ordo.Journal
