import Ordo.Json.Basic
import Ordo.Number.Shortest
import Ordo.Text.Basic

namespace Ordo.Json

def escaped (c : Char) : String :=
  match c with
  | '"'  => "\\\""
  | '\\' => "\\\\"
  | '\n' => "\\n"
  | '\r' => "\\r"
  | '\t' => "\\t"
  | c    =>
    if c < ' ' then
      let digits := Text.hexDigits c.toNat
      "\\u" ++ Number.zeros (4 - digits.length) ++ digits
    else c.toString

def quoted (s : String) : String :=
  "\"" ++ String.join (s.toList.map escaped) ++ "\""

-- A number that is not whole by its type has a point; the numbers without digits are null.
def decimalText (x : Float) : String :=
  if x.isFinite then
    let digits := Number.text x
    if digits.toList.contains '.' then digits else digits ++ ".0"
  else "null"

mutual

def render : Json → String
  | null          => "null"
  | boolean b     => if b then "true" else "false"
  | integer n     => toString n
  | decimal x     => decimalText x
  | text s        => quoted s
  | list items    => "[" ++ ",".intercalate (renderItems items) ++ "]"
  | object fields => "\x7b" ++ ",".intercalate (renderFields fields) ++ "\x7d"

def renderItems : List Json → List String
  | []      => []
  | x :: xs => render x :: renderItems xs

def renderFields : List (String × Json) → List String
  | []           => []
  | (k, v) :: fs => (quoted k ++ ":" ++ render v) :: renderFields fs

end

end Ordo.Json
