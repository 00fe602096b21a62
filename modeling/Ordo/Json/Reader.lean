import Ordo.Json.Basic
import Ordo.Number.Literal

namespace Ordo.Json

-- What is left of `cs` after at least one character of it has been read.
abbrev Rest (cs : List Char) := { rest : List Char // rest.length < cs.length }

def Rest.of? (cs rest : List Char) : Option (Rest cs) :=
  if h : rest.length < cs.length then some ⟨rest, h⟩ else none

def isSpace (c : Char) : Bool :=
  c = ' ' || c = '\t' || c = '\n' || c = '\r'

-- The UTF-16 unit that the four hexadecimal digits at the start of `cs` name.
def unit? : List Char → Option (Nat × List Char)
  | a :: b :: c :: d :: rest => do
    let digits ← [a, b, c, d].mapM Number.hexDigit?
    return (digits.foldl (16 * · + ·) 0, rest)
  | _ => none

-- A character outside the first plane is written as a pair of surrogate units; half of a pair is
-- no character.
def codePoint? (cs : List Char) : Option (Char × List Char) := do
  let (high, rest) ← unit? cs
  if 0xD800 ≤ high ∧ high < 0xDC00 then
    let '\\' :: 'u' :: rest := rest | none
    let (low, rest) ← unit? rest
    guard (0xDC00 ≤ low ∧ low < 0xE000)
    return (Char.ofNat (0x10000 + (high - 0xD800) * 0x400 + (low - 0xDC00)), rest)
  else
    guard (¬(0xDC00 ≤ high ∧ high < 0xE000))
    return (Char.ofNat high, rest)

-- The character behind a backslash.
def escape? : List Char → Option (Char × List Char)
  | '"'  :: rest => some ('"', rest)
  | '\\' :: rest => some ('\\', rest)
  | '/'  :: rest => some ('/', rest)
  | 'b'  :: rest => some ('\x08', rest)
  | 'f'  :: rest => some ('\x0c', rest)
  | 'n'  :: rest => some ('\n', rest)
  | 'r'  :: rest => some ('\r', rest)
  | 't'  :: rest => some ('\t', rest)
  | 'u'  :: rest => codePoint? rest
  | _            => none

-- Reads up to the closing quote; `done` holds the characters before `cs` in reverse.
def quoted? (done : List Char) (cs : List Char) : Option (String × Rest cs) :=
  match cs with
  | [] => none
  | '"' :: rest => some (String.ofList done.reverse, ⟨rest, by simp⟩)
  | '\\' :: cs => do
    let (c, rest) ← escape? cs
    let ⟨rest, h⟩ ← Rest.of? cs rest
    let (s, ⟨rest, h'⟩) ← quoted? (c :: done) rest
    return (s, ⟨rest, by simp; omega⟩)
  | c :: cs =>
    if c < ' ' then none
    else do
      let (s, ⟨rest, h⟩) ← quoted? (c :: done) cs
      return (s, ⟨rest, by simp; omega⟩)
termination_by cs.length

-- The fraction and the exponent of a numeral need digits, and its whole part has no leading zero.
def numeral? (cs : List Char) : Option (Number.Literal × List Char) := do
  let whole := cs.takeWhile Char.isDigit
  guard (!whole.isEmpty && (whole.length == 1 || whole.head? != some '0'))
  let (fraction, rest) ←
    match cs.dropWhile Char.isDigit with
    | '.' :: rest => do
      let digits := rest.takeWhile Char.isDigit
      guard (!digits.isEmpty)
      pure (digits, rest.dropWhile Char.isDigit)
    | rest => pure ([], rest)
  let (exponent, rest) ←
    match rest with
    | 'e' :: rest | 'E' :: rest => Number.Literal.exponentAfterMark rest
    | rest => pure (0, rest)
  return (⟨whole, fraction, exponent⟩, rest)

-- The largest integer of 64 bits without a sign.
def maxUInt64 : Int := 0xFFFFFFFFFFFFFFFF

-- A plain numeral is a whole number if that fits into 64 bits, with a sign or without.
def numberOf (negative plain : Bool) (l : Number.Literal) : Json :=
  let n : Int := if negative then -(l.significand : Int) else l.significand
  if plain && !(negative && n == 0) && Number.minInt64 ≤ n && n ≤ maxUInt64 then integer n
  else decimal (if negative then -l.toFloat else l.toFloat)

def number? (cs : List Char) : Option (Json × List Char) := do
  let (negative, digits) :=
    match cs with
    | '-' :: rest => (true, rest)
    | _           => (false, cs)
  let (l, rest) ← numeral? digits
  guard l.toFloat.isFinite
  return (numberOf negative ((digits.take l.whole.length) ++ rest == digits) l, rest)

-- The values without parts: the three words and the numbers.
def scalar? (cs : List Char) : Option (Json × List Char) :=
  if "null".toList.isPrefixOf cs then some (null, cs.drop 4)
  else if "true".toList.isPrefixOf cs then some (boolean true, cs.drop 4)
  else if "false".toList.isPrefixOf cs then some (boolean false, cs.drop 5)
  else number? cs

-- The first character that is no space, and what is behind it.
def next? (cs : List Char) : Option (Char × Rest cs) :=
  match h : cs.dropWhile isSpace with
  | []        => none
  | c :: rest => some (c, ⟨rest, Text.length_lt_of_dropWhile h⟩)

-- What is behind the character `c` and the spaces before it.
def mark? (c : Char) (cs : List Char) : Option (Rest cs) := do
  let (d, rest) ← next? cs
  if d = c then some rest else none

mutual

def value? (cs : List Char) : Option (Json × Rest cs) :=
  match next? cs with
  | none => none
  | some (c, ⟨rest, h⟩) =>
    if c = '"' then do
      let (s, ⟨rest, _⟩) ← quoted? [] rest
      return (text s, ⟨rest, by omega⟩)
    else if c = '[' then
      match mark? ']' rest with
      | some ⟨rest, _⟩ => some (list [], ⟨rest, by omega⟩)
      | none => do
        let (xs, ⟨rest, _⟩) ← items? rest
        return (list xs, ⟨rest, by omega⟩)
    else if c = '\x7b' then
      match mark? '\x7d' rest with
      | some ⟨rest, _⟩ => some (object [], ⟨rest, by omega⟩)
      | none => do
        let (fs, ⟨rest, _⟩) ← fields? rest
        return (object fs, ⟨rest, by omega⟩)
    else do
      let (x, rest) ← scalar? (c :: rest)
      return (x, ← Rest.of? cs rest)
termination_by (cs.length, 0)
decreasing_by all_goals apply Prod.Lex.left; omega

-- The values of a list behind its opening bracket or a comma, with the closing bracket.
def items? (cs : List Char) : Option (List Json × Rest cs) := do
  let (x, ⟨rest, _⟩) ← value? cs
  match mark? ',' rest with
  | some ⟨rest, _⟩ => do
    let (xs, ⟨rest, _⟩) ← items? rest
    return (x :: xs, ⟨rest, by omega⟩)
  | none => do
    let ⟨rest, _⟩ ← mark? ']' rest
    return ([x], ⟨rest, by omega⟩)
termination_by (cs.length, 1)
decreasing_by
  · apply Prod.Lex.right; omega
  · apply Prod.Lex.left; omega

-- The fields of an object behind its opening brace or a comma, with the closing brace.
def fields? (cs : List Char) : Option (List (String × Json) × Rest cs) := do
  let ⟨rest, _⟩ ← mark? '"' cs
  let (k, ⟨rest, _⟩) ← quoted? [] rest
  let ⟨rest, _⟩ ← mark? ':' rest
  let (v, ⟨rest, _⟩) ← value? rest
  match mark? ',' rest with
  | some ⟨rest, _⟩ => do
    let (fs, ⟨rest, _⟩) ← fields? rest
    return ((k, v) :: fs, ⟨rest, by omega⟩)
  | none => do
    let ⟨rest, _⟩ ← mark? '\x7d' rest
    return ([(k, v)], ⟨rest, by omega⟩)
termination_by (cs.length, 1)
decreasing_by all_goals apply Prod.Lex.left; omega

end

-- The value that is the whole of the text `s`.
def read? (s : String) : Option Json := do
  let (v, ⟨rest, _⟩) ← value? s.toList
  if rest.all isSpace then some v else none

end Ordo.Json
