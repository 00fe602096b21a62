import Ordo.Text.Basic
import Ordo.Number.Literal

namespace Ordo.Formula

open Text (Rest)

inductive Symbol
  | strictlyEqual
  | strictlyUnequal
  | equal
  | unequal
  | atMost
  | atLeast
  | both
  | either
  | plus
  | minus
  | star
  | slash
  | percent
  | less
  | greater
  | bang
  | question
  | colon
  | opening
  | closing
deriving DecidableEq, Repr

namespace Symbol

def spelling : Symbol → String
  | strictlyEqual   => "==="
  | strictlyUnequal => "!=="
  | equal           => "=="
  | unequal         => "!="
  | atMost          => "<="
  | atLeast         => ">="
  | both            => "&&"
  | either          => "||"
  | plus            => "+"
  | minus           => "-"
  | star            => "*"
  | slash           => "/"
  | percent         => "%"
  | less            => "<"
  | greater         => ">"
  | bang            => "!"
  | question        => "?"
  | colon           => ":"
  | opening         => "("
  | closing         => ")"

-- A symbol stands behind all longer ones, so that the first match is the longest one.
def all : List Symbol := [
  strictlyEqual, strictlyUnequal, equal, unequal, atMost, atLeast, both, either, plus, minus, star,
  slash, percent, less, greater, bang, question, colon, opening, closing
]

end Symbol

inductive Token
  | number (x : Float)
  | text (s : String)
  | name (s : String)
  | truth (b : Bool)
  | symbol (s : Symbol)
deriving DecidableEq

-- A token and its distance from the start of the text in bytes.
structure Located where
  token  : Token
  offset : Nat
deriving DecidableEq

inductive LexicalFault
  | invalidNumber (numeral : String)
  | openText
  | strayCharacter (c : Char)
deriving DecidableEq, Repr

def LexicalFault.message : LexicalFault → String
  | invalidNumber s  => s!"invalid number `{s}`: invalid float literal"
  | openText         => "unterminated string literal"
  | strayCharacter c => s!"unexpected character `{c}`"

def startsName (c : Char) : Bool :=
  c.isAlpha || c = '_' || c = '$'

def continuesName (c : Char) : Bool :=
  startsName c || c.isDigit

def nameOrTruth (cs : List Char) : Token :=
  match String.ofList cs with
  | "true"  => .truth true
  | "false" => .truth false
  | s       => .name s

def escaped : Char → Char
  | 'n' => '\n'
  | 't' => '\t'
  | c   => c

-- The content of a quoted text behind its opening quote.
def quoted? (quote : Char) : (cs : List Char) → Option (List Char × Rest cs)
  | [] => none
  | c :: cs =>
    if c = '\\' then
      match cs with
      | [] => none
      | e :: cs => do
        let (s, ⟨rest, h⟩) ← quoted? quote cs
        return (escaped e :: s, ⟨rest, by simp; omega⟩)
    else if c = quote then some ([], ⟨cs, by simp⟩)
    else do
      let (s, ⟨rest, h⟩) ← quoted? quote cs
      return (c :: s, ⟨rest, by simp; omega⟩)

def symbol? (c : Char) (cs : List Char) : Option (Symbol × Rest cs) :=
  (Symbol.all.find? (·.spelling.toList.isPrefixOf (c :: cs))).map fun s =>
    (s, ⟨cs.drop (s.spelling.length - 1), by simp⟩)

-- The token that begins with `c`, which is no blank, and what follows the token.
def Token.read (c : Char) (cs : List Char) : Except LexicalFault (Token × Rest cs) :=
  match h : Number.Literal.read? (c :: cs) with
  | some (_, rest) =>
    let numeral := String.ofList ((c :: cs).take ((c :: cs).length - rest.length))
    match Number.ofText? numeral with
    | some x =>
      .ok (.number x, ⟨rest, Nat.le_of_lt_succ (Number.Literal.length_lt_of_read? h)⟩)
    | none => .error (.invalidNumber numeral)
  | none =>
    if startsName c then
      .ok (nameOrTruth (c :: cs.takeWhile continuesName),
        ⟨cs.dropWhile continuesName, Text.length_dropWhile_le ..⟩)
    else if c = '"' ∨ c = '\'' then
      match quoted? c cs with
      | some (s, rest) => .ok (.text (String.ofList s), rest)
      | none           => .error .openText
    else
      match symbol? c cs with
      | some (s, rest) => .ok (.symbol s, rest)
      | none           => .error (.strayCharacter c)

-- Reads the tokens of `cs`, which begins `offset` bytes behind the start of the text.
def tokensFrom (offset : Nat) : List Char → Except (Nat × LexicalFault) (List Located)
  | [] => .ok []
  | c :: cs =>
    if Text.isBlank c then tokensFrom (offset + c.utf8Size) cs
    else
      match Token.read c cs with
      | .error f => .error (offset, f)
      | .ok (t, ⟨rest, _⟩) => do
        let width := Text.byteLength (c :: cs) - Text.byteLength rest
        return ⟨t, offset⟩ :: (← tokensFrom (offset + width) rest)
termination_by cs => cs.length

-- The tokens of a text, or the first place where none can be read.
def tokens (source : String) : Except (Nat × LexicalFault) (List Located) :=
  tokensFrom 0 source.toList

end Ordo.Formula
