import Ordo.Number.Literal
import Ordo.Text.Quoted

namespace Ordo.Markup

-- Places are given in bytes from the start of the text.
inductive EntityFault
  | unterminated (start stop : Nat)
  | unknownName (start stop : Nat) (name : String)
  | nullCharacter (start stop : Nat)
  | longHexadecimal
  | longDecimal
  | badHexadecimal (byte : Nat)
  | badDecimal (byte : Nat)
  | noCharacter (code : Nat)
deriving DecidableEq, Repr

namespace EntityFault

def atRange (start stop : Nat) (what : String) : String :=
  s!"Error while escaping character at range {start}..{stop}: {what}"

def message : EntityFault → String
  | unterminated start stop     => atRange start stop "Cannot find ';' after '&'"
  | unknownName start stop name =>
    atRange start stop ("Unrecognized escape symbol: " ++ Text.quoted name)
  | nullCharacter start stop    => atRange start stop "Null character entity not allowed"
  | longHexadecimal             => "Cannot convert hexadecimal to utf8"
  | longDecimal                 => "Cannot convert decimal to utf8"
  | badHexadecimal byte         => s!"'{Char.ofNat byte}' is not a valid hexadecimal character"
  | badDecimal byte             => s!"'{Char.ofNat byte}' is not a valid decimal character"
  | noCharacter code            => s!"'{code}' is not a valid codepoint"

end EntityFault

def namedEntity? (name : String) : Option Char :=
  match name with
  | "lt"   => some '<'
  | "gt"   => some '>'
  | "amp"  => some '&'
  | "apos" => some '\''
  | "quot" => some '"'
  | _      => none

-- The number of the digits `ds` in `base`; a character that is no digit goes to `bad`.
def codeOf (base : Nat) (digit? : Char → Option Nat) (bad : Nat → EntityFault) (ds : List Char) :
    Except EntityFault Nat :=
  ds.foldlM (fun code c =>
    match digit? c with
    | some d => .ok (base * code + d)
    | none   => .error (bad (Text.leadByte c))) 0

def decimalDigit? (c : Char) : Option Nat :=
  if c.isDigit then some (Number.digitValue c) else none

-- No code point has more than six hexadecimal or seven decimal digits.
def characterCode : List Char → Except EntityFault Nat
  | 'x' :: ds =>
    if Text.byteLength ds > 6 then .error .longHexadecimal
    else codeOf 16 Number.hexDigit? .badHexadecimal ds
  | ds =>
    if Text.byteLength ds > 7 then .error .longDecimal
    else codeOf 10 decimalDigit? .badDecimal ds

-- The character of the entity `&name;`, which has its `&` at `start` and its `;` at `stop`.
def entity (start stop : Nat) (name : List Char) : Except EntityFault Char :=
  match name with
  | '#' :: digits => do
    let code ← characterCode digits
    if code = 0 then
      throw (.nullCharacter start stop)
    if code.isValidChar then return Char.ofNat code else throw (.noCharacter code)
  | name =>
    match namedEntity? (String.ofList name) with
    | some c => .ok c
    | none   => .error (.unknownName (start + 1) stop (String.ofList name))

def endsName (c : Char) : Bool :=
  c = '&' || c = ';'

-- Replaces the entities in the end `cs` of a text of `size` bytes.
def unescapeFrom (size : Nat) (cs : List Char) : Except EntityFault (List Char) :=
  let place (rest : List Char) := size - Text.byteLength rest
  let plain := cs.takeWhile (· ≠ '&')
  match _h : cs.dropWhile (· ≠ '&') with
  | [] => .ok plain
  | amp :: behind =>
    match _h' : behind.dropWhile (!endsName ·) with
    | ';' :: rest => do
      let name := behind.takeWhile (!endsName ·)
      let c ← entity (place (amp :: behind)) (place (';' :: rest)) name
      return plain ++ c :: (← unescapeFrom size rest)
    | _ => .error (.unterminated (place (amp :: behind)) size)
termination_by cs.length
decreasing_by
  have h₁ := Text.length_dropWhile_le (· ≠ '&') cs
  have h₂ := Text.length_dropWhile_le (!endsName ·) behind
  simp only [_h, _h', List.length_cons] at h₁ h₂
  omega

-- The text with its entities replaced by their characters.
def unescape (cs : List Char) : Except EntityFault String :=
  (unescapeFrom (Text.byteLength cs) cs).map String.ofList

end Ordo.Markup
