import Ordo.Markup.Entity
import Ordo.Markup.Event

namespace Ordo.Markup

open Text (Rest)

-- Places are given in bytes from the start of the content of the tag.
inductive AttributeFault
  | noEquals (place : Nat)
  | duplicate (place first : Nat)
  | noValue (place : Nat)
  | noQuote (place : Nat)
  | unclosedQuote (place : Nat) (quote : Char)
  | entity (f : EntityFault)
deriving DecidableEq, Repr

namespace AttributeFault

def atPlace (place : Nat) (what : String) : String :=
  s!"position {place}: {what}"

def message : AttributeFault → String
  | noEquals place => atPlace place "attribute key must be directly followed by `=` or space"
  | duplicate place first =>
    atPlace place s!"duplicated attribute, previous declaration at position {first}"
  | noValue place => atPlace place "`=` must be followed by an attribute value"
  | noQuote place => atPlace place "attribute value must be enclosed in `\"` or `'`"
  | unclosedQuote place quote =>
    atPlace place s!"missing closing quote `{quote}` in attribute value"
  | entity f => f.message

end AttributeFault

-- The blank characters between the parts of a tag.
def isSpace (c : Char) : Bool :=
  c = ' ' || c = '\t' || c = '\n' || c = '\r'

def endsKey (c : Char) : Bool :=
  c = '=' || isSpace c

-- The value between quotes at the start of `cs`, still with its entities, and what follows it.
def quotedValue (place : List Char → Nat) (cs : List Char) :
    Except AttributeFault (List Char × Rest cs) :=
  match cs with
  | [] => .error (.noValue (place []))
  | quote :: behind =>
    if quote = '"' ∨ quote = '\'' then
      match h : behind.dropWhile (· ≠ quote) with
      | [] => .error (.unclosedQuote (place []) quote)
      | _ :: rest =>
        .ok (behind.takeWhile (· ≠ quote),
          ⟨rest, Nat.le_succ_of_le (Nat.le_of_lt (Text.length_lt_of_dropWhile h))⟩)
    else .error (.noQuote (place cs))

-- Reads the attributes in the end `cs` of a content of `size` bytes; `seen` has the places of the
-- keys before them.
def attributesFrom (size : Nat) (seen : Dictionary Nat) (cs : List Char) :
    Except AttributeFault Attributes :=
  let place (rest : List Char) := size - Text.byteLength rest
  match _h : cs.dropWhile isSpace with
  | [] => .ok ∅
  | c :: behind => do
    let key := String.ofList (c :: behind.takeWhile (!endsKey ·))
    match _h₁ : (behind.dropWhile (!endsKey ·)).dropWhile isSpace with
    | '=' :: rest =>
      let start := place (c :: behind)
      if let some first := seen.get? key then
        throw (.duplicate start first)
      let (raw, ⟨rest', _⟩) ← quotedValue place (rest.dropWhile isSpace)
      let value ← (unescape raw).mapError .entity
      return (← attributesFrom size (seen.insert key start) rest').insert key value
    | other => throw (.noEquals (place other))
termination_by cs.length
decreasing_by
  have l := Text.length_dropWhile_le isSpace cs
  have l₁ := Text.length_dropWhile_le isSpace (behind.dropWhile (!endsKey ·))
  have l₂ := Text.length_dropWhile_le (!endsKey ·) behind
  have l₃ := Text.length_dropWhile_le isSpace rest
  simp only [_h, _h₁, List.length_cons] at l l₁
  omega

-- The name in a tag's content, which ends with the first space.
def tagOf (content : List Char) : String :=
  String.ofList (content.takeWhile (!isSpace ·))

-- The element of a tag's content.
def elementOf (content : List Char) : Except AttributeFault Element := do
  let behind := content.dropWhile (!isSpace ·)
  return ⟨tagOf content, ← attributesFrom (Text.byteLength content) ∅ behind⟩

end Ordo.Markup
