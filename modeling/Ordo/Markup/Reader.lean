import Ordo.Markup.Piece

namespace Ordo.Markup

-- What is wrong with a document, and the rest of it from the piece with the fault.
structure Misread where
  fault : Fault
  rest  : List Char
deriving DecidableEq

-- The name in a closing tag: spaces behind it do not count, unless there is nothing else.
def closingName (content : List Char) : String :=
  let name := (content.reverse.dropWhile isSpace).reverse
  String.ofList (if name.isEmpty then content else name)

-- Leaves the innermost of the elements with the names `named`, which must have the name of the
-- closing tag.
def close (content : List Char) : List String → Except Fault (String × List String)
  | [] => .error (.mismatch "" (String.ofList content))
  | tag :: named =>
    if closingName content = tag then .ok (tag, named)
    else .error (.mismatch tag (closingName content))

-- A document that is cut into pieces up to its end or its first fault outside of them.
inductive Cut
  | done
  | stuck (m : Misread)
  -- A piece, the text from this piece on, and what comes behind the piece.
  | piece (p : Piece) (here : List Char) (behind : Cut)

def Cut.of (cs : List Char) : Cut :=
  match cs with
  | [] => done
  | c :: behind =>
    match Piece.read c behind with
    | .error f          => stuck ⟨f, c :: behind⟩
    | .ok (p, ⟨rest, _⟩) => piece p (c :: behind) (of rest)
termination_by cs.length

-- The document up to the first closing tag that does not match, in the elements with the names
-- `named`, innermost first. The closing tags that match have nothing but the name left.
def Cut.matched (named : List String) : Cut → Cut
  | done => done
  | stuck m => stuck m
  | piece p here behind =>
    match p with
    | .opening content => piece p here (behind.matched (tagOf content :: named))
    | .closing content =>
      match close content named with
      | .error f         => stuck ⟨f, here⟩
      | .ok (tag, named) => piece (.closing tag.toList) here (behind.matched named)
    | _ => piece p here (behind.matched named)

-- The events of a document that lies in the `opened` elements, innermost first. It is only counted
-- here whether there is an element to close.
def Cut.events (opened : List String) : Cut → Except Misread (List Event)
  | done =>
    match opened with
    | []       => .ok []
    | tag :: _ => .error ⟨.unclosed tag, []⟩
  | stuck m => .error m
  | piece p here behind => do
    let misread (f : Fault) : Misread := ⟨f, here⟩
    match p with
    | .text content =>
      let s ← (unescape content).mapError (misread ∘ .entity)
      return consText s (← behind.events opened)
    | .verbatim content =>
      return consText (String.ofList content) (← behind.events opened)
    | .opening content =>
      let e ← (elementOf content).mapError (misread ∘ .inTag)
      return .enter e.tag e.attributes :: (← behind.events (e.tag :: opened))
    | .empty content =>
      let e ← (elementOf content).mapError (misread ∘ .inTag)
      return .enter e.tag e.attributes :: .exit e.tag :: (← behind.events opened)
    | .closing content =>
      let tag := String.ofList content
      match opened with
      | []          => throw (misread (.unopened tag))
      | _ :: opened => return .exit tag :: (← behind.events opened)
    | .dropped => behind.events opened

-- Why a text is no document.
structure Error where
  position : Nat
  fault    : Fault
deriving DecidableEq

def Error.message (e : Error) : String :=
  s!"malformed XML at byte {e.position}: {e.fault.message}"

def byteOrderMark : Char := '\uFEFF'

def withoutMark : List Char → List Char
  | c :: cs => if c = byteOrderMark then cs else c :: cs
  | []      => []

-- A place is counted in bytes behind the mark. The end of a document is its length with the mark.
def positionOf (source : String) (rest : List Char) : Nat :=
  if rest.isEmpty then source.utf8ByteSize
  else Text.byteLength (withoutMark source.toList) - Text.byteLength rest

-- The events of a document.
def read (source : String) : Except Error (List Event) :=
  (((Cut.of (withoutMark source.toList)).matched []).events []).mapError fun m =>
    ⟨positionOf source m.rest, m.fault⟩

end Ordo.Markup
