import Ordo.Markup.Attribute

namespace Ordo.Markup

open Text (Rest)

-- The kinds of markup that can lack their end.
inductive Part
  | element
  | instruction
  | declaration
  | comment
  | verbatim
  | doctype
deriving DecidableEq, Repr

def Part.label : Part → String
  | element     => "Element"
  | instruction => "XmlDecl"
  | declaration => "Bang"
  | comment     => "Comment"
  | verbatim    => "CData"
  | doctype     => "DOCTYPE"

inductive Fault
  | unended (part : Part)
  | strayDeclaration (byte : Nat)
  | emptyDoctype
  | mismatch (expected found : String)
  | inTag (f : AttributeFault)
  | entity (f : EntityFault)
  | unopened (tag : String)
  | unclosed (tag : String)
deriving DecidableEq, Repr

def Fault.message : Fault → String
  | unended part          => s!"Unexpected EOF during reading {part.label}"
  | strayDeclaration byte =>
    "Only Comment (`--`), CDATA (`[CDATA[`) and DOCTYPE (`DOCTYPE`) nodes can start with a '!', " ++
      s!"but symbol `{Char.ofNat byte}` found"
  | emptyDoctype            => "DOCTYPE declaration must not be empty"
  | mismatch expected found => s!"Expecting </{expected}> found </{found}>"
  | inTag f                 => f.message
  | entity f                => f.message
  | unopened tag            => s!"closing tag </{tag}> has no matching opening tag"
  | unclosed tag            => s!"unexpected end of document inside <{tag}>"

inductive Piece
  | text (content : List Char)
  | opening (content : List Char)
  | empty (content : List Char)
  | closing (content : List Char)
  | verbatim (content : List Char)
  | dropped
deriving DecidableEq

-- Cuts at the first `>` before which the markup is complete; `before` has the characters of the
-- markup up to `cs` in reverse.
def cut? (isComplete : List Char → Bool) (before : List Char) :
    (cs : List Char) → Option (List Char × Rest cs)
  | [] => none
  | c :: cs =>
    if c = '>' && isComplete before then some (before.reverse, ⟨cs, by simp⟩)
    else (cut? isComplete (c :: before) cs).map fun (content, ⟨rest, _⟩) =>
      (content, ⟨rest, by simp; omega⟩)

-- The quote that is open behind the characters `before`, if any.
def openQuote (before : List Char) : Option Char :=
  before.foldr (fun c quote =>
    match quote with
    | none   => if c = '"' ∨ c = '\'' then some c else none
    | some q => if c = q then none else some q) none

-- A comment has at least six characters between `<` and `>`.
def endsComment (before : List Char) : Bool :=
  before.length > 4 && ['-', '-'].isPrefixOf before

def endsVerbatim (before : List Char) : Bool :=
  [']', ']'].isPrefixOf before

def endsDoctype (before : List Char) : Bool :=
  before.count '<' == before.count '>'

-- Whether `cs` begins with the word `w`, which is in capital letters, regardless of case.
def startsWithWord (w : String) (cs : List Char) : Bool :=
  w.toList.isPrefixOf (cs.map Char.toUpper)

-- The declaration with the characters `content` between `<` and `>`.
def Part.declared (content : List Char) : Part → Except Fault Piece
  | comment =>
    if "!--".toList.isPrefixOf content then .ok .dropped else .error (.unended comment)
  | verbatim =>
    if startsWithWord "![CDATA[" content then .ok (.verbatim ((content.drop 8).dropLast.dropLast))
    else .error (.unended verbatim)
  | doctype =>
    if startsWithWord "!DOCTYPE" content then
      if (content.drop 8).all isSpace then .error .emptyDoctype else .ok .dropped
    else .error (.unended doctype)
  | part => .error (.unended part)

-- Reads the declaration `part` from `cs`, which begins with its `!`.
def declaration (part : Part) (isComplete : List Char → Bool) (cs : List Char) :
    Except Fault (Piece × Rest cs) :=
  match cut? isComplete [] cs with
  | none => .error (.unended part)
  | some (content, rest) => (part.declared content).map (·, rest)

-- What lies before the next `>` or the end, and what follows.
def upToBracket (cs : List Char) : List Char × Rest cs :=
  (cs.takeWhile (· ≠ '>'), ⟨(cs.dropWhile (· ≠ '>')).drop 1, by
    have := Text.length_dropWhile_le (· ≠ '>') cs
    simp only [List.length_drop]
    omega⟩)

-- Reads the instruction that `cs` begins with; it ends with a `?` other than its first character.
def instruction (cs : List Char) : Except Fault (Piece × Rest cs) :=
  let (content, rest) := upToBracket cs
  if content.length > 2 && content.getLast? == some '?' then .ok (.dropped, rest)
  else .error (.unended .instruction)

-- Reads the tag that `cs` begins with.
def tagPiece (cs : List Char) : Except Fault (Piece × Rest cs) :=
  match cut? (openQuote · == none) [] cs with
  | none => .error (.unended .element)
  | some (content, rest) =>
    if content.getLast? == some '/' then .ok (.empty content.dropLast, rest)
    else .ok (.opening content, rest)

-- The piece behind a `<`. A `<` that is the last character counts for nothing.
def markup (cs : List Char) : Except Fault (Piece × Rest cs) :=
  match cs with
  | [] => .ok (.dropped, ⟨[], by simp⟩)
  | '/' :: cs =>
    let (content, ⟨rest, _⟩) := upToBracket cs
    .ok (.closing content, ⟨rest, by simp; omega⟩)
  | '?' :: behind => instruction ('?' :: behind)
  | ['!'] => .error (.unended .declaration)
  | '!' :: c :: behind =>
    if c = '[' then declaration .verbatim endsVerbatim ('!' :: c :: behind)
    else if c = '-' then declaration .comment endsComment ('!' :: c :: behind)
    else if c = 'D' ∨ c = 'd' then declaration .doctype endsDoctype ('!' :: c :: behind)
    else .error (.strayDeclaration (Text.leadByte c))
  | cs => tagPiece cs

-- The piece that begins with `c`, and what follows the piece.
def Piece.read (c : Char) (cs : List Char) : Except Fault (Piece × Rest cs) :=
  if c = '<' then markup cs
  else .ok (.text (c :: cs.takeWhile (· ≠ '<')),
    ⟨cs.dropWhile (· ≠ '<'), Text.length_dropWhile_le ..⟩)

end Ordo.Markup
