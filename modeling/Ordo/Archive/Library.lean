import Ordo.Archive.Basic
import Ordo.Text.Basic

namespace Ordo

namespace Language

def isTagChar (c : Char) : Bool :=
  c.isAlphanum || c = '_' || c = '-'

-- A tag has one segment or more, and none of them is empty.
def isTag (s : String) : Bool :=
  (Text.splitList '/' s.toList).all fun segment => !segment.isEmpty && segment.all isTagChar

end Language

structure SourceText where
  path : String
  text : String
deriving DecidableEq, Repr

-- The view of an archive in one language. A document may be there under each prefix of the language
-- tag, and a more specific one stands before a more general one.
structure Library where
  archive  : Archive
  segments : List String

namespace Library

-- The view in the language of `tag`; an empty tag leaves the general documents only.
def ofTag (archive : Archive) (tag : String) : Except ArchiveError Library :=
  let tag := Text.trimSlashes tag
  if tag.isEmpty || Language.isTag tag then .ok ⟨archive, Text.segments tag⟩
  else .error (.invalidLanguage tag)

def language (l : Library) : String :=
  "/".intercalate l.segments

-- The path of a document below the first `depth` segments of the tag.
def candidate (l : Library) (path : String) (depth : Nat) : String :=
  "/".intercalate (l.segments.take depth ++ [path])

-- The paths at which a document may be, from the general to the specific.
def candidates (l : Library) (path : String) : List String :=
  (List.range (l.segments.length + 1)).map (l.candidate path)

-- The first one of `paths` at which there is a document.
def firstOf (a : Archive) : List String → Logged ArchiveError (Option String)
  | [] => pure none
  | p :: ps => do
    if ← a.has p then return some p else firstOf a ps

-- All of `paths` at which there is a document.
def allOf (a : Archive) : List String → Logged ArchiveError (List String)
  | [] => pure []
  | p :: ps => do
    let found ← a.has p
    let rest ← allOf a ps
    return if found then p :: rest else rest

-- The most specific path at which a document is.
def findBottomUp (l : Library) (path : String) : Logged ArchiveError String := do
  match ← firstOf l.archive (l.candidates path).reverse with
  | some found => return found
  | none       => .fail (.notFound path)

-- All paths at which a document is, from the general to the specific.
def findTopDown (l : Library) (path : String) : Logged ArchiveError (List String) :=
  allOf l.archive (l.candidates path)

def read (l : Library) (found : String) : Logged ArchiveError SourceText := do
  return ⟨found, ← l.archive.get found⟩

def readBottomUp (l : Library) (path : String) : Logged ArchiveError SourceText := do
  l.read (← l.findBottomUp path)

def readTopDown (l : Library) (path : String) : Logged ArchiveError (List SourceText) := do
  (← l.findTopDown path).mapM l.read

def fastingPath : String := "xml/Commands/Fasting.xml"

def liturgyPath : String := "xml/Commands/DivineLiturgy.xml"

def triodionPath (day : Int) : String :=
  "xml/triodion/" ++ Text.padded 2 day ++ ".xml"

def pentecostarionPath (day : Int) : String :=
  "xml/pentecostarion/" ++ Text.padded 2 day ++ ".xml"

def menaionPath (month day : Nat) : String :=
  "xml/" ++ Text.padded 2 month ++ "/" ++ Text.padded 2 day ++ ".xml"

-- An identifier of a single digit is filled up to two.
def livesPath (cid : String) : String :=
  let filled :=
    match cid.toList with
    | [c] => if c.isDigit then "0" ++ cid else cid
    | _   => cid
  "xml/lives/" ++ filled ++ ".xml"

def triodion (l : Library) (day : Int) : Logged ArchiveError SourceText :=
  l.readBottomUp (triodionPath day)

def pentecostarion (l : Library) (day : Int) : Logged ArchiveError SourceText :=
  l.readBottomUp (pentecostarionPath day)

def menaion (l : Library) (month day : Nat) : Logged ArchiveError SourceText :=
  l.readBottomUp (menaionPath month day)

def lives (l : Library) (cid : String) : Logged ArchiveError (List SourceText) :=
  l.readTopDown (livesPath cid)

def fasting (l : Library) : Logged ArchiveError (List SourceText) :=
  l.readTopDown fastingPath

def liturgy (l : Library) : Logged ArchiveError SourceText :=
  l.readBottomUp liturgyPath

end Library

end Ordo
