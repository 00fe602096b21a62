import Ordo.Text.Basic

namespace Ordo

inductive FileTree
  | file (content : ByteArray)
  | folder (entries : List (String × FileTree))

namespace FileTree

inductive Lookup
  | found (t : FileTree)
  | missing
  -- The path leads through a file, or is no path at all.
  | obstructed

def empty : FileTree := folder []

def child? (name : String) (entries : List (String × FileTree)) : Option FileTree :=
  (entries.find? (·.1 == name)).map (·.2)

-- The longest name and the longest path in bytes.
def maxName : Nat := 255

def maxPath : Nat := 4095

-- Goes from `here` along `names`; `above` has the folders that contain `here`, innermost first.
def walk (above : List FileTree) (here : FileTree) : List String → Lookup
  | [] => .found here
  | name :: names =>
    match here with
    | file _ => .obstructed
    | folder entries =>
      if name = "." then walk above here names
      else if name = ".." then
        match above with
        | []            => walk [] here names
        | up :: above => walk above up names
      else if maxName < name.utf8ByteSize then .obstructed
      else
        match child? name entries with
        | some t => walk (here :: above) t names
        | none   => .missing

-- What is at a path, which is taken from the top of the tree.
def lookup (t : FileTree) (path : String) : Lookup :=
  if path.toList.contains '\x00' || maxPath < path.utf8ByteSize then .obstructed
  else walk [] t (Text.segments path)

def isFile (t : FileTree) (path : String) : Bool :=
  match t.lookup path with
  | .found (file _) => true
  | _               => false

def replaceEntry (name : String) (t : FileTree) (entries : List (String × FileTree)) :
    List (String × FileTree) :=
  (name, t) :: entries.filter (·.1 != name)

-- The tree with `t` at the end of `names`, below folders that are made where there are none.
def insertAt (t : FileTree) : List String → FileTree → FileTree
  | [],            _ => t
  | name :: names, here =>
    let entries :=
      match here with
      | folder entries => entries
      | file _         => []
    folder (replaceEntry name (insertAt t names ((child? name entries).getD empty)) entries)

-- The tree with a file or folder at a path.
def insert (tree : FileTree) (path : String) (t : FileTree) : FileTree :=
  insertAt t (Text.segments path) tree

-- Whether `names` can be made into folders below `here`.
def canMake (above : List FileTree) (here : FileTree) : List String → Bool
  | [] => true
  | name :: names =>
    match here with
    | file _ => false
    | folder entries =>
      if name = "." then canMake above here names
      else if name = ".." then
        match above with
        | []            => canMake [] here names
        | up :: above => canMake above up names
      else if maxName < name.utf8ByteSize then false
      else canMake (here :: above) ((child? name entries).getD empty) names

-- Whether the folder at a path is there or can be made, with all folders on the way.
def canMakeFolder (t : FileTree) (path : String) : Bool :=
  match t.lookup path with
  | .found (folder _) => true
  | .found (file _)   => false
  | .missing          => canMake [] t (Text.segments path)
  | .obstructed       => false

end FileTree

end Ordo
