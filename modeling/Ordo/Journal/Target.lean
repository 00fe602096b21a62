import Ordo.FileTree
import Ordo.Journal.Level

namespace Ordo.Journal

structure Target where
  level  : Level
  folder : String
deriving DecidableEq, Repr

inductive TargetError
  | unknownLevel (name : String)
  | noFolder
  | relativeFolder (folder : String)
  | cannotMake (folder : String)
  | otherFolder (current folder : String)
  | otherLevel (current level : Level)
deriving DecidableEq, Repr

def TargetError.message : TargetError → String
  | unknownLevel name     => Level.unknownName name
  | noFolder              => "log_dir cannot be empty"
  | relativeFolder folder => s!"log_dir must be an absolute path, got `{folder}`"
  | cannotMake folder     => s!"failed to create log directory `{folder}`"
  | otherFolder current folder =>
    s!"logging already initialized at `{current}`; refusing to switch to `{folder}`"
  | otherLevel current level =>
    s!"logging already initialized with level `{current.name}`; " ++
      s!"refusing to switch to `{level.name}`"

namespace Target

-- The target that is asked for. The folder is given by its whole path.
def read (level folder : String) : Except TargetError Target := do
  let some l := Level.ofName? level | throw (.unknownLevel level)
  let folder := Text.trim folder
  if folder.isEmpty then
    throw .noFolder
  unless folder.startsWith "/" do
    throw (.relativeFolder folder)
  return ⟨l, folder⟩

-- The parts of a whole path that tell it from others. A dot names the folder that it is in.
def pathParts (folder : String) : List String :=
  (Text.segments folder).filter (· ≠ ".")

-- The target after a further one is asked for, on a machine with the files `tree`.
def set (tree : FileTree) (current : Option Target) (level folder : String) :
    Except TargetError Target := do
  let asked ← read level folder
  match current with
  | none =>
    if tree.canMakeFolder asked.folder then return asked else throw (.cannotMake asked.folder)
  | some t =>
    if pathParts t.folder ≠ pathParts asked.folder then
      throw (.otherFolder t.folder asked.folder)
    if t.level ≠ asked.level then
      throw (.otherLevel t.level asked.level)
    return t

end Target

end Ordo.Journal
