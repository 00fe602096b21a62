import Ordo.Archive.Library
import Ordo.FileTree

namespace Ordo.Archive.Directory

-- The file of a document: the parts of its path below the root. Empty parts do not count.
def filePath (root path : String) : String :=
  "/".intercalate (root :: Text.segments path)

def has (tree : FileTree) (root path : String) : Bool :=
  tree.isFile (filePath root path)

-- The text of a document. A file that is not in UTF-8 is unreadable.
def get (tree : FileTree) (root path : String) : Except ArchiveError String :=
  let file := filePath root path
  match tree.lookup file with
  | .missing => .error (.notFound path)
  | .found (.file content) =>
    match String.fromUTF8? content with
    | some s => .ok s
    | none   => .error (.unreadable file)
  | .found (.folder _) | .obstructed => .error (.unreadable file)

def openNotice (severity : Severity) (status : String) (details : List (String × String)) :
    Notice where
  severity := severity
  event    := "store_open"
  part     := "store"
  status   := status
  details  := ("mode", "fs") :: details

-- The archive in the directory `root`, which must have the table of the fasting rules.
def archive (tree : FileTree) (root : String) : Logged ArchiveError Archive :=
  if has tree root Library.fastingPath then do
    .notice (openNotice .info "ok" [("root", root)])
    return {
      has path := pure (has tree root path)
      get path := .ofExcept (get tree root path)
    }
  else do
    .notice (openNotice .error "error" [("error_code", "invalid_root"), ("root", root)])
    .fail (.invalidRoot root Library.fastingPath)

end Ordo.Archive.Directory
