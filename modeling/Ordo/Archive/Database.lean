import Ordo.Archive.Bundle

namespace Ordo

structure Database where
  version   : Int := 0
  documents : Option (Dictionary String) := none
deriving DecidableEq, Inhabited

namespace Database

def tableName : String := "documents"

def latestVersion : Int := 1

-- Brings the schema up to date. The first version makes the table, unless there is one.
def migrate (d : Database) : Except DatabaseError Database :=
  if d.version < 0 then .error (.badVersion d.version)
  else if latestVersion < d.version then .error (.newerSchema d.version latestVersion)
  else if d.version = latestVersion then .ok d
  else .ok { version := latestVersion, documents := some (d.documents.getD ∅) }

def dropTable? (d : Database) : Option Database :=
  d.documents.map fun _ => { d with documents := none }

def table (d : Database) : Except DatabaseError (Dictionary String) :=
  match d.documents with
  | some ds => .ok ds
  | none    => .error (.missingTable tableName)

def count (d : Database) : Except ArchiveError Nat :=
  (d.table.map Dictionary.size).mapError .database

-- Stores a document in place of what was under its path.
def put (d : Database) (path text : String) : Except ArchiveError Database :=
  (d.table.map fun ds => { d with documents := some (ds.insert path text) }).mapError .database

-- What is in a file that should hold a database.
inductive Stored
  | database (d : Database)
  | other
deriving DecidableEq, Inhabited

-- The database of a file, as it is.
def Stored.read : Stored → Except DatabaseError Database
  | database d => .ok d
  | other      => .error .noDatabase

def openNotice (severity : Severity) (status mode : String) (details : List (String × String)) :
    Notice where
  severity := severity
  event    := "db_open"
  part     := "db"
  status   := status
  details  := ("mode", mode) :: details

-- Opens what is stored, and brings it up to date.
def openStored (mode : String) (s : Stored) : Logged DatabaseError Database := do
  .notice (openNotice .info "start" mode [])
  match s.read >>= migrate with
  | .ok d =>
    .notice (openNotice .info "ok" mode [])
    return d
  | .error e =>
    .notice (openNotice .error "error" mode [("error", e.message)])
    .fail e

-- An empty database that is held in memory.
def openInMemory : Logged DatabaseError Database :=
  openStored "memory" (.database {})

end Database

namespace Archive

def tableNotice (severity : Severity) (event status : String) (details : List (String × String)) :
    Notice where
  severity := severity
  event    := event
  part     := "store"
  status   := status
  details  := ("mode", "sqlite") :: details

-- A database can be asked for documents if it has their table.
def checkTable (d : Database) : Logged ArchiveError Unit :=
  match d.documents with
  | some _ => .notice (tableNotice .info "store_open" "ok" [])
  | none   => do
    .notice (tableNotice .error "store_open" "error"
      [("error_code", "missing_table"), ("table", Database.tableName)])
    .fail (.invalidBundle (.missingTable Database.tableName))

-- The archive of the documents of a database.
def ofDatabase (d : Database) : Archive where
  has path :=
    match d.table with
    | .ok ds   => pure (ds.contains path)
    | .error e => do
      .notice (tableNotice .error "store_lookup" "error"
        [("error_code", "query_failed"), ("error", e.message)])
      .fail (.database e)
  get path := .ofExcept <|
    match d.table with
    | .error e => .error (.database e)
    | .ok ds   =>
      match ds.get? path with
      | some s => .ok s
      | none   => .error (.notFound path)

-- With its table, a database is the same archive as its documents are in memory.
theorem ofDatabase_eq {d : Database} {ds : Dictionary String} (h : d.table = .ok ds) :
    ofDatabase d = ofDocuments ds := by
  simp only [ofDatabase, h]
  rfl

end Archive

end Ordo
