import Ordo.Dictionary
import Ordo.Journal

namespace Ordo

inductive DatabaseError
  | missingTable (name : String)
  | noDatabase
  | badVersion (version : Int)
  | newerSchema (version latest : Int)
deriving DecidableEq, Repr

def DatabaseError.message : DatabaseError → String
  | missingTable name   => s!"no such table: {name}"
  | noDatabase          => "file is not a database"
  | badVersion version  => s!"bad schema version {version}"
  | newerSchema version latest =>
    s!"bundle schema version {version} is newer than supported {latest}"

inductive BundleFault
  | malformed
  | missingTable (name : String)
  | other (reason : String)
deriving DecidableEq, Repr

def BundleFault.message : BundleFault → String
  | malformed         => "expected an object of texts"
  | missingTable name => s!"database has no `{name}` table"
  | other reason      => reason

inductive ArchiveError
  | notFound (path : String)
  | unreadable (path : String)
  | invalidRoot (root expected : String)
  | invalidLanguage (tag : String)
  | invalidBundle (fault : BundleFault)
  | database (e : DatabaseError)
deriving DecidableEq, Repr

def ArchiveError.message : ArchiveError → String
  | notFound path       => s!"failed to locate {path}"
  | unreadable path     => s!"failed to read `{path}`"
  | invalidRoot root expected => s!"bad content root `{root}`: missing {expected}"
  | invalidLanguage tag =>
    s!"invalid language tag `{tag}`; expected segments like `en` or `cu/ru`"
  | invalidBundle fault => "invalid content bundle: " ++ fault.message
  | database e          => e.message

-- A collection of documents under their paths, whose parts are divided by slashes.
structure Archive where
  -- Whether there is a document; fails if the archive cannot tell.
  has : String → Logged ArchiveError Bool
  -- The text of a document; a missing one is `ArchiveError.notFound`.
  get : String → Logged ArchiveError String

end Ordo
