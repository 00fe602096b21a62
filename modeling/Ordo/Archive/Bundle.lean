import Ordo.Archive.Basic
import Ordo.Json.Reader

namespace Ordo.Archive

-- The archive of documents that are held in memory.
def ofDocuments (ds : Dictionary String) : Archive where
  has path := pure (ds.contains path)
  get path := .ofExcept <|
    match ds.get? path with
    | some s => .ok s
    | none   => .error (.notFound path)

-- The documents of a JSON object that has the text of each one under its path.
def bundle (json : String) : Except ArchiveError (Dictionary String) :=
  match Json.read? json >>= Json.toTexts? with
  | some ds => .ok ds
  | none    => .error (.invalidBundle .malformed)

variable {ds ds' : Dictionary String} {path : String}

theorem result_has_ofDocuments (ds : Dictionary String) (path : String) :
    ((ofDocuments ds).has path).result = .ok (ds.contains path) := rfl

theorem result_get_ofDocuments_eq_ok_iff {text : String} :
    ((ofDocuments ds).get path).result = .ok text ↔ ds.get? path = some text := by
  simp only [ofDocuments, Logged.ofExcept]
  cases ds.get? path <;> simp

theorem result_get_ofDocuments_eq_error_iff {e : ArchiveError} :
    ((ofDocuments ds).get path).result = .error e ↔ ds.get? path = none ∧ e = .notFound path := by
  simp only [ofDocuments, Logged.ofExcept]
  cases ds.get? path <;> simp [eq_comm]

-- Of a path, an archive says nothing but what its documents have under that path.
theorem result_ofDocuments_congr (h : ds'.get? path = ds.get? path) :
    ((ofDocuments ds').has path).result = ((ofDocuments ds).has path).result ∧
      ((ofDocuments ds').get path).result = ((ofDocuments ds).get path).result := by
  simp only [ofDocuments, Dictionary.contains, h, and_self]

end Ordo.Archive
