import Ordo.Archive.Database
import Ordo.Archive.Directory
import Ordo.Proofs.Archive.Alike
import Ordo.Proofs.Archive.Lookup

namespace Ordo

namespace Archive

-- Whether the archive says that it has a document.
def reports (a : Archive) (path : String) : Bool :=
  match (a.has path).result with
  | .ok found => found
  | .error _  => false

-- No document that the archive says it has is missing, and none has to be there for it to say so.
structure Consistent (a : Archive) : Prop where
  has : ∀ path missing, (a.has path).result ≠ .error (.notFound missing)
  get : ∀ path missing, (a.has path).result = .ok true →
    (a.get path).result ≠ .error (.notFound missing)

-- The archive has the document, and says that it has one there.
structure Holds (a : Archive) (d : SourceText) : Prop where
  has : (a.has d.path).result = .ok true
  get : (a.get d.path).result = .ok d.text

variable {a : Archive} {path : String}

theorem reports_of_has {found : Bool} (h : (a.has path).result = .ok found) :
    a.reports path = found := by
  rw [reports, h]

theorem has_of_reports (h : a.reports path) : (a.has path).result = .ok true := by
  rw [reports] at h
  split at h
  case h_1 hf => rw [hf, h]
  case h_2 => cases h

theorem consistent_ofDocuments (ds : Dictionary String) : (ofDocuments ds).Consistent where
  has _ _ h := by cases h
  get path missing h := by
    obtain ⟨text, ht⟩ := Option.isSome_iff_exists.mp (Except.ok.inj h)
    rw [result_get_ofDocuments_eq_ok_iff.mpr ht]
    rintro ⟨⟩

theorem consistent_ofDatabase (d : Database) : (ofDatabase d).Consistent := by
  rcases hd : d.table with e | ds
  case error =>
    constructor
    case has =>
      intro path missing h
      simp only [ofDatabase, hd] at h
      cases h
    case get =>
      intro path missing h
      simp only [ofDatabase, hd] at h
      cases h
  case ok =>
    rw [ofDatabase_eq hd]
    exact consistent_ofDocuments ds

theorem consistent_directory {tree : FileTree} {root : String}
    (h : (Directory.archive tree root).result = .ok a) : a.Consistent := by
  rw [Directory.archive] at h
  split at h
  case isFalse => cases h
  case isTrue =>
    cases h
    constructor
    case has =>
      intro path missing h
      cases h
    case get =>
      intro path missing h
      have hf : tree.isFile (Directory.filePath root path) = true := Except.ok.inj h
      rw [FileTree.isFile] at hf
      simp only [Directory.get, Logged.ofExcept]
      split at hf
      case h_2 => cases hf
      case h_1 content hc =>
        simp only [hc]
        split
        all_goals rintro ⟨⟩

end Archive

namespace Library

variable {a : Archive} {l : Library} {path missing : String} {d : SourceText} {ds : List SourceText}
  {ps qs : List String}

theorem read_eq_ok_iff {found : String} : (l.read found).result = .ok d ↔
    d.path = found ∧ (l.archive.get d.path).result = .ok d.text := by
  rw [read, Logged.bind_eq_ok_iff]
  constructor
  case mp =>
    rintro ⟨text, ht, h⟩
    cases h
    exact ⟨rfl, ht⟩
  case mpr =>
    rintro ⟨rfl, ht⟩
    exact ⟨d.text, ht, rfl⟩

theorem readBottomUp_eq_ok_iff : (l.readBottomUp path).result = .ok d ↔
    (l.findBottomUp path).result = .ok d.path ∧ (l.archive.get d.path).result = .ok d.text := by
  simp only [readBottomUp, Logged.bind_eq_ok_iff, read_eq_ok_iff]
  constructor
  case mp =>
    rintro ⟨found, hf, rfl, ht⟩
    exact ⟨hf, ht⟩
  case mpr =>
    rintro ⟨hf, ht⟩
    exact ⟨d.path, hf, rfl, ht⟩

theorem has_of_findBottomUp {found : String} (h : (l.findBottomUp path).result = .ok found) :
    (l.archive.has found).result = .ok true := by
  obtain ⟨_, _, _, hf, _⟩ := findBottomUp_eq_ok_iff.mp h
  exact hf

theorem allOf_eq_ok_iff : (allOf a ps).result = .ok qs ↔
    (∀ p ∈ ps, ∃ found, (a.has p).result = .ok found) ∧ qs = ps.filter a.reports := by
  induction ps generalizing qs
  case nil =>
    refine ⟨fun h => ?_, ?_⟩
    · cases h
      exact ⟨nofun, rfl⟩
    · rintro ⟨-, rfl⟩
      rfl
  case cons p ps hi =>
    simp only [allOf, Logged.bind_eq_ok_iff, hi, List.forall_mem_cons]
    constructor
    case mp =>
      rintro ⟨found, hp, rest, ⟨hps, rfl⟩, h⟩
      refine ⟨⟨⟨found, hp⟩, hps⟩, ?_⟩
      rw [List.filter_cons, Archive.reports_of_has hp]
      exact (Except.ok.inj h).symm
    case mpr =>
      rintro ⟨⟨⟨found, hp⟩, hps⟩, rfl⟩
      refine ⟨found, hp, _, ⟨hps, rfl⟩, ?_⟩
      rw [List.filter_cons, Archive.reports_of_has hp]
      rfl

-- All documents that the archive has for a path, from the general to the specific.
theorem readTopDown_eq_ok_iff : (l.readTopDown path).result = .ok ds ↔
    (∀ p ∈ l.candidates path, ∃ found, (l.archive.has p).result = .ok found) ∧
      ds.map (·.path) = (l.candidates path).filter l.archive.reports ∧
      ∀ d ∈ ds, (l.archive.get d.path).result = .ok d.text := by
  have hr (founds : List String) : founds.mapM (fun p => (l.read p).result) = .ok ds ↔
      ds.map (·.path) = founds ∧ ∀ d ∈ ds, (l.archive.get d.path).result = .ok d.text := by
    induction founds generalizing ds
    case nil =>
      refine ⟨fun h => ?_, ?_⟩
      · cases h
        exact ⟨rfl, nofun⟩
      · rintro ⟨h, -⟩
        rw [List.map_eq_nil_iff.mp h]
        rfl
    case cons p founds hi =>
      simp only [mapM_cons_eq_ok_iff, read_eq_ok_iff, hi]
      constructor
      case mp =>
        rintro ⟨d, ds, ⟨rfl, ht⟩, ⟨rfl, hts⟩, rfl⟩
        exact ⟨rfl, List.forall_mem_cons.mpr ⟨ht, hts⟩⟩
      case mpr =>
        rintro ⟨h, ht⟩
        obtain ⟨d, ds, rfl, rfl, rfl⟩ := List.map_eq_cons_iff.mp h
        obtain ⟨ht, hts⟩ := List.forall_mem_cons.mp ht
        exact ⟨d, ds, ⟨rfl, ht⟩, ⟨rfl, hts⟩, rfl⟩
  simp only [readTopDown, Logged.bind_eq_ok_iff, Logged.result_mapM, findTopDown, allOf_eq_ok_iff, hr]
  constructor
  case mp =>
    rintro ⟨_, ⟨hp, rfl⟩, hd⟩
    exact ⟨hp, hd⟩
  case mpr =>
    rintro ⟨hp, hd⟩
    exact ⟨_, ⟨hp, rfl⟩, hd⟩

theorem holds_of_readBottomUp (h : (l.readBottomUp path).result = .ok d) : l.archive.Holds d := by
  obtain ⟨hf, ht⟩ := readBottomUp_eq_ok_iff.mp h
  exact ⟨has_of_findBottomUp hf, ht⟩

theorem holds_of_readTopDown (h : (l.readTopDown path).result = .ok ds) (hd : d ∈ ds) :
    l.archive.Holds d := by
  obtain ⟨-, hp, ht⟩ := readTopDown_eq_ok_iff.mp h
  have hm : d.path ∈ (l.candidates path).filter l.archive.reports := hp ▸ List.mem_map_of_mem hd
  exact ⟨Archive.has_of_reports (List.mem_filter.mp hm).2, ht d hd⟩

theorem firstOf_eq_none_iff :
    (firstOf a ps).result = .ok none ↔ ∀ p ∈ ps, (a.has p).result = .ok false := by
  induction ps
  case nil => exact iff_of_true rfl nofun
  case cons p ps hi =>
    rw [firstOf, Logged.bind_eq_ok_iff, List.forall_mem_cons, ← hi]
    constructor
    case mp =>
      rintro ⟨found, hp, h⟩
      cases found
      case true  => cases h
      case false => exact ⟨hp, h⟩
    case mpr =>
      rintro ⟨hp, h⟩
      exact ⟨false, hp, h⟩

section

variable (h : a.Consistent)

include h

theorem firstOf_ne_notFound : (firstOf a ps).result ≠ .error (.notFound missing) := by
  induction ps
  case nil => nofun
  case cons p ps hi =>
    intro he
    rw [firstOf, Logged.result_bind] at he
    rcases bind_eq_error_iff.mp he with he | ⟨found, -, he⟩
    case inl => exact h.has p missing he
    case inr =>
      cases found
      case true  => cases he
      case false => exact hi he

theorem allOf_ne_notFound : (allOf a ps).result ≠ .error (.notFound missing) := by
  induction ps
  case nil => nofun
  case cons p ps hi =>
    intro he
    rw [allOf, Logged.result_bind] at he
    rcases bind_eq_error_iff.mp he with he | ⟨found, -, he⟩
    case inl => exact h.has p missing he
    case inr =>
      rw [Logged.result_bind] at he
      rcases bind_eq_error_iff.mp he with he | ⟨_, -, he⟩
      case inl => exact hi he
      case inr => cases he

end

section

variable (h : l.archive.Consistent)

include h

theorem read_ne_notFound {found : String} (hf : (l.archive.has found).result = .ok true) :
    (l.read found).result ≠ .error (.notFound missing) := by
  intro he
  rw [read, Logged.result_bind] at he
  rcases bind_eq_error_iff.mp he with he | ⟨_, -, he⟩
  case inl => exact h.get found missing hf he
  case inr => cases he

-- The path that a missing document is looked up under is the one without a language, and the archive
-- has nothing under any of the paths that it stands for.
theorem missing_of_readBottomUp
    (he : (l.readBottomUp path).result = .error (.notFound missing)) :
    missing = path ∧ ∀ p ∈ l.candidates path, (l.archive.has p).result = .ok false := by
  rw [readBottomUp, Logged.result_bind] at he
  rcases bind_eq_error_iff.mp he with he | ⟨found, hf, he⟩
  case inr => exact absurd he (read_ne_notFound h (has_of_findBottomUp hf))
  rw [findBottomUp, Logged.result_bind] at he
  rcases bind_eq_error_iff.mp he with he | ⟨found, hf, he⟩
  case inl => exact absurd he (firstOf_ne_notFound h)
  cases found
  case some => cases he
  case none =>
    cases he
    exact ⟨rfl, fun p hp => firstOf_eq_none_iff.mp hf p (List.mem_reverse.mpr hp)⟩

theorem readTopDown_ne_notFound : (l.readTopDown path).result ≠ .error (.notFound missing) := by
  intro he
  rw [readTopDown, Logged.result_bind] at he
  rcases bind_eq_error_iff.mp he with he | ⟨founds, hf, he⟩
  case inl => exact allOf_ne_notFound h he
  obtain ⟨-, rfl⟩ := allOf_eq_ok_iff.mp hf
  rw [Logged.result_mapM, ← errorOf?_eq_some_iff, errorOf?_mapM] at he
  obtain ⟨p, hp, he⟩ := List.exists_of_findSome?_eq_some he
  have hr : l.archive.reports p := (List.mem_filter.mp hp).2
  refine read_ne_notFound h ?_ (errorOf?_eq_some_iff.mp he)
  exact Archive.has_of_reports hr

end

end Library

end Ordo
