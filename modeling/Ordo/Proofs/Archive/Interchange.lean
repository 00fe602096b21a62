import Ordo.Archive.Bundle
import Ordo.Archive.Database
import Ordo.Archive.Directory
import Ordo.Proofs.FileTree
import Ordo.Proofs.Result
import Ordo.Proofs.Text.Segments

namespace Ordo

namespace Dictionary

variable {α : Type} {es : List (String × α)} {d : Dictionary α} {k : String} {v : α}

theorem contains_insert {k' : String} :
    (d.insert k v).contains k' ↔ k' = k ∨ d.contains k' := by
  rw [contains, get?_insert]
  split
  case isTrue h  => exact ⟨fun _ => .inl h, fun _ => rfl⟩
  case isFalse h => exact (or_iff_right h).symm

theorem contains_foldl_insert :
    (es.foldl (fun d e => d.insert e.1 e.2) d).contains k ↔ k ∈ es.map (·.1) ∨ d.contains k := by
  induction es generalizing d
  case nil => simp
  case cons e es hi =>
    rw [List.foldl_cons, hi, contains_insert, List.map_cons, List.mem_cons]
    rw [or_left_comm, or_assoc]

theorem contains_ofList : (ofList es).contains k ↔ k ∈ es.map (·.1) :=
  contains_foldl_insert.trans (or_iff_left nofun)

theorem mem_of_get?_ofList (h : (ofList es).get? k = some v) : k ∈ es.map (·.1) :=
  contains_ofList.mp (Option.isSome_of_eq_some h)

end Dictionary

theorem Text.fromUTF8?_toUTF8 (s : String) : String.fromUTF8? s.toUTF8 = some s := by
  simp only [String.fromUTF8?, String.toUTF8_eq_toByteArray, dif_pos s.isValidUTF8]
  rfl

-- The path of a document: none of its segments is empty or a name of a folder on the way.
def IsDocumentPath (path : String) : Prop :=
  ∀ piece ∈ Text.splitList '/' path.toList, piece ≠ [] ∧ FileTree.IsPlain (String.ofList piece)

instance (path : String) : Decidable (IsDocumentPath path) :=
  inferInstanceAs (Decidable (∀ piece ∈ _, _))

-- A path without its empty segments.
def squeezed (path : String) : String :=
  "/".intercalate (Text.segments path)

-- A path without its empty segments and its dots.
def settled (path : String) : String :=
  "/".intercalate ((Text.segments path).filter (· ≠ "."))

variable {path query root text : String}

theorem segments_squeezed (path : String) : Text.segments (squeezed path) = Text.segments path := by
  rw [squeezed, Text.segments_intercalate, Text.flatMap_segments]
  exact fun _ => Text.isSegment_of_mem_segments

theorem not_mem_segments (h : ∀ name ∈ Text.segments path, FileTree.IsPlain name) :
    ".." ∉ Text.segments path :=
  fun hm => (h _ hm).2 rfl

theorem settled_eq_squeezed (h : ∀ name ∈ Text.segments path, FileTree.IsPlain name) :
    settled path = squeezed path := by
  rw [settled, squeezed, List.filter_eq_self.mpr]
  intro name hm
  simpa using (h name hm).1

namespace IsDocumentPath

theorem not_mem_splitList (h : IsDocumentPath path) : [] ∉ Text.splitList '/' path.toList :=
  fun hm => (h [] hm).1 rfl

theorem segments_eq (h : IsDocumentPath path) :
    Text.segments path = (Text.splitList '/' path.toList).map String.ofList :=
  Text.segments_eq_map h.not_mem_splitList

theorem isPlain (h : IsDocumentPath path) : ∀ name ∈ Text.segments path, FileTree.IsPlain name := by
  rw [h.segments_eq]
  intro name hm
  obtain ⟨piece, hp, rfl⟩ := List.mem_map.mp hm
  exact (h piece hp).2

theorem squeezed_eq_self (h : IsDocumentPath path) : squeezed path = path :=
  Text.intercalate_segments h.not_mem_splitList

end IsDocumentPath

namespace FileTree

-- A folder with files for the documents, and no other files.
structure Holds (here : FileTree) (ds : Dictionary String) : Prop where
  documents : ∀ path text, ds.get? path = some text →
    walk [] here (Text.segments path) = .found (.file text.toUTF8)
  files     : ∀ names content, AreNames names → walk [] here names = .found (.file content) →
    ∃ path text, ds.get? path = some text ∧ names = Text.segments path
  missing   : ∀ names, AreNames names → names ≠ [] →
    (∀ path text, ds.get? path = some text →
      ¬Text.segments path <+: names ∧ ¬names <+: Text.segments path) →
    walk [] here names = .missing

-- The folder in which documents have been written, one after the other.
def folderOf (writes : List (String × String)) : FileTree :=
  writes.foldl (fun here (path, text) => here.insert path (.file text.toUTF8)) empty

-- Whether there can be a file for a document below `root`.
structure Takes (root path : String) : Prop where
  noNull : '\x00' ∉ (Archive.Directory.filePath root path).toList
  size   : (Archive.Directory.filePath root path).utf8ByteSize ≤ maxPath
  names  : ∀ name ∈ Text.segments path, name.utf8ByteSize ≤ maxName

instance : Decidable (Takes root path) :=
  decidable_of_iff (_ ∧ _ ∧ _)
    ⟨fun ⟨hn, hs, hp⟩ => ⟨hn, hs, hp⟩, fun ⟨hn, hs, hp⟩ => ⟨hn, hs, hp⟩⟩

-- Documents that can be in one directory: none is in the place of a folder of another one.
structure Fit (root : String) (paths : List String) : Prop where
  proper : ∀ path ∈ paths, IsDocumentPath path
  takes  : ∀ path ∈ paths, Takes root path
  apart  : ∀ path ∈ paths, ∀ path' ∈ paths,
    Text.segments path <+: Text.segments path' → path = path'

-- No document is `query`, or is on the way to it or behind it.
def IsClear (paths : List String) (query : String) : Prop :=
  ∀ path ∈ paths,
    ¬Text.segments path <+: Text.segments query ∧ ¬Text.segments query <+: Text.segments path

instance {paths : List String} {query : String} : Decidable (IsClear paths query) :=
  inferInstanceAs (Decidable (∀ path ∈ paths, _))

variable {here tree t : FileTree} {ds : Dictionary String} {names paths : List String}
  {writes : List (String × String)}

theorem holds_empty : Holds empty ∅ where
  documents := nofun
  files names content h hw := by
    cases names
    case nil  => cases hw
    case cons => cases (walk_empty h nofun).symm.trans hw
  missing names h hn _ := walk_empty h hn

theorem Fit.areNames (h : Fit root paths) (hp : path ∈ paths) : AreNames (Text.segments path) :=
  ⟨(h.proper path hp).isPlain, (h.takes path hp).names⟩

theorem Fit.walk_insertAt_append (hf : Fit root paths) (hp : path ∈ paths) (t here : FileTree)
    (more : List String) (hm : AreNames more) :
    walk [] (insertAt t (Text.segments path) here) (Text.segments path ++ more) = walk [] t more :=
  FileTree.walk_insertAt_append (hf.areNames hp) hm t here

section

variable (h : Holds here ds) (hf : Fit root paths) (hp : path ∈ paths)
  (hd : ∀ path text, ds.get? path = some text → path ∈ paths)

include h hf hp hd

-- Writing a document does not touch what is neither on the way to it nor below it.
theorem Holds.walk_insertAt_of_apart (hm : AreNames names) (h₁ : ¬Text.segments path <+: names)
    (h₂ : ¬names <+: Text.segments path) (t : FileTree) :
    walk [] (insertAt t (Text.segments path) here) names = walk [] here names := by
  have hn := hf.areNames hp
  refine FileTree.walk_insertAt_of_apart hn hm h₁ h₂ (fun r content hr hne hw => ?_) t
  obtain ⟨path', _, hg, rfl⟩ := h.files r content (hn.of_subset hr.subset) hw
  exact hne (congrArg _ (hf.apart path' (hd _ _ hg) path hp hr))

theorem Holds.insert (text : String) :
    Holds (insertAt (.file text.toUTF8) (Text.segments path) here) (ds.insert path text) := by
  constructor
  case documents =>
    intro path' text' hg
    rw [Dictionary.get?_insert] at hg
    split at hg
    case isTrue he =>
      cases hg
      have hw := hf.walk_insertAt_append hp (.file text.toUTF8) here [] ⟨nofun, nofun⟩
      rw [List.append_nil] at hw
      rw [he, hw]
      rfl
    case isFalse he =>
      have hp' := hd _ _ hg
      rw [h.walk_insertAt_of_apart hf hp hd (hf.areNames hp')
        (fun hx => he (hf.apart _ hp _ hp' hx).symm) (fun hx => he (hf.apart _ hp' _ hp hx))]
      exact h.documents path' text' hg
  case files =>
    intro names content hm hc
    by_cases h₁ : Text.segments path <+: names
    case pos =>
      obtain ⟨more, rfl⟩ := h₁
      rw [hf.walk_insertAt_append hp _ _ _ (hm.of_subset (List.subset_append_right _ _))] at hc
      cases more
      case nil  => exact ⟨path, text, by rw [Dictionary.get?_insert, if_pos rfl], List.append_nil _⟩
      case cons => cases hc
    case neg =>
      by_cases h₂ : names <+: Text.segments path
      case pos =>
        obtain ⟨more, he⟩ := h₂
        cases more
        case nil =>
          rw [List.append_nil] at he
          exact absurd (he ▸ List.prefix_refl _) h₁
        case cons name more =>
          have hn := hf.areNames hp
          rw [← he] at hn hc
          obtain ⟨entries, hw⟩ := exists_walk_insertAt hn (.file text.toUTF8) here
          cases hw.symm.trans hc
      case neg =>
        rw [h.walk_insertAt_of_apart hf hp hd hm h₁ h₂] at hc
        obtain ⟨path', text', hg, rfl⟩ := h.files names content hm hc
        refine ⟨path', text', ?_, rfl⟩
        rw [Dictionary.get?_insert, if_neg, hg]
        rintro rfl
        exact h₁ (List.prefix_refl _)
  case missing =>
    intro names hm hne hx
    obtain ⟨h₁, h₂⟩ := hx path text (by rw [Dictionary.get?_insert, if_pos rfl])
    rw [h.walk_insertAt_of_apart hf hp hd hm h₁ h₂]
    refine h.missing names hm hne fun path' text' hg => ?_
    by_cases he : path' = path
    case pos => exact he ▸ ⟨h₁, h₂⟩
    case neg => exact hx path' text' (by rw [Dictionary.get?_insert, if_neg he, hg])

end

theorem Fit.holds_foldl (h : Fit root paths) (hw : ∀ w ∈ writes, w.1 ∈ paths)
    (hd : ∀ path text, ds.get? path = some text → path ∈ paths) (hh : Holds here ds) :
    Holds (writes.foldl (fun here (path, text) => here.insert path (.file text.toUTF8)) here)
      (writes.foldl (fun ds e => ds.insert e.1 e.2) ds) := by
  induction writes generalizing here ds
  case nil => exact hh
  case cons w writes hi =>
    obtain ⟨hp, hw⟩ := List.forall_mem_cons.mp hw
    refine hi hw (fun path text hg => ?_) (hh.insert h hp hd w.2)
    rw [Dictionary.get?_insert] at hg
    split at hg
    case isTrue he => exact he ▸ hp
    case isFalse   => exact hd path text hg

theorem Fit.holds_folderOf (h : Fit root (writes.map (·.1))) :
    Holds (folderOf writes) (.ofList writes) :=
  h.holds_foldl (fun _ => List.mem_map_of_mem) nofun holds_empty

-- The files below a folder without going up are those of its documents.
theorem Holds.exists_of_walk {content : ByteArray} (h : Holds here ds)
    (hd : ∀ path text, ds.get? path = some text → IsDocumentPath path)
    (hu : ".." ∉ Text.segments query)
    (hw : walk [] here (Text.segments query) = .found (.file content)) :
    ∃ text, ds.get? (settled query) = some text ∧ content = text.toUTF8 := by
  have hw := walk_filter hu hw
  have hn : AreNames ((Text.segments query).filter (· ≠ ".")) := by
    refine areNames_of_walk (fun name hm => ?_) hw
    obtain ⟨hm, hd⟩ := List.mem_filter.mp hm
    exact ⟨by simpa using hd, fun he => hu (he ▸ hm)⟩
  obtain ⟨path, text, hg, he⟩ := h.files _ _ hn hw
  have hp := h.documents path text hg
  rw [← he, hw, Lookup.found.injEq, FileTree.file.injEq] at hp
  exact ⟨text, by rw [settled, he, ← squeezed, (hd _ _ hg).squeezed_eq_self, hg], hp⟩

theorem segments_filePath (root path : String) :
    Text.segments (Archive.Directory.filePath root path) =
      Text.segments root ++ Text.segments path := by
  rw [Archive.Directory.filePath, Text.segments_intercalate, List.flatMap_cons,
    Text.flatMap_segments fun _ => Text.isSegment_of_mem_segments]

theorem lookup_filePath (hr : tree.lookup root = .found here)
    (hu : ".." ∉ Text.segments query) (ht : Takes root query) :
    tree.lookup (Archive.Directory.filePath root query) = walk [] here (Text.segments query) := by
  rw [lookup] at hr
  split at hr
  case isTrue  => cases hr
  case isFalse =>
    have hb : ((Archive.Directory.filePath root query).toList.contains '\x00' ||
        decide (maxPath < (Archive.Directory.filePath root query).utf8ByteSize)) = false := by
      simpa using ⟨ht.noNull, ht.size⟩
    rw [lookup, hb, if_neg Bool.false_ne_true, segments_filePath, walk_append hu hr]

theorem walk_of_lookup_filePath (hr : tree.lookup root = .found here)
    (hu : ".." ∉ Text.segments query)
    (h : tree.lookup (Archive.Directory.filePath root query) = .found t) :
    walk [] here (Text.segments query) = .found t := by
  rw [lookup] at hr h
  split at hr
  case isTrue  => cases hr
  case isFalse =>
    split at h
    case isTrue  => cases h
    case isFalse => rwa [segments_filePath, walk_append hu hr] at h

theorem takes_of_squeezed (h : Takes root (squeezed query)) : Takes root query := by
  have hf : Archive.Directory.filePath root (squeezed query) =
      Archive.Directory.filePath root query := by
    rw [Archive.Directory.filePath, segments_squeezed, Archive.Directory.filePath]
  obtain ⟨hn, hs, hp⟩ := h
  rw [hf] at hn hs
  rw [segments_squeezed] at hp
  exact ⟨hn, hs, hp⟩

theorem exists_of_lookup {content : ByteArray} (hr : tree.lookup root = .found (folderOf writes))
    (hf : Fit root (writes.map (·.1))) (hu : ".." ∉ Text.segments query)
    (h : tree.lookup (Archive.Directory.filePath root query) = .found (.file content)) :
    ∃ text, (Dictionary.ofList writes).get? (settled query) = some text ∧
      content = text.toUTF8 :=
  hf.holds_folderOf.exists_of_walk
    (fun _ _ hg => hf.proper _ (Dictionary.mem_of_get?_ofList hg)) hu
    (walk_of_lookup_filePath hr hu h)

theorem lookup_of_get? (hr : tree.lookup root = .found (folderOf writes))
    (hf : Fit root (writes.map (·.1))) (hu : ".." ∉ Text.segments query)
    (hg : (Dictionary.ofList writes).get? (squeezed query) = some text) :
    tree.lookup (Archive.Directory.filePath root query) = .found (.file text.toUTF8) := by
  have ht := takes_of_squeezed (hf.takes _ (Dictionary.mem_of_get?_ofList hg))
  have hw := hf.holds_folderOf.documents _ _ hg
  rw [segments_squeezed] at hw
  rw [lookup_filePath hr hu ht, hw]

end FileTree

namespace Database

-- Puts documents into a database, one after the other.
def putAll (d : Database) (writes : List (String × String)) : Except ArchiveError Database :=
  writes.foldlM (fun d (path, text) => d.put path text) d

-- The database with the latest version of the schema and with these documents.
def ofDocuments (ds : Dictionary String) : Database where
  version   := latestVersion
  documents := some ds

theorem result_openStored_empty (mode : String) :
    (openStored mode (.database {})).result = .ok (ofDocuments ∅) := rfl

theorem putAll_ofDocuments (ds : Dictionary String) (writes : List (String × String)) :
    (ofDocuments ds).putAll writes =
      .ok (ofDocuments (writes.foldl (fun ds e => ds.insert e.1 e.2) ds)) := by
  induction writes generalizing ds
  case nil          => rfl
  case cons w _ hi => exact hi (ds.insert w.1 w.2)

end Database

namespace Archive

-- What an archive finds for `query` is what another one finds for `path`.
structure FindsAs (a b : Archive) (query path : String) : Prop where
  has : (a.has query).result = .ok true → (b.has path).result = .ok true
  get : ∀ text, (a.get query).result = .ok text → (b.get path).result = .ok text

-- The answers of an archive about `query` are those of another one about `path`. It is open why
-- there may be no text.
structure AnswersAs (a b : Archive) (query path : String) : Prop where
  has : (a.has query).result = (b.has path).result
  get : ∀ text, (a.get query).result = .ok text ↔ (b.get path).result = .ok text

namespace Directory

-- The archive in a directory, whether or not it has the table of the fasting rules.
def below (tree : FileTree) (root : String) : Archive where
  has path := pure (has tree root path)
  get path := .ofExcept (get tree root path)

variable {tree : FileTree} {writes : List (String × String)}

theorem result_has_below : ((below tree root).has path).result = .ok (has tree root path) := rfl

theorem result_get_below : ((below tree root).get path).result = get tree root path := by
  simp only [below, Logged.ofExcept]

theorem result_archive (h : has tree root Library.fastingPath) :
    (archive tree root).result = .ok (below tree root) := by
  rw [archive, if_pos h]
  rfl

section

variable (hr : tree.lookup root = .found (.folderOf writes))
  (hf : FileTree.Fit root (writes.map (·.1))) (hu : ".." ∉ Text.segments query)

include hr hf hu

theorem contains_of_has (h : has tree root query) :
    (Dictionary.ofList writes).contains (settled query) := by
  rw [has, FileTree.isFile] at h
  split at h
  case h_1 content hc =>
    obtain ⟨text, hg, -⟩ := FileTree.exists_of_lookup hr hf hu hc
    exact Option.isSome_of_eq_some hg
  case h_2 => cases h

theorem has_of_contains (h : (Dictionary.ofList writes).contains (squeezed query)) :
    has tree root query := by
  obtain ⟨text, hg⟩ := Option.isSome_iff_exists.mp h
  rw [has, FileTree.isFile, FileTree.lookup_of_get? hr hf hu hg]

theorem get?_of_get (h : get tree root query = .ok text) :
    (Dictionary.ofList writes).get? (settled query) = some text := by
  rw [get] at h
  split at h
  case h_2 content hc =>
    obtain ⟨text', hg, rfl⟩ := FileTree.exists_of_lookup hr hf hu hc
    rw [Text.fromUTF8?_toUTF8] at h
    cases h
    exact hg
  all_goals cases h

theorem get_of_get? (h : (Dictionary.ofList writes).get? (squeezed query) = some text) :
    get tree root query = .ok text := by
  simp only [get, FileTree.lookup_of_get? hr hf hu h, Text.fromUTF8?_toUTF8]

theorem findsAs_settled :
    (below tree root).FindsAs (ofDocuments (.ofList writes)) query (settled query) := by
  constructor
  case has =>
    intro h
    rw [result_has_below, Except.ok.injEq] at h
    exact congrArg Except.ok (contains_of_has hr hf hu h)
  case get =>
    intro text h
    rw [result_get_below] at h
    exact result_get_ofDocuments_eq_ok_iff.mpr (get?_of_get hr hf hu h)

end

theorem answersAs_squeezed (hr : tree.lookup root = .found (.folderOf writes))
    (hf : FileTree.Fit root (writes.map (·.1)))
    (hq : ∀ name ∈ Text.segments query, FileTree.IsPlain name) :
    (below tree root).AnswersAs (ofDocuments (.ofList writes)) query (squeezed query) := by
  have hu := not_mem_segments hq
  have hs := settled_eq_squeezed hq
  constructor
  case has =>
    refine congrArg Except.ok (Bool.eq_iff_iff.mpr ⟨fun h => ?_, has_of_contains hr hf hu⟩)
    exact hs ▸ contains_of_has hr hf hu h
  case get =>
    intro text
    rw [result_get_below, result_get_ofDocuments_eq_ok_iff]
    exact ⟨fun h => hs ▸ get?_of_get hr hf hu h, get_of_get? hr hf hu⟩

theorem get_eq_notFound (hr : tree.lookup root = .found (.folderOf writes))
    (hf : FileTree.Fit root (writes.map (·.1)))
    (hq : ∀ name ∈ Text.segments query, FileTree.IsPlain name) (ht : FileTree.Takes root query)
    (hc : FileTree.IsClear (writes.map (·.1)) query) (hn : Text.segments query ≠ []) :
    get tree root query = .error (.notFound query) := by
  have hw := hf.holds_folderOf.missing _ ⟨hq, ht.names⟩ hn fun path _ hg =>
    hc path (Dictionary.mem_of_get?_ofList hg)
  simp only [get, FileTree.lookup_filePath hr (not_mem_segments hq) ht, hw]

end Directory

-- Documents that are written to memory, to a database and to a directory are the same in each.
theorem interchange {tree : FileTree} {writes : List (String × String)} (mode : String)
    (hr : tree.lookup root = .found (.folderOf writes))
    (hf : FileTree.Fit root (writes.map (·.1)))
    (hm : Library.fastingPath ∈ writes.map (·.1)) :
    (∃ d d', (Database.openStored mode (.database {})).result = .ok d ∧
      d.putAll writes = .ok d' ∧ (checkTable d').result = .ok () ∧
      ofDatabase d' = ofDocuments (.ofList writes)) ∧
    ∃ a, (Directory.archive tree root).result = .ok a ∧
      (∀ query, IsDocumentPath query →
        a.AnswersAs (ofDocuments (.ofList writes)) query query) ∧
      (∀ query, (∀ name ∈ Text.segments query, FileTree.IsPlain name) →
        a.AnswersAs (ofDocuments (.ofList writes)) query (squeezed query) ∧
        (FileTree.Takes root query → FileTree.IsClear (writes.map (·.1)) query →
          (a.get query).result = .error (.notFound query) ∧
          ((ofDocuments (.ofList writes)).get query).result = .error (.notFound query))) ∧
      ∀ query, ".." ∉ Text.segments query →
        a.FindsAs (ofDocuments (.ofList writes)) query (settled query) := by
  refine ⟨⟨.ofDocuments ∅, .ofDocuments (.ofList writes), Database.result_openStored_empty mode,
    Database.putAll_ofDocuments ∅ writes, rfl, ofDatabase_eq rfl⟩,
    Directory.below tree root, ?opened, ?proper, ?plain, fun _ => Directory.findsAs_settled hr hf⟩
  case opened =>
    refine Directory.result_archive ?_
    have hp := hf.proper _ hm
    refine Directory.has_of_contains hr hf (not_mem_segments hp.isPlain) ?_
    rw [hp.squeezed_eq_self]
    exact Dictionary.contains_ofList.mpr hm
  case proper =>
    intro query hq
    have hx := Directory.answersAs_squeezed hr hf hq.isPlain
    rwa [hq.squeezed_eq_self] at hx
  case plain =>
    intro query hq
    refine ⟨Directory.answersAs_squeezed hr hf hq, fun ht hc => ⟨?directory, ?memory⟩⟩
    case directory =>
      have hn : Text.segments query ≠ [] := by
        intro hn
        exact (hc _ hm).2 (hn ▸ List.nil_prefix)
      rw [Directory.result_get_below, Directory.get_eq_notFound hr hf hq ht hc hn]
    case memory =>
      have hg : (Dictionary.ofList writes).get? query = none := by
        rw [Option.eq_none_iff_forall_ne_some]
        intro text hg
        exact (hc _ (Dictionary.mem_of_get?_ofList hg)).1 (List.prefix_refl _)
      exact result_get_ofDocuments_eq_error_iff.mpr ⟨hg, rfl⟩

-- The table of the fasting rules, which is written twice, and a calendar.
def rewritten : List (String × String) := [
  (Library.fastingPath, ""),
  ("xml/01/05.xml", "<DAY/>"),
  (Library.fastingPath, "<FASTING/>")
]

def contentTree : FileTree :=
  .folder [("content", .folderOf rewritten)]

theorem fit_rewritten : FileTree.Fit "/content" (rewritten.map (·.1)) where
  proper := by decide +kernel
  takes  := by decide +kernel
  apart  := by decide +kernel

theorem lookup_contentTree : contentTree.lookup "/content" = .found (.folderOf rewritten) := rfl

theorem interchange_of_rewritten :
    Library.fastingPath ∈ rewritten.map (·.1) ∧
    FileTree.Fit "/content" (rewritten.map (·.1)) ∧
    contentTree.lookup "/content" = .found (.folderOf rewritten) ∧
    (∃ d d', (Database.openStored "memory" (.database {})).result = .ok d ∧
      d.putAll rewritten = .ok d' ∧ (checkTable d').result = .ok () ∧
      ofDatabase d' = ofDocuments (.ofList rewritten)) ∧
    ∃ a, (Directory.archive contentTree "/content").result = .ok a ∧
      (a.get Library.fastingPath).result = .ok "<FASTING/>" ∧
      (a.get "xml/01/06.xml").result = .error (.notFound "xml/01/06.xml") := by
  have hm : Library.fastingPath ∈ rewritten.map (·.1) := by decide +kernel
  obtain ⟨hd, a, ha, hp, hq, _⟩ := interchange "memory" lookup_contentTree fit_rewritten hm
  refine ⟨hm, fit_rewritten, lookup_contentTree, hd, a, ha, ?fasting, ?day⟩
  case fasting =>
    refine ((hp Library.fastingPath (by decide +kernel)).get _).mpr ?_
    exact toOption_eq_some_iff.mp (by decide +kernel)
  case day =>
    exact ((hq "xml/01/06.xml" (by decide +kernel)).2 (by decide +kernel) (by decide +kernel)).1

-- With an empty segment or a dot in it, a path leads to a document in the directory only.
theorem directory_has_more_paths :
    ∃ a, (Directory.archive contentTree "/content").result = .ok a ∧
      (a.has "xml//01/05.xml").result = .ok true ∧
      ((ofDocuments (.ofList rewritten)).has "xml//01/05.xml").result = .ok false ∧
      (a.has "./xml/01/05.xml").result = .ok true ∧
      ((ofDocuments (.ofList rewritten)).has "./xml/01/05.xml").result = .ok false := by
  have hs : Directory.has contentTree "/content" Library.fastingPath := by decide +kernel
  have hx : Directory.has contentTree "/content" "xml//01/05.xml" = true := by decide +kernel
  have hd : Directory.has contentTree "/content" "./xml/01/05.xml" = true := by decide +kernel
  exact ⟨_, Directory.result_archive hs, congrArg _ hx, by rfl, congrArg _ hd, by rfl⟩

end Archive

end Ordo
