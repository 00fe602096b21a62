import Ordo.Document.Flat
import Ordo.Proofs.Archive.Alike
import Ordo.Proofs.Archive.Interchange
import Ordo.Proofs.Archive.Lookup

namespace Ordo

namespace FileTree

-- The folder that `names` lead to from the one at `here`. Its own name is the first one of a
-- place, and those of the folders around it follow; there is nothing above the top.
def resolve (here : List String) : List String → List String
  | [] => here
  | name :: names =>
    if name = "." then resolve here names
    else if name = ".." then resolve here.tail names
    else resolve (name :: here) names

def location (path : String) : List String :=
  resolve [] (Text.segments path)

-- Whether `names` never lead out of a folder when they start at `depth` folders below it.
def staysInside (depth : Nat) : List String → Bool
  | [] => true
  | name :: names =>
    if name = "." then staysInside depth names
    else if name = ".." then
      match depth with
      | 0         => false
      | depth + 1 => staysInside depth names
    else staysInside (depth + 1) names

section

variable {name fresh : String} {names more here inner outer : List String} {depth k : Nat}

theorem resolve_dot : resolve here ("." :: names) = resolve here names :=
  if_pos rfl

theorem resolve_up : resolve here (".." :: names) = resolve here.tail names :=
  if_neg (by decide)

theorem resolve_plain (h : IsPlain name) :
    resolve here (name :: names) = resolve (name :: here) names :=
  (if_neg h.1).trans (if_neg h.2)

theorem staysInside_dot : staysInside depth ("." :: names) = staysInside depth names :=
  if_pos rfl

theorem staysInside_up : staysInside (depth + 1) (".." :: names) = staysInside depth names :=
  if_neg (by decide)

theorem staysInside_up_zero : staysInside 0 (".." :: names) = false :=
  if_neg (by decide)

theorem staysInside_plain (h : IsPlain name) :
    staysInside depth (name :: names) = staysInside (depth + 1) names :=
  (if_neg h.1).trans (if_neg h.2)

theorem resolve_append : resolve here (names ++ more) = resolve (resolve here names) more := by
  induction names using names_induction generalizing here
  case nil => rfl
  case dot names hi           => rw [List.cons_append, resolve_dot, resolve_dot, hi]
  case up names hi            => rw [List.cons_append, resolve_up, resolve_up, hi]
  case plain name names hp hi => rw [List.cons_append, resolve_plain hp, resolve_plain hp, hi]

theorem mem_resolve (h : name ∈ resolve here names) : name ∈ here ∨ name ∈ names := by
  induction names using names_induction generalizing here
  case nil => exact .inl h
  case dot names hi =>
    rw [resolve_dot] at h
    exact (hi h).imp_right (List.mem_cons_of_mem _)
  case up names hi =>
    rw [resolve_up] at h
    exact (hi h).imp List.mem_of_mem_tail (List.mem_cons_of_mem _)
  case plain first names hp hi =>
    rw [resolve_plain hp] at h
    rcases hi h with h | h
    · exact (List.mem_cons.mp h).elim (fun h => .inr (h ▸ List.mem_cons_self)) .inl
    · exact .inr (List.mem_cons_of_mem _ h)

-- Names that stay inside only change what is below the folder.
theorem suffix_resolve (inner : List String) (h : staysInside inner.length names) :
    outer <:+ resolve (inner ++ outer) names := by
  induction names using names_induction generalizing inner
  case nil => exact List.suffix_append _ _
  case dot names hi =>
    rw [staysInside_dot] at h
    exact resolve_dot ▸ hi inner h
  case up names hi =>
    rw [resolve_up]
    cases inner
    case nil =>
      rw [List.length_nil, staysInside_up_zero] at h
      cases h
    case cons =>
      rw [List.length_cons, staysInside_up] at h
      exact hi _ h
  case plain name names hp hi =>
    rw [staysInside_plain hp] at h
    rw [resolve_plain hp]
    exact hi (name :: inner) h

-- Once the names have led out of a folder, they get back into it by its own name only.
theorem not_mem_resolve (inner : List String) (hi : fresh ∉ inner) (hn : fresh ∉ names)
    (h : ¬staysInside inner.length names) : fresh ∉ resolve (inner ++ [fresh]) names := by
  induction names using names_induction generalizing inner
  case nil => exact absurd rfl h
  case dot names ih =>
    rw [staysInside_dot] at h
    exact resolve_dot ▸ ih inner hi (List.not_mem_of_not_mem_cons hn) h
  case up names ih =>
    have ht := List.not_mem_of_not_mem_cons hn
    rw [resolve_up]
    cases inner
    case nil => exact fun hm => (mem_resolve hm).elim List.not_mem_nil ht
    case cons =>
      rw [List.length_cons, staysInside_up] at h
      exact ih _ (List.not_mem_of_not_mem_cons hi) ht h
  case plain name names hp ih =>
    obtain ⟨hf, ht⟩ := List.ne_and_not_mem_of_not_mem_cons hn
    rw [staysInside_plain hp] at h
    rw [resolve_plain hp]
    exact ih (name :: inner) (List.not_mem_cons_of_ne_of_not_mem hf hi) ht h

theorem staysInside_mono (h : staysInside depth names) (hk : depth ≤ k) : staysInside k names := by
  induction names using names_induction generalizing depth k
  case nil => rfl
  case dot names hi =>
    rw [staysInside_dot] at h ⊢
    exact hi h hk
  case up names hi =>
    cases depth
    case zero =>
      rw [staysInside_up_zero] at h
      cases h
    case succ =>
      obtain ⟨k, rfl⟩ := Nat.exists_eq_add_of_lt hk
      rw [staysInside_up] at h ⊢
      exact hi h (by omega)
  case plain name names hp hi =>
    rw [staysInside_plain hp] at h ⊢
    exact hi h (Nat.succ_le_succ hk)

theorem staysInside_append (h : ∀ name ∈ names, IsPlain name) :
    staysInside depth (names ++ more) = staysInside (depth + names.length) more := by
  induction names generalizing depth
  case nil => rfl
  case cons name names hi =>
    obtain ⟨hp, h⟩ := List.forall_mem_cons.mp h
    rw [List.cons_append, staysInside_plain hp, hi h, List.length_cons, Nat.add_assoc,
      Nat.add_comm 1]

-- A name that is longer than all others.
theorem exists_fresh (names : List String) :
    ∃ fresh, Text.IsSegment fresh ∧ IsPlain fresh ∧ fresh ∉ names := by
  let longest := (names.map String.length).max?.getD 0
  let fresh := String.ofList (.replicate (longest + 3) 'a')
  have hl : fresh.length = longest + 3 := by
    rw [String.length_ofList, List.length_replicate]
  have hne {name : String} (h : name.length < longest + 3) : fresh ≠ name := by
    rintro rfl
    omega
  refine ⟨fresh, ⟨?empty, ?slash⟩, ⟨?dot, ?up⟩, fun hm => ?mem⟩
  case slash =>
    rw [String.toList_ofList, List.mem_replicate]
    exact fun h => absurd h.2 (by decide)
  case mem =>
    have := List.le_max?_getD_of_mem (k := 0) (List.mem_map_of_mem (f := String.length) hm)
    omega
  case empty => exact hne (Nat.zero_lt_succ _)
  case dot => exact hne (show 1 < longest + 3 by omega)
  case up => exact hne (show 2 < longest + 3 by omega)

end

section

variable {tree tree' here : FileTree} {above above' : List FileTree} {names : List String}
  {root path : String}

-- The folders above do not matter as long as the names do not lead up to them.
theorem walk_congr_of_staysInside (inner : List FileTree) (h : staysInside inner.length names) :
    walk (inner ++ above) here names = walk (inner ++ above') here names := by
  induction names generalizing inner here
  case nil => rfl
  case cons name names hi =>
    cases here
    case file => rfl
    case folder entries =>
      rcases dot_or_up_or_isPlain name with rfl | rfl | hp
      case inl =>
        rw [staysInside_dot] at h
        rw [walk_dot, walk_dot]
        exact hi inner h
      case inr.inl =>
        cases inner
        case nil =>
          rw [List.length_nil, staysInside_up_zero] at h
          cases h
        case cons =>
          rw [List.length_cons, staysInside_up] at h
          rw [List.cons_append, List.cons_append, walk_up, walk_up]
          exact hi _ h
      case inr.inr =>
        rw [staysInside_plain hp] at h
        by_cases hs : name.utf8ByteSize ≤ maxName
        case neg => rw [walk_too_long hp hs, walk_too_long hp hs]
        case pos =>
          rw [walk_folder hp hs, walk_folder hp hs]
          cases child? name entries
          case none   => rfl
          case some t => exact hi (folder entries :: inner) h

-- What is found below a folder depends on nothing but the folder.
theorem lookup_filePath_congr (hr : tree.lookup root = .found here)
    (hr' : tree'.lookup root = .found here) (h : staysInside 0 (Text.segments path)) :
    tree'.lookup (Archive.Directory.filePath root path) =
      tree.lookup (Archive.Directory.filePath root path) := by
  rw [lookup] at hr hr'
  split at hr
  case isTrue => cases hr
  case isFalse hl =>
    rw [if_neg hl] at hr'
    obtain ⟨above, ha⟩ := exists_walk_append hr
    obtain ⟨above', ha'⟩ := exists_walk_append hr'
    rw [lookup, lookup, segments_filePath, ha, ha']
    congr 1
    exact walk_congr_of_staysInside [] h

end

end FileTree

namespace Archive.Directory

open FileTree

variable {tree tree' here : FileTree} {root path : String}

-- Whether the file of a document lies in the directory.
def IsInside (root path : String) : Prop :=
  location root <:+ location (filePath root path)

instance (root path : String) : Decidable (IsInside root path) :=
  inferInstanceAs (Decidable (_ <:+ _))

theorem location_filePath (root path : String) :
    location (filePath root path) = resolve (location root) (Text.segments path) := by
  rw [location, segments_filePath, resolve_append]
  rfl

-- For a path that leads out of the directory, a directory with a name that is not in the path shows
-- it.
theorem forall_isInside_iff :
    (∀ root, IsInside root path) ↔ staysInside 0 (Text.segments path) := by
  constructor
  case mp =>
    intro h
    refine Decidable.byContradiction fun hs => ?_
    obtain ⟨root, hr, hp, hf⟩ := exists_fresh (Text.segments path)
    have hl : location root = [root] := by
      rw [location, Text.segments_of_isSegment hr]
      exact resolve_plain hp
    have hi := h root
    rw [IsInside, location_filePath, hl] at hi
    exact not_mem_resolve [] List.not_mem_nil hf hs (hi.subset List.mem_cons_self)
  case mpr =>
    intro h root
    rw [IsInside, location_filePath]
    exact suffix_resolve [] h

theorem below_congr (hr : tree.lookup root = .found here) (hr' : tree'.lookup root = .found here)
    (h : staysInside 0 (Text.segments path)) :
    has tree' root path = has tree root path ∧ get tree' root path = get tree root path := by
  have hl := lookup_filePath_congr hr hr' h
  simp only [has, isFile, get, hl, and_self]

end Archive.Directory

namespace Library

open FileTree

variable {a : Archive} {l : Library} {tag cid root : String} {here tree tree' : FileTree}

theorem staysInside_single {depth : Nat} (h : 2 ≤ depth) (name : String) :
    staysInside depth [name] := by
  refine staysInside_mono ?_ h
  rcases dot_or_up_or_isPlain name with rfl | rfl | hp
  case inl     => rfl
  case inr.inl => rfl
  case inr.inr => rw [staysInside_plain hp, staysInside]

theorem segments_file (h : '/' ∉ cid.toList) : Text.segments (cid ++ ".xml") = [cid ++ ".xml"] := by
  refine Text.segments_of_isSegment ⟨?_, ?_⟩
  case refine_1 =>
    intro he
    have hl := congrArg String.length he
    simp at hl
  case refine_2 => simpa using h

theorem livesPath_eq (cid : String) : ∃ filled,
    livesPath cid = "xml/lives" ++ "/" ++ (filled ++ ".xml") ∧
      (filled = cid ∨ '/' ∉ cid.toList ∧ '/' ∉ filled.toList) := by
  have hf (filled : String) :
      "xml/lives/" ++ filled ++ ".xml" = "xml/lives" ++ "/" ++ (filled ++ ".xml") := by
    rw [← String.toList_inj]
    simp
  rw [livesPath, hf]
  refine ⟨_, rfl, ?_⟩
  split
  case h_2 => exact .inl rfl
  case h_1 c hc =>
    split
    case isFalse => exact .inl rfl
    case isTrue hd =>
      have hn : '/' ≠ c := by
        rintro rfl
        cases hd
      exact .inr ⟨by simpa [hc] using hn, by simpa [hc] using hn⟩

-- The zero in front of a single digit does not make another name.
theorem staysInside_livesPath (depth : Nat) (cid : String) :
    staysInside depth (Text.segments (livesPath cid)) =
      staysInside (depth + 2) (Text.segments (cid ++ ".xml")) := by
  obtain ⟨filled, hp, hf⟩ := livesPath_eq cid
  have hs : Text.segments "xml/lives" = ["xml", "lives"] := by decide +kernel
  rw [hp, Text.segments_append, hs, staysInside_append (by decide)]
  rcases hf with rfl | ⟨hc, hf⟩
  case inl => rfl
  case inr =>
    have hd : 2 ≤ depth + 2 := Nat.le_add_left 2 depth
    rw [segments_file hc, segments_file hf]
    exact (staysInside_single hd _).trans (staysInside_single hd _).symm

theorem isPlain_of_isTag (h : Language.isTag tag) : ∀ name ∈ Text.segments tag, IsPlain name := by
  intro name hn
  obtain ⟨piece, hp, rfl⟩ := List.mem_map.mp hn
  have hc := List.all_eq_true.mp h piece (List.mem_filter.mp hp).1
  constructor
  case left =>
    intro he
    rw [String.ofList_injective (show String.ofList piece = .ofList ['.'] from he)] at hc
    cases hc
  case right =>
    intro he
    rw [String.ofList_injective (show String.ofList piece = .ofList ['.', '.'] from he)] at hc
    cases hc

theorem segments_candidate (h : ofTag a tag = .ok l) (path : String) (depth : Nat) :
    Text.segments (l.candidate path depth) = l.segments.take depth ++ Text.segments path := by
  obtain ⟨-, rfl⟩ := ofTag_eq_ok_iff.mp h
  have hs : ∀ name ∈ (Text.segments (Text.trimSlashes tag)).take depth, Text.IsSegment name :=
    fun name hm => Text.isSegment_of_mem_segments (List.mem_of_mem_take hm)
  rw [candidate, Text.segments_intercalate, List.flatMap_append, Text.flatMap_segments hs,
    List.flatMap_singleton]

-- The names of a tag lead down only.
theorem staysInside_candidate (h : ofTag a tag = .ok l) (path : String) (depth : Nat) :
    staysInside 0 (Text.segments (l.candidate path depth)) =
      staysInside (l.segments.take depth).length (Text.segments path) := by
  have hp : ∀ name ∈ l.segments, IsPlain name := by
    obtain ⟨ht, hl⟩ := ofTag_eq_ok_iff.mp h
    rw [hl]
    rcases ht with ht | ht
    case inl =>
      have he : Text.segments "" = [] := by decide +kernel
      rw [ht, he]
      exact List.forall_mem_nil _
    case inr =>
      dsimp only
      exact isPlain_of_isTag ht
  have ht : ∀ name ∈ l.segments.take depth, IsPlain name :=
    fun name hm => hp name (List.mem_of_mem_take hm)
  rw [segments_candidate h, staysInside_append ht, Nat.zero_add]

-- The document without a language decides, since the names of a tag stand in front of the others.
theorem staysInside_candidates_iff (h : ofTag a tag = .ok l) (cid : String) :
    (∀ p ∈ l.candidates (livesPath cid), staysInside 0 (Text.segments p)) ↔
      staysInside 2 (Text.segments (cid ++ ".xml")) := by
  simp only [candidates, List.forall_mem_map, List.mem_range, staysInside_candidate h,
    staysInside_livesPath]
  constructor
  case mp  => exact fun hs => hs 0 (Nat.succ_pos _)
  case mpr => exact fun hs depth _ => staysInside_mono hs (Nat.le_add_left 2 _)

-- What is read does then not depend on any file outside of the directory.
theorem result_lives_congr {l' : Library} (hr : tree.lookup root = .found here)
    (hr' : tree'.lookup root = .found here)
    (h : ofTag (Archive.Directory.below tree root) tag = .ok l)
    (h' : ofTag (Archive.Directory.below tree' root) tag = .ok l')
    (hs : staysInside 2 (Text.segments (cid ++ ".xml"))) :
    (l'.lives cid).result = (l.lives cid).result := by
  have hc := (staysInside_candidates_iff h cid).mpr hs
  obtain ⟨-, rfl⟩ := ofTag_eq_ok_iff.mp h
  obtain ⟨-, rfl⟩ := ofTag_eq_ok_iff.mp h'
  refine AlikeOn.result_readTopDown ⟨rfl, fun p hp => ?_, fun p hp => ?_⟩
  case refine_1 =>
    exact congrArg Except.ok (Archive.Directory.below_congr hr hr' (hc p hp)).1
  case refine_2 =>
    dsimp only
    rw [Archive.Directory.result_get_below, Archive.Directory.result_get_below]
    exact (Archive.Directory.below_congr hr hr' (hc p hp)).2

-- A biography is looked for inside of the directory, wherever that lies, if the identifier goes up
-- no more than the two folders that it stands in.
theorem lives_isInside_iff (h : ofTag a tag = .ok l) (cid : String) :
    (∀ root, ∀ p ∈ l.candidates (livesPath cid), Archive.Directory.IsInside root p) ↔
      staysInside 2 (Text.segments (cid ++ ".xml")) := by
  rw [← staysInside_candidates_iff h]
  simp only [← Archive.Directory.forall_isInside_iff]
  exact ⟨fun hi p hp root => hi root p hp, fun hi root p hp => hi p hp root⟩

-- An identifier that goes up one folder and comes back.
theorem lives_isInside_returning :
    let a := Archive.Directory.below .empty "/content"
    let l : Library := ⟨a, ["cu", "ru"]⟩
    let cid := "../lives/9001"
    ofTag a "/cu/ru/" = .ok l ∧ staysInside 2 (Text.segments (cid ++ ".xml")) ∧
      ∀ p ∈ l.candidates (livesPath cid), Archive.Directory.IsInside "/content" p := by
  intro a l cid
  have hc : Text.trimSlashes "/cu/ru/" = "cu/ru" := by decide +kernel
  have hs : Text.segments "cu/ru" = ["cu", "ru"] := by decide +kernel
  have h : ofTag a "/cu/ru/" = .ok l := by
    rw [ofTag_eq_ok_iff, hc, hs]
    exact ⟨.inr (by decide +kernel), rfl⟩
  have hi : staysInside 2 (Text.segments (cid ++ ".xml")) := by decide +kernel
  exact ⟨h, hi, (lives_isInside_iff h cid).mpr hi "/content"⟩

-- A directory with the table of the fasting rules, and a file beside it.
def outsideTree : FileTree :=
  .folder [
    ("outside.xml", .file "<SAINT/>".toUTF8),
    ("content", .folder [("xml", .folder [
      ("Commands", .folder [("Fasting.xml", .file "<FASTING/>".toUTF8)]), ("lives", .empty)])])
  ]

theorem lives_outside :
    let a := Archive.Directory.below outsideTree "/content"
    let l : Library := ⟨a, []⟩
    let cid := "../../../outside"
    Document.commemorations .movable "<DAY><SAINT CId='../../../outside'/></DAY>" ∅ =
        .ok [{ cid, cycle := .movable }] ∧
      (Archive.Directory.archive outsideTree "/content").result = .ok a ∧ ofTag a "" = .ok l ∧
      (∃ p ∈ l.candidates (livesPath cid), ¬Archive.Directory.IsInside "/content" p) ∧
      (l.lives cid).result = .ok [⟨"xml/lives/../../../outside.xml", "<SAINT/>"⟩] := by
  intro a l cid
  have hc : Text.trimSlashes "" = "" := by decide +kernel
  have hs : Text.segments "" = [] := by decide +kernel
  have h : ofTag a "" = .ok l := by
    rw [ofTag_eq_ok_iff, hc, hs]
    exact ⟨.inl rfl, rfl⟩
  refine ⟨?declared, ?opened, h, ⟨livesPath cid, ?asked, ?outside⟩, ?read⟩
  case declared => exact toOption_eq_some_iff.mp (by decide +kernel)
  case opened   => exact Archive.Directory.result_archive (by decide +kernel)
  case asked    => decide +kernel
  case outside  => decide +kernel
  case read     => exact toOption_eq_some_iff.mp (by decide +kernel)

end Library

end Ordo
