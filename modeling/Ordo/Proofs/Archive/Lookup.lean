import Ordo.Proofs.Archive.Library
import Ordo.Proofs.Text.Segments

namespace Ordo

-- The archive always tells whether it has a document, as in `has`.
def Archive.Tells (a : Archive) (has : String → Bool) : Prop :=
  ∀ path, (a.has path).result = .ok (has path)

namespace Library

-- The document at `found` stands before all others for `path`: nothing is at any of the more
-- specific paths.
def IsMostSpecific (l : Library) (path found : String) : Prop :=
  ∃ depth ≤ l.segments.length, found = l.candidate path depth ∧
    (l.archive.has found).result = .ok true ∧
    ∀ deeper ≤ l.segments.length, depth < deeper →
      (l.archive.has (l.candidate path deeper)).result = .ok false

-- How many segments of the tag stand before the path of each document, from the general on.
def depths (l : Library) (has : String → Bool) (path : String) : List Nat :=
  (List.range (l.segments.length + 1)).filter (has ∘ l.candidate path)

variable {a : Archive} {l l' : Library} {has : String → Bool} {path found tag extension : String}
  {ps more : List String} {depth deeper : Nat}

theorem firstOf_eq_some_iff : (firstOf a ps).result = .ok (some found) ↔
    ∃ before behind, ps = before ++ found :: behind ∧ (a.has found).result = .ok true ∧
      ∀ p ∈ before, (a.has p).result = .ok false := by
  induction ps
  case nil => simp [firstOf]
  case cons p ps hi =>
    rw [firstOf, Logged.bind_eq_ok_iff]
    constructor
    case mp =>
      rintro ⟨r, hr, h⟩
      cases r
      case true =>
        cases h
        exact ⟨[], ps, rfl, hr, nofun⟩
      case false =>
        obtain ⟨before, behind, rfl, hf, hb⟩ := hi.mp h
        exact ⟨p :: before, behind, rfl, hf, List.forall_mem_cons.mpr ⟨hr, hb⟩⟩
    case mpr =>
      rintro ⟨before, behind, h, hf, hb⟩
      cases before
      case nil =>
        cases h
        exact ⟨true, hf, rfl⟩
      case cons =>
        cases h
        obtain ⟨hr, hb⟩ := List.forall_mem_cons.mp hb
        exact ⟨false, hr, hi.mpr ⟨_, behind, rfl, hf, hb⟩⟩

theorem result_firstOf (h : a.Tells has) (ps : List String) :
    (firstOf a ps).result = .ok (ps.find? has) := by
  induction ps
  case nil => rfl
  case cons p ps hi =>
    rw [firstOf, Logged.result_bind, h p, List.find?_cons]
    cases has p
    case true  => rfl
    case false => exact hi

theorem result_allOf (h : a.Tells has) (ps : List String) :
    (allOf a ps).result = .ok (ps.filter has) := by
  induction ps
  case nil => rfl
  case cons p ps hi =>
    rw [allOf, Logged.result_bind, h p, List.filter_cons]
    refine bind_eq_ok_iff.mpr ⟨has p, rfl, ?_⟩
    rw [Logged.result_bind, hi]
    cases has p
    case true  => rfl
    case false => rfl

theorem result_findTopDown (h : l.archive.Tells has) (path : String) :
    (l.findTopDown path).result = .ok ((l.depths has path).map (l.candidate path)) := by
  rw [findTopDown, result_allOf h, candidates, List.filter_map, depths]

-- The last one of the documents that are found from the general to the specific.
theorem result_findBottomUp (h : l.archive.Tells has) (path : String) :
    (l.findBottomUp path).result =
      match ((l.depths has path).map (l.candidate path)).getLast? with
      | some found => .ok found
      | none       => .error (.notFound path) := by
  rw [depths, ← List.filter_map, List.getLast?_filter, findBottomUp, Logged.result_bind,
    result_firstOf h, candidates]
  cases ((List.range (l.segments.length + 1)).map (l.candidate path)).reverse.find? has
  case none => rfl
  case some => rfl

-- The depths down to `depth` are looked at before it.
theorem mem_before_iff {n : Nat} {before behind : List Nat}
    (h : (List.range (n + 1)).reverse = before ++ depth :: behind) :
    deeper ∈ before ↔ deeper ≤ n ∧ depth < deeper := by
  have hp : (before ++ depth :: behind).Pairwise (· > ·) :=
    h ▸ List.pairwise_reverse.mpr List.pairwise_lt_range
  obtain ⟨-, hb, hx⟩ := List.pairwise_append.mp hp
  have hm : deeper ∈ before ++ depth :: behind ↔ deeper ≤ n := by
    rw [← h, List.mem_reverse, List.mem_range, Nat.lt_succ_iff]
  constructor
  case mp =>
    intro hd
    exact ⟨hm.mp (List.mem_append_left _ hd), hx deeper hd depth List.mem_cons_self⟩
  case mpr =>
    rintro ⟨hn, hd⟩
    rcases List.mem_append.mp (hm.mpr hn) with hd' | hd'
    case inl => exact hd'
    case inr =>
      rcases List.mem_cons.mp hd' with rfl | hd'
      · exact absurd hd (Nat.lt_irrefl _)
      · exact absurd hd (Nat.lt_asymm (List.rel_of_pairwise_cons hb hd'))

theorem findBottomUp_eq_ok_iff :
    (l.findBottomUp path).result = .ok found ↔ l.IsMostSpecific path found := by
  have hf : (l.findBottomUp path).result = .ok found ↔
      (firstOf l.archive (l.candidates path).reverse).result = .ok (some found) := by
    rw [findBottomUp, Logged.bind_eq_ok_iff]
    constructor
    case mp =>
      rintro ⟨_ | found', hr, h⟩
      case none => cases h
      case some =>
        cases h
        exact hr
    case mpr => exact fun h => ⟨some found, h, rfl⟩
  rw [hf, firstOf_eq_some_iff, candidates, ← List.map_reverse]
  constructor
  case mp =>
    rintro ⟨before, behind, h, hfound, hb⟩
    obtain ⟨ds, rest, hd, rfl, hr⟩ := List.map_eq_append_iff.mp h
    obtain ⟨depth, ds', rfl, rfl, -⟩ := List.map_eq_cons_iff.mp hr
    have hm : depth ∈ (List.range (l.segments.length + 1)).reverse :=
      hd ▸ List.mem_append_right _ List.mem_cons_self
    rw [List.mem_reverse, List.mem_range, Nat.lt_succ_iff] at hm
    refine ⟨depth, hm, rfl, hfound, fun deeper hn hlt => ?_⟩
    exact hb _ (List.mem_map_of_mem ((mem_before_iff hd).mpr ⟨hn, hlt⟩))
  case mpr =>
    rintro ⟨depth, hn, rfl, hfound, hb⟩
    have hm : depth ∈ (List.range (l.segments.length + 1)).reverse := by
      rwa [List.mem_reverse, List.mem_range, Nat.lt_succ_iff]
    obtain ⟨ds, ds', hd⟩ := List.append_of_mem hm
    refine ⟨ds.map (l.candidate path), ds'.map (l.candidate path), ?_, hfound, fun p hp => ?_⟩
    · rw [hd, List.map_append, List.map_cons]
    · obtain ⟨deeper, hm, rfl⟩ := List.mem_map.mp hp
      obtain ⟨hn, hlt⟩ := (mem_before_iff hd).mp hm
      exact hb deeper hn hlt

theorem mem_depths_iff :
    depth ∈ l.depths has path ↔ depth ≤ l.segments.length ∧ has (l.candidate path depth) := by
  rw [depths, List.mem_filter, List.mem_range, Nat.lt_succ_iff, Function.comp_apply]

theorem length_intercalate_insert (ss : List String) (s path : String) :
    ("/".intercalate (ss ++ [s, path])).length =
      ("/".intercalate (ss ++ [path])).length + s.length + 1 := by
  have hs : "/".length = 1 := rfl
  induction ss
  case nil =>
    rw [List.nil_append, List.nil_append, String.intercalate_cons_cons,
      String.intercalate_singleton, String.length_append, String.length_append]
    omega
  case cons t ss hi =>
    rw [List.cons_append, List.cons_append, String.intercalate_cons_of_ne_nil (by simp),
      String.intercalate_cons_of_ne_nil (by simp)]
    simp only [String.length_append, hi]
    omega

-- A more specific path is longer, as each segment stands before a slash.
theorem length_candidate_lt (h : depth < deeper) (hd : deeper ≤ l.segments.length) (path : String) :
    (l.candidate path depth).length < (l.candidate path deeper).length := by
  have hs {d : Nat} (hd : d < l.segments.length) :
      (l.candidate path d).length < (l.candidate path (d + 1)).length := by
    rw [candidate, candidate, List.take_succ_eq_append_getElem hd, List.append_assoc,
      List.singleton_append, length_intercalate_insert]
    omega
  induction h
  case refl => exact hs hd
  case step hlt hi => exact Nat.lt_trans (hi (Nat.le_of_lt hd)) (hs hd)

theorem pairwise_depths : (l.depths has path).Pairwise (· < ·) :=
  List.pairwise_lt_range.filter _

theorem nodup_map_depths : ((l.depths has path).map (l.candidate path)).Nodup := by
  refine List.pairwise_map.mpr (pairwise_depths.imp_of_mem fun {depth deeper} _ hd hlt he => ?_)
  exact Nat.ne_of_lt (length_candidate_lt hlt (mem_depths_iff.mp hd).1 path) (congrArg _ he)

theorem candidate_of_extension (h : l'.segments = l.segments ++ more)
    (hd : depth ≤ l.segments.length) : l'.candidate path depth = l.candidate path depth := by
  rw [candidate, candidate, h, List.take_append_of_le_length hd]

theorem depths_of_extension (h : l'.segments = l.segments ++ more) (has : String → Bool)
    (path : String) :
    ∃ new, l'.depths has path = l.depths has path ++ new ∧
      new.Sublist ((List.range more.length).map (l.segments.length + 1 + ·)) := by
  have hl : l'.segments.length + 1 = l.segments.length + 1 + more.length := by
    rw [h, List.length_append, Nat.add_right_comm]
  have ho : (List.range (l.segments.length + 1)).filter (has ∘ l'.candidate path) =
      l.depths has path := by
    refine List.filter_congr fun depth hd => ?_
    rw [List.mem_range, Nat.lt_succ_iff] at hd
    rw [Function.comp_apply, candidate_of_extension h hd, Function.comp_apply]
  rw [depths, hl, List.range_add, List.filter_append, ho]
  exact ⟨_, rfl, List.filter_sublist⟩

theorem ofTag_eq_ok_iff : ofTag a tag = .ok l ↔
    (Text.trimSlashes tag = "" ∨ Language.isTag (Text.trimSlashes tag)) ∧
      l = ⟨a, Text.segments (Text.trimSlashes tag)⟩ := by
  simp only [ofTag, Bool.or_eq_true, String.isEmpty_iff]
  split
  case isTrue h  => rw [and_iff_right h, Except.ok.injEq, eq_comm]
  case isFalse h => simp [h]

-- A tag is extended by segments behind a further slash.
theorem ofTag_of_extension (h : ofTag a tag = .ok l) (he : Language.isTag extension) :
    ofTag a (Text.trimSlashes tag ++ "/" ++ extension) =
      .ok ⟨a, l.segments ++ Text.segments extension⟩ := by
  obtain ⟨ht, rfl⟩ := ofTag_eq_ok_iff.mp h
  rw [ofTag_eq_ok_iff]
  rcases ht with ht | ht
  case inl =>
    have hs : "" ++ "/" ++ extension = "/" ++ extension := congrArg (· ++ extension) (by rfl)
    rw [ht, hs, Text.trimSlashes_slash, Language.trimSlashes_of_isTag he]
    exact ⟨.inr he, rfl⟩
  case inr =>
    have hb : Language.isTag (Text.trimSlashes tag ++ "/" ++ extension) := by
      rw [Language.isTag_append, ht, he]
      rfl
    rw [Language.trimSlashes_of_isTag hb]
    refine ⟨.inr hb, ?_⟩
    rw [Text.segments_append]

-- What is found from the general to the specific for the extended tag, and hence the document
-- that is found from the specific to the general.
theorem findTopDown_of_extension (h : l'.segments = l.segments ++ more) (hl : l.archive.Tells has)
    (hl' : l'.archive.Tells has) (path : String) : ∃ founds news,
      (l.findTopDown path).result = .ok founds ∧
      (l'.findTopDown path).result = .ok (founds ++ news) ∧
      news.Sublist ((List.range more.length).map fun depth =>
        l'.candidate path (l.segments.length + 1 + depth)) := by
  obtain ⟨new, hd, hn⟩ := depths_of_extension h has path
  refine ⟨_, new.map (l'.candidate path), result_findTopDown hl path, ?_, ?_⟩
  case refine_1 =>
    have hc : (l.depths has path).map (l'.candidate path) =
        (l.depths has path).map (l.candidate path) :=
      List.map_congr_left fun depth hm => candidate_of_extension h (mem_depths_iff.mp hm).1
    rw [result_findTopDown hl', hd, List.map_append, hc]
  case refine_2 =>
    have hn := hn.map (l'.candidate path)
    rwa [List.map_map] at hn

-- The last one of the documents found from the general to the specific is the one found from the
-- specific to the general, which only fails if there are none.
theorem findBottomUp_of_findTopDown {founds : List String} (h : l.archive.Tells has)
    (hf : (l.findTopDown path).result = .ok founds) :
    (∀ found, (l.findBottomUp path).result = .ok found ↔ founds.getLast? = some found) ∧
    ∀ e, (l.findBottomUp path).result = .error e ↔ founds = [] ∧ e = .notFound path := by
  cases (result_findTopDown h path).symm.trans hf
  rw [result_findBottomUp h]
  rcases hd : ((l.depths has path).map (l.candidate path)).getLast? with _ | found
  case none =>
    rw [List.getLast?_eq_none_iff] at hd
    simp [hd, eq_comm]
  case some =>
    have hn : (l.depths has path).map (l.candidate path) ≠ [] := by
      intro hn
      rw [hn] at hd
      cases hd
    simp [hn]

-- The two ways of looking up agree. A longer tag finds the documents of the shorter one, behind
-- which there are more specific ones only.
theorem findBottomUp_agrees (h : ofTag a tag = .ok l) (path : String) :
    (∀ found, (l.findBottomUp path).result = .ok found ↔ l.IsMostSpecific path found) ∧
    ∀ has, a.Tells has → ∃ (depths : List Nat) (founds : List String),
      founds = depths.map (l.candidate path) ∧ depths.Pairwise (· < ·) ∧ founds.Nodup ∧
      (∀ depth, depth ∈ depths ↔ depth ≤ l.segments.length ∧ has (l.candidate path depth)) ∧
      (l.findTopDown path).result = .ok founds ∧
      (∀ found, (l.findBottomUp path).result = .ok found ↔ founds.getLast? = some found) ∧
      (∀ e, (l.findBottomUp path).result = .error e ↔ founds = [] ∧ e = .notFound path) ∧
      ∀ extension, Language.isTag extension → ∃ l' news,
        ofTag a (Text.trimSlashes tag ++ "/" ++ extension) = .ok l' ∧
        (l'.findTopDown path).result = .ok (founds ++ news) ∧
        ('/' ∉ extension.toList → news.Sublist [l'.candidate path l'.segments.length]) ∧
        ∀ found, (l.findBottomUp path).result = .ok found →
          found ∈ founds ++ news ∧ ∃ found', (l'.findBottomUp path).result = .ok found' := by
  refine ⟨fun found => findBottomUp_eq_ok_iff, fun has ha => ?_⟩
  obtain ⟨-, hl⟩ := ofTag_eq_ok_iff.mp h
  have ha : l.archive.Tells has := by rwa [hl]
  have hf := result_findTopDown ha path
  obtain ⟨hb, he⟩ := findBottomUp_of_findTopDown ha hf
  refine ⟨_, _, rfl, pairwise_depths, nodup_map_depths, fun _ => mem_depths_iff, hf, hb, he,
    fun extension hx => ?_⟩
  obtain ⟨l', ht, hl', ha'⟩ : ∃ l', ofTag a (Text.trimSlashes tag ++ "/" ++ extension) = .ok l' ∧
      l'.segments = l.segments ++ Text.segments extension ∧ l'.archive.Tells has :=
    ⟨_, ofTag_of_extension h hx, rfl, by rwa [hl] at ha⟩
  obtain ⟨founds, news, hf', hn, hs⟩ := findTopDown_of_extension hl' ha ha' path
  cases hf.symm.trans hf'
  refine ⟨l', news, ht, hn, fun ho => ?_, fun found hfound => ?_⟩
  case refine_1 =>
    rw [Text.segments_of_isSegment (Language.isSegment_of_isTag hx ho)] at hl' hs
    rw [hl', List.length_append]
    exact hs
  case refine_2 =>
    have hm := List.mem_append_left news (List.mem_of_getLast? ((hb found).mp hfound))
    have hg := List.getLast?_eq_some_getLast (List.ne_nil_of_mem hm)
    exact ⟨hm, _, ((findBottomUp_of_findTopDown ha' hn).1 _).mpr hg⟩

-- Documents for one day in three layers, of which the one in the middle is missing.
def layered : Dictionary String :=
  .ofList [("cu/ru/xml/01/05.xml", "<DAY/>"), ("xml/01/05.xml", "<DAY/>")]

theorem findBottomUp_agrees_layered :
    let archive := Archive.ofDocuments layered
    let l : Library := ⟨archive, ["cu"]⟩
    let path := menaionPath 1 5
    ofTag archive "/cu" = .ok l ∧ archive.Tells layered.contains ∧ Language.isTag "ru" ∧
    (l.findTopDown path).result = .ok [path] ∧ (l.findBottomUp path).result = .ok path ∧
    ∃ l' news, ofTag archive "cu/ru" = .ok l' ∧
      (l'.findTopDown path).result = .ok (path :: news) ∧
      news.Sublist [l'.candidate path l'.segments.length] ∧
      ∃ found, (l'.findBottomUp path).result = .ok found := by
  intro archive l path
  have hc : Text.trimSlashes "/cu" = "cu" := by decide +kernel
  have hs : Text.segments "cu" = ["cu"] := by decide +kernel
  have h : ofTag archive "/cu" = .ok l := by
    rw [ofTag_eq_ok_iff, hc, hs]
    exact ⟨.inr (by decide +kernel), rfl⟩
  have ha : archive.Tells layered.contains := fun _ => rfl
  have hx : Language.isTag "ru" := by decide +kernel
  have hf : (l.findTopDown path).result = .ok [path] := toOption_eq_some_iff.mp (by decide +kernel)
  obtain ⟨_, founds, -, -, -, -, ht, hb, -, he⟩ := (findBottomUp_agrees h path).2 _ ha
  cases ht.symm.trans hf
  obtain ⟨l', news, hl', hn, hs, hf'⟩ := he "ru" hx
  have hp : (l.findBottomUp path).result = .ok path := (hb path).mpr rfl
  rw [hc] at hl'
  exact ⟨h, ha, hx, hf, hp, l', news, hl', hn, hs (by decide +kernel), (hf' path hp).2⟩

end Library

end Ordo
