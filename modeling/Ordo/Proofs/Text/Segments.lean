import Ordo.Archive.Library

namespace Ordo

namespace Text

-- Whether a text can stand between two slashes.
def IsSegment (s : String) : Prop :=
  s ≠ "" ∧ '/' ∉ s.toList

instance (s : String) : Decidable (IsSegment s) :=
  inferInstanceAs (Decidable (_ ∧ _))

variable {separator : Char} {cs ds piece : List Char} {p : Char → Bool} {s t : String}

theorem splitList_ne_nil (separator : Char) (cs : List Char) : splitList separator cs ≠ [] := by
  cases cs
  case nil => nofun
  case cons =>
    rw [splitList]
    split
    case isTrue  => nofun
    case isFalse => split <;> nofun

theorem splitList_append (separator : Char) (cs ds : List Char) :
    splitList separator (cs ++ separator :: ds) =
      splitList separator cs ++ splitList separator ds := by
  induction cs
  case nil => simp [splitList]
  case cons c cs hi =>
    rw [List.cons_append, splitList, splitList, hi]
    split
    case isTrue  => rfl
    case isFalse =>
      cases hc : splitList separator cs
      case nil  => exact absurd hc (splitList_ne_nil separator cs)
      case cons => rfl

theorem splitList_of_not_mem (h : separator ∉ cs) : splitList separator cs = [cs] := by
  induction cs
  case nil => rfl
  case cons c cs hi =>
    rw [List.mem_cons, not_or] at h
    rw [splitList, hi h.2, if_neg (by simpa using Ne.symm h.1)]

theorem not_mem_of_mem_splitList (h : piece ∈ splitList separator cs) : separator ∉ piece := by
  induction cs generalizing piece
  case nil =>
    cases List.mem_singleton.mp h
    exact List.not_mem_nil
  case cons c cs hi =>
    rw [splitList] at h
    split at h
    case isTrue =>
      rcases List.mem_cons.mp h with rfl | h
      · exact List.not_mem_nil
      · exact hi h
    case isFalse hc =>
      cases hp : splitList separator cs
      case nil => exact absurd hp (splitList_ne_nil separator cs)
      case cons first pieces =>
        rw [hp] at h hi
        rcases List.mem_cons.mp h with rfl | h
        · have hc : separator ≠ c := by
            rintro rfl
            exact hc (beq_self_eq_true separator)
          exact List.not_mem_cons_of_ne_of_not_mem hc (hi List.mem_cons_self)
        · exact hi (List.mem_cons_of_mem _ h)

theorem exists_mem_splitList {c : Char} (h : c ∈ cs) (hs : c ≠ separator) :
    ∃ piece ∈ splitList separator cs, c ∈ piece := by
  obtain ⟨before, after, rfl⟩ := List.append_of_mem h
  induction before
  case nil =>
    rw [List.nil_append, splitList, if_neg (by simpa using hs)]
    split
    case h_1 => exact ⟨[c], List.mem_cons_self, List.mem_cons_self⟩
    case h_2 => exact ⟨_, List.mem_cons_self, List.mem_cons_self⟩
  case cons d before hi =>
    obtain ⟨piece, hp, hc⟩ := hi (by simp)
    rw [List.cons_append, splitList]
    split
    case isTrue => exact ⟨piece, List.mem_cons_of_mem _ hp, hc⟩
    case isFalse =>
      cases hr : splitList separator (before ++ c :: after)
      case nil => exact absurd hr (splitList_ne_nil separator _)
      case cons first pieces =>
        rw [hr] at hp
        rcases List.mem_cons.mp hp with rfl | hp
        · exact ⟨d :: piece, List.mem_cons_self, List.mem_cons_of_mem d hc⟩
        · exact ⟨piece, List.mem_cons_of_mem _ hp, hc⟩

theorem intercalate_splitList (separator : Char) (cs : List Char) :
    [separator].intercalate (splitList separator cs) = cs := by
  induction cs
  case nil => rfl
  case cons c cs hi =>
    rw [splitList]
    cases hp : splitList separator cs
    case nil => exact absurd hp (splitList_ne_nil separator cs)
    case cons first pieces =>
      rw [hp] at hi
      split
      case isTrue h =>
        rw [List.intercalate_cons_cons, hi, beq_iff_eq.mp h]
        rfl
      case isFalse =>
        dsimp only
        cases pieces
        case nil =>
          rw [List.intercalate_singleton] at hi ⊢
          rw [hi]
        case cons =>
          rw [List.intercalate_cons_cons] at hi ⊢
          rw [← hi]
          rfl

theorem isSegment_of_mem_segments (h : t ∈ segments s) : IsSegment t := by
  obtain ⟨piece, hp, rfl⟩ := List.mem_map.mp h
  obtain ⟨hp, hn⟩ := List.mem_filter.mp hp
  constructor
  case left =>
    rintro h
    cases String.ofList_eq_empty_iff.mp h
    cases hn
  case right =>
    rw [String.toList_ofList]
    exact not_mem_of_mem_splitList hp

theorem segments_append (s t : String) : segments (s ++ "/" ++ t) = segments s ++ segments t := by
  have h : (s ++ "/" ++ t).toList = s.toList ++ '/' :: t.toList := by simp
  rw [segments, h, splitList_append, List.filter_append, List.map_append]
  rfl

theorem segments_of_isSegment (h : IsSegment s) : segments s = [s] := by
  have hs : s.toList.isEmpty = false := by simpa using h.1
  simp [segments, splitList_of_not_mem h.2, hs]

-- The segments of texts that are put together are those of each of them.
theorem segments_intercalate (ss : List String) :
    segments ("/".intercalate ss) = ss.flatMap segments := by
  induction ss
  case nil => rfl
  case cons s ss hi =>
    rw [List.flatMap_cons, ← hi]
    cases ss
    case nil  => simp [segments, splitList]
    case cons => rw [String.intercalate_cons_cons, segments_append]

theorem flatMap_segments {ss : List String} (h : ∀ s ∈ ss, IsSegment s) :
    ss.flatMap segments = ss := by
  induction ss
  case nil => rfl
  case cons s ss hi =>
    rw [List.forall_mem_cons] at h
    rw [List.flatMap_cons, segments_of_isSegment h.1, hi h.2]
    rfl

-- A text without empty pieces is made of its segments.
theorem segments_eq_map (h : [] ∉ splitList '/' s.toList) :
    segments s = (splitList '/' s.toList).map String.ofList := by
  rw [segments, List.filter_eq_self.mpr]
  intro piece hp
  simpa using ne_of_mem_of_not_mem hp h

theorem intercalate_segments (h : [] ∉ splitList '/' s.toList) : "/".intercalate (segments s) = s := by
  have hs : "/".toList = ['/'] := rfl
  have hl : String.toList ∘ String.ofList = id := funext fun cs => String.toList_ofList
  rw [← String.toList_inj, String.toList_intercalate, segments_eq_map h, List.map_map, hl,
    List.map_id, hs, intercalate_splitList]

theorem stripped_eq_self (hf : ∀ c ∈ cs.head?, p c = false) (hl : ∀ c ∈ cs.getLast?, p c = false) :
    stripped p cs = cs := by
  have hd {cs : List Char} (h : ∀ c ∈ cs.head?, p c = false) : cs.dropWhile p = cs := by
    cases cs
    case nil  => rfl
    case cons => rw [List.dropWhile_cons_of_neg (by simpa using h)]
  rw [stripped, hd hf, hd (by simpa using hl), List.reverse_reverse]

theorem trimSlashes_slash (s : String) : trimSlashes ("/" ++ s) = trimSlashes s := by
  have h : ("/" ++ s).toList = '/' :: s.toList := by simp
  rw [trimSlashes, h, stripped, List.dropWhile_cons_of_pos (by rfl)]
  rfl

end Text

namespace Language

variable {s t : String}

theorem isTag_append : isTag (s ++ "/" ++ t) = (isTag s && isTag t) := by
  have h : (s ++ "/" ++ t).toList = s.toList ++ '/' :: t.toList := by simp
  rw [isTag, h, Text.splitList_append, List.all_append]
  rfl

theorem isSegment_of_isTag (h : isTag s) (hs : '/' ∉ s.toList) : Text.IsSegment s := by
  refine ⟨?_, hs⟩
  rintro rfl
  cases h

theorem not_mem_of_isTag (h : isTag s) : [] ∉ Text.splitList '/' s.toList := by
  intro hm
  cases List.all_eq_true.mp h [] hm

-- A tag neither begins nor ends with a slash.
theorem trimSlashes_of_isTag (h : isTag s) : Text.trimSlashes s = s := by
  have hn := not_mem_of_isTag h
  rw [Text.trimSlashes, Text.stripped_eq_self, String.ofList_toList]
  case hf =>
    intro c hc
    obtain ⟨cs, hcs⟩ := List.head?_eq_some_iff.mp hc
    rw [hcs, Text.splitList] at hn
    refine Bool.eq_false_iff.mpr fun hx => ?_
    rw [if_pos hx] at hn
    exact hn List.mem_cons_self
  case hl =>
    intro c hc
    obtain ⟨cs, hcs⟩ := List.getLast?_eq_some_iff.mp hc
    refine Bool.eq_false_iff.mpr fun hx => ?_
    rw [beq_iff_eq.mp hx] at hcs
    rw [hcs, Text.splitList_append] at hn
    exact hn (List.mem_append_right _ List.mem_cons_self)

end Language

end Ordo
