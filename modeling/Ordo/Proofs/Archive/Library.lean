import Ordo.Archive.Bundle
import Ordo.Archive.Library
import Ordo.Proofs.Result

namespace Ordo

theorem Text.isDigit_of_mem_padded {width n : Nat} {c : Char}
    (h : c ∈ (padded width n).toList) : c.isDigit := by
  have hn : ¬(n : Int) < 0 := Int.not_lt.mpr (Int.natCast_nonneg n)
  simp only [padded, if_neg hn, String.toList_append, String.toList_ofList, List.mem_append,
    List.mem_replicate, Int.natAbs_natCast] at h
  rcases h with (h | ⟨_, rfl⟩) | h
  case inl.inl => cases h
  case inl.inr => rfl
  case inr =>
    rw [Nat.toString_eq_repr, Nat.toList_repr] at h
    exact Nat.isDigit_of_mem_toDigits (by decide) (by decide) h

namespace Library

-- A document that the archive has under one of the paths which `path` may stand for.
structure Contains (l : Library) (path : String) (d : SourceText) : Prop where
  candidate : d.path ∈ l.candidates path
  text      : (l.archive.get d.path).result = .ok d.text

variable {a : Archive} {l : Library} {path found : String} {d : SourceText}

theorem mem_of_firstOf {ps : List String} (h : (firstOf a ps).result = .ok (some found)) :
    found ∈ ps := by
  induction ps
  case nil => cases h
  case cons p ps hi =>
    obtain ⟨r, _, h⟩ := Logged.bind_eq_ok_iff.mp h
    cases r
    case true =>
      cases h
      exact List.mem_cons_self
    case false => exact List.mem_cons_of_mem _ (hi h)

theorem mem_of_allOf {ps qs : List String} (h : (allOf a ps).result = .ok qs) : qs ⊆ ps := by
  induction ps generalizing qs
  case nil =>
    cases h
    exact List.Subset.refl _
  case cons p ps hi =>
    obtain ⟨r, _, h⟩ := Logged.bind_eq_ok_iff.mp h
    obtain ⟨qs', hq, h⟩ := Logged.bind_eq_ok_iff.mp h
    cases r
    case true =>
      cases h
      exact List.cons_subset_cons _ (hi hq)
    case false =>
      cases h
      exact List.subset_cons_of_subset _ (hi hq)

theorem contains_of_read (hf : found ∈ l.candidates path)
    (h : (l.read found).result = .ok d) : l.Contains path d := by
  obtain ⟨text, ht, h⟩ := Logged.bind_eq_ok_iff.mp h
  cases h
  exact ⟨hf, ht⟩

theorem contains_of_readBottomUp (h : (l.readBottomUp path).result = .ok d) :
    l.Contains path d := by
  obtain ⟨found, hf, h⟩ := Logged.bind_eq_ok_iff.mp h
  obtain ⟨r, hr, hf⟩ := Logged.bind_eq_ok_iff.mp hf
  cases r
  case none => cases hf
  case some =>
    cases hf
    exact contains_of_read (List.mem_reverse.mp (mem_of_firstOf hr)) h

theorem contains_of_mem_readTopDown {ds : List SourceText}
    (h : (l.readTopDown path).result = .ok ds) (hd : d ∈ ds) : l.Contains path d := by
  obtain ⟨ps, hp, h⟩ := Logged.bind_eq_ok_iff.mp h
  rw [Logged.result_mapM] at h
  obtain ⟨p, hm, hr⟩ := exists_of_mem_mapM h hd
  exact contains_of_read (mem_of_allOf hp hm) hr

theorem entry_of_contains {ds : Dictionary String}
    (h : (⟨.ofDocuments ds, []⟩ : Library).Contains path d) : (path, d.text) ∈ ds.entries := by
  obtain rfl : d.path = path := List.mem_singleton.mp h.candidate
  exact Dictionary.mem_entries_iff.mpr (Archive.result_get_ofDocuments_eq_ok_iff.mp h.text)

-- The paths of the documents for the days of the two cycles.
inductive IsCyclePath : String → Prop
  | triodion (day : Int) : IsCyclePath (triodionPath day)
  | pentecostarion (day : Int) : IsCyclePath (pentecostarionPath day)
  | menaion (month day : Nat) : IsCyclePath (menaionPath month day)

-- The paths of the documents that are read with a rank.
inductive IsRankedPath : String → Prop
  | lives (cid : String) : IsRankedPath (livesPath cid)
  | fasting : IsRankedPath fastingPath
  | liturgy : IsRankedPath liturgyPath

-- The character behind `xml/`, which tells the kinds of paths apart.
def mark (path : String) : Option Char :=
  path.toList[4]?

def hasRankedMark (path : String) : Bool :=
  mark path = some 'l' || mark path = some 'C'

theorem mark_append {s : String} {c : Char} (h : mark s = some c) (t u : String) :
    mark (s ++ t ++ u) = some c := by
  obtain ⟨hs, _⟩ := List.getElem?_eq_some_iff.mp h
  rw [mark, String.toList_append, String.toList_append, List.append_assoc,
    List.getElem?_append_left hs]
  exact h

theorem mark_menaionPath (month day : Nat) :
    ∃ c, mark (menaionPath month day) = some c ∧ (c.isDigit ∨ c = '/') := by
  have hx : "xml/".toList = ['x', 'm', 'l', '/'] := rfl
  have hs : "/".toList = ['/'] := rfl
  simp only [mark, menaionPath, String.toList_append, hx, hs, List.cons_append, List.nil_append,
    List.append_assoc, List.getElem?_cons_succ]
  rcases hp : (Text.padded 2 month).toList with _ | ⟨c, cs⟩
  case nil  => exact ⟨'/', rfl, .inr rfl⟩
  case cons => exact ⟨c, rfl, .inl (Text.isDigit_of_mem_padded (hp ▸ List.mem_cons_self))⟩

theorem IsRankedPath.hasRankedMark (h : IsRankedPath path) : hasRankedMark path = true := by
  cases h
  case lives cid =>
    have hm : mark (livesPath cid) = some 'l' := mark_append (by decide +kernel) _ _
    rw [Library.hasRankedMark, hm]
    rfl
  case fasting => decide +kernel
  case liturgy => decide +kernel

theorem IsCyclePath.hasRankedMark (h : IsCyclePath path) : hasRankedMark path = false := by
  cases h
  case triodion day =>
    have hm : mark (triodionPath day) = some 't' := mark_append (by decide +kernel) _ _
    rw [Library.hasRankedMark, hm]
    rfl
  case pentecostarion day =>
    have hm : mark (pentecostarionPath day) = some 'p' := mark_append (by decide +kernel) _ _
    rw [Library.hasRankedMark, hm]
    rfl
  case menaion month day =>
    obtain ⟨c, hm, hc⟩ := mark_menaionPath month day
    have hl : c ≠ 'l' := by
      rintro rfl
      revert hc
      decide
    have hC : c ≠ 'C' := by
      rintro rfl
      revert hc
      decide
    simp [Library.hasRankedMark, hm, hl, hC]

end Library

end Ordo
