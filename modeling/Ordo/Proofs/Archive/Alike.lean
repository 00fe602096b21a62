import Ordo.Proofs.Archive.Library

namespace Ordo.Library

-- Whether two libraries say the same of all documents that `path` may stand for.
structure AlikeOn (l l' : Library) (path : String) : Prop where
  segments : l'.segments = l.segments
  has      : ∀ p ∈ l.candidates path, (l'.archive.has p).result = (l.archive.has p).result
  get      : ∀ p ∈ l.candidates path, (l'.archive.get p).result = (l.archive.get p).result

variable {a a' : Archive} {l l' : Library} {path found : String} {ps : List String}

theorem candidates_congr (h : l'.segments = l.segments) (path : String) :
    l'.candidates path = l.candidates path := by
  have hc : l'.candidate path = l.candidate path := funext fun depth => by simp only [candidate, h]
  simp only [candidates, h, hc]

theorem result_firstOf_congr (h : ∀ p ∈ ps, (a'.has p).result = (a.has p).result) :
    (firstOf a' ps).result = (firstOf a ps).result := by
  induction ps
  case nil => rfl
  case cons p ps hi =>
    have hi := hi fun p hp => h p (List.mem_cons_of_mem _ hp)
    simp only [firstOf, Logged.result_bind, h p List.mem_cons_self]
    refine bind_congr fun found => ?_
    cases found
    case true  => rfl
    case false => exact hi

theorem result_allOf_congr (h : ∀ p ∈ ps, (a'.has p).result = (a.has p).result) :
    (allOf a' ps).result = (allOf a ps).result := by
  induction ps
  case nil => rfl
  case cons p ps hi =>
    have hi := hi fun p hp => h p (List.mem_cons_of_mem _ hp)
    simp only [allOf, Logged.result_bind, h p List.mem_cons_self, hi]

theorem result_findBottomUp_congr (hs : l'.segments = l.segments)
    (h : ∀ p ∈ l.candidates path, (l'.archive.has p).result = (l.archive.has p).result) :
    (l'.findBottomUp path).result = (l.findBottomUp path).result := by
  have hf := result_firstOf_congr fun p hp => h p (List.mem_reverse.mp hp)
  simp only [findBottomUp, Logged.result_bind, candidates_congr hs, hf]

theorem result_findTopDown_congr (hs : l'.segments = l.segments)
    (h : ∀ p ∈ l.candidates path, (l'.archive.has p).result = (l.archive.has p).result) :
    (l'.findTopDown path).result = (l.findTopDown path).result := by
  simp only [findTopDown, candidates_congr hs, result_allOf_congr h]

theorem mem_of_findBottomUp (h : (l.findBottomUp path).result = .ok found) :
    found ∈ l.candidates path := by
  obtain ⟨r, hr, h⟩ := Logged.bind_eq_ok_iff.mp h
  cases r
  case none => cases h
  case some =>
    cases h
    exact List.mem_reverse.mp (mem_of_firstOf hr)

namespace AlikeOn

theorem result_read (h : l.AlikeOn l' path) (hf : found ∈ l.candidates path) :
    (l'.read found).result = (l.read found).result := by
  simp only [read, Logged.result_bind, h.get found hf]

theorem result_readBottomUp (h : l.AlikeOn l' path) :
    (l'.readBottomUp path).result = (l.readBottomUp path).result := by
  simp only [readBottomUp, Logged.result_bind, result_findBottomUp_congr h.segments h.has]
  exact bind_congr_of_ok fun found hf => h.result_read (mem_of_findBottomUp hf)

theorem result_readTopDown (h : l.AlikeOn l' path) :
    (l'.readTopDown path).result = (l.readTopDown path).result := by
  simp only [readTopDown, Logged.result_bind, Logged.result_mapM,
    result_findTopDown_congr h.segments h.has]
  exact bind_congr_of_ok fun found hf =>
    mapM_congr_of_mem fun p hp => h.result_read (mem_of_allOf hf hp)

end AlikeOn

theorem alikeOn_ofDocuments {ds ds' : Dictionary String} {segments : List String}
    (h : ∀ p ∈ (⟨.ofDocuments ds, segments⟩ : Library).candidates path, ds'.get? p = ds.get? p) :
    (⟨.ofDocuments ds, segments⟩ : Library).AlikeOn ⟨.ofDocuments ds', segments⟩ path where
  segments := rfl
  has p hp := (Archive.result_ofDocuments_congr (h p hp)).1
  get p hp := (Archive.result_ofDocuments_congr (h p hp)).2

end Ordo.Library
