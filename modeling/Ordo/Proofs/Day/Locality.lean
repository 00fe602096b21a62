import Ordo.Proofs.Archive.Alike
import Ordo.Proofs.Day.Saints

namespace Ordo.Day

open Resolved (ofArchive)

-- The commemorations of a date with their biographies.
def appointed (l : Library) (date : Date) : Except ResolveError (List Commemoration) := do
  let f := DayFacts.ofDate date
  let (_, movable) ← (readMovable l f).result
  let fixed ← (readFixed l f).result
  (movable ++ fixed).mapM fun c => (readBiographies l f.bindings c).result

-- The paths that the day of a date asks its library about.
inductive Asks (l : Library) (date : Date) : String → Prop
  | cycle (cycle : Cycle) : Asks l date (cyclePath date cycle)
  | lives {cycle es e cid} :
    saints l date cycle = .ok es → e ∈ es → e.attributes.get? "CId" = some cid →
    Asks l date (Library.livesPath cid)
  | fasting : Asks l date Library.fastingPath
  | liturgy {cs} :
    appointed l date = .ok cs → Ordo.hasLiturgy cs → Asks l date Library.liturgyPath

variable {l l' : Library} {date : Date} {cycle : Cycle} {b : Bindings} {c : Commemoration}
  {cs : List Commemoration}

theorem InCycle.asks (h : InCycle l date cycle cs) (hc : c ∈ cs) :
    Asks l date (Library.livesPath c.cid) := by
  obtain ⟨es, hes, h⟩ := h.exists_saints
  obtain ⟨e, he, hs⟩ := exists_of_mem_mapM h hc
  have hh := Document.heading_of_saintOf hs
  exact .lives hes he (congrArg Document.Heading.cid hh).symm

-- What is read of an archive and then only worked on depends on the answer of the archive alone.
theorem result_bind_ofArchive_congr {α β : Type} {x y : Logged ArchiveError α} {k : α → Resolved β}
    (h : x.result = y.result) : (ofArchive x >>= k).result = (ofArchive y >>= k).result := by
  simp only [Logged.result_bind, ofArchive, Logged.mapError, h]

section

variable {f : DayFacts} {b : Bindings}

theorem result_readMovable_congr (h : l.AlikeOn l' f.place.path) :
    (readMovable l' f).result = (readMovable l f).result := by
  refine result_bind_ofArchive_congr ?_
  rw [MovablePlace.read_eq, MovablePlace.read_eq]
  exact h.result_readBottomUp

theorem result_readFixed_congr (h : l.AlikeOn l' (Library.menaionPath f.date.month f.date.day)) :
    (readFixed l' f).result = (readFixed l f).result :=
  result_bind_ofArchive_congr h.result_readBottomUp

theorem result_readBiographies_congr (h : l.AlikeOn l' (Library.livesPath c.cid)) :
    (readBiographies l' b c).result = (readBiographies l b c).result :=
  result_bind_ofArchive_congr h.result_readTopDown

theorem result_readFasting_congr (h : l.AlikeOn l' Library.fastingPath) :
    (readFasting l' b).result = (readFasting l b).result :=
  result_bind_ofArchive_congr h.result_readTopDown

theorem result_readCommands_congr (h : l.AlikeOn l' Library.liturgyPath) :
    (readCommands l' b).result = (readCommands l b).result :=
  result_bind_ofArchive_congr h.result_readBottomUp

end

-- Libraries that answer alike about the paths that the first of them is asked about resolve the date
-- to the same day, or fail with the same error.
theorem resolve_eq_of_alikeOn (h : ∀ path, Asks l date path → l.AlikeOn l' path) :
    (resolve l' date).result = (resolve l date).result := by
  let f := DayFacts.ofDate date
  have hm : (readMovable l' f).result = (readMovable l f).result :=
    result_readMovable_congr (h _ (.cycle .movable))
  have hf : (readFixed l' f).result = (readFixed l f).result :=
    result_readFixed_congr (h _ (.cycle .fixed))
  rw [result_resolve, result_resolve, result_build, result_build]
  dsimp only
  rw [hm, hf]
  refine bind_congr_of_ok fun (source, movable) hmovable => ?_
  refine bind_congr_of_ok fun fixed hfixed => ?_
  dsimp only
  have hc : ∀ c ∈ movable ++ fixed,
      (readBiographies l' f.bindings c).result = (readBiographies l f.bindings c).result := by
    intro c hc
    refine result_readBiographies_congr (h _ ?_)
    rcases List.mem_append.mp hc with hc | hc
    case inl =>
      obtain ⟨hd, hm, _⟩ := readMovable_eq_ok_iff.mp hmovable
      exact InCycle.asks ⟨source, hd, hm⟩ hc
    case inr => exact (readFixed_eq_ok_iff.mp hfixed).asks hc
  rw [mapM_congr_of_mem hc]
  refine bind_congr_of_ok fun cs hcs => ?_
  rw [result_readFasting_congr (h _ .fasting)]
  refine bind_congr fun code => ?_
  split
  case isTrue hl =>
    have ha : appointed l date = .ok cs :=
      bind_eq_ok_iff.mpr ⟨_, hmovable, bind_eq_ok_iff.mpr ⟨_, hfixed, hcs⟩⟩
    rw [result_readCommands_congr (h _ (.liturgy ha hl))]
  case isFalse => rfl

-- The documents of Pascha. In the language `en` there is a biography for the fixed saint alone.
def paschalTexts : Dictionary String := .ofList [
  ("en/xml/lives/09.xml", "<LITURGY/>"),
  ("xml/04/15.xml", "<SAINT CId='9' Cmd='dow == 0'/><SAINT CId='5' Cmd='dow == 1'/>"),
  ("xml/Commands/DivineLiturgy.xml", "<DATA/>"),
  ("xml/pentecostarion/01.xml", "<SAINT CId='900'/>")
]

-- The same documents beside those of another day, of another language and of another saint.
def widerTexts : Dictionary String :=
  paschalTexts.overlay <| .ofList [
    ("cu/xml/04/15.xml", "<DAY/>"),
    ("en/xml/04/16.xml", "<"),
    ("xml/lives/05.xml", "<SERVICE Cmd='?'/>")
  ]

theorem resolve_eq_of_alikeOn_wider :
    let l : Library := ⟨.ofDocuments paschalTexts, ["en"]⟩
    let l' : Library := ⟨.ofDocuments widerTexts, ["en"]⟩
    (∀ path, Asks l ⟨2458602⟩ path → l.AlikeOn l' path) ∧
      (resolve l ⟨2458602⟩).result.toOption.isSome ∧
      (resolve l' ⟨2458602⟩).result = (resolve l ⟨2458602⟩).result := by
  intro l l'
  let paths := ["xml/pentecostarion/01.xml", "xml/04/15.xml", "xml/lives/900.xml",
    "xml/lives/09.xml", Library.fastingPath, Library.liturgyPath]
  have hp : ∀ path ∈ paths, ∀ p ∈ l.candidates path, widerTexts.get? p = paschalTexts.get? p := by
    decide +kernel
  have hc : ∀ cycle ∈ [Cycle.movable, .fixed], cyclePath ⟨2458602⟩ cycle ∈ paths ∧
      ∀ es ∈ (saints l ⟨2458602⟩ cycle).toOption, ∀ e ∈ es, ∀ cid ∈ e.attributes.get? "CId",
        Library.livesPath cid ∈ paths := by
    decide +kernel
  have hm (cycle : Cycle) : cycle ∈ [Cycle.movable, .fixed] := by cases cycle <;> simp
  have h : ∀ path, Asks l ⟨2458602⟩ path → l.AlikeOn l' path := by
    intro path ha
    refine Library.alikeOn_ofDocuments (hp path ?_)
    cases ha
    case cycle cycle => exact (hc cycle (hm cycle)).1
    case lives cycle es e cid hs he hi =>
      exact (hc cycle (hm cycle)).2 es (toOption_eq_some_iff.mpr hs) e he cid hi
    case fasting => simp [paths]
    case liturgy => simp [paths]
  exact ⟨h, by decide +kernel, resolve_eq_of_alikeOn h⟩

end Ordo.Day
