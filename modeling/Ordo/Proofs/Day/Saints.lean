import Ordo.Proofs.Archive.Library
import Ordo.Proofs.Day.Resolve
import Ordo.Proofs.Document.Flat

namespace Ordo

open Markup (Element)
open Resolved (ofArchive inDocument)

theorem ofArchive_eq_ok_iff {α : Type} {x : Logged ArchiveError α} {a : α} :
    (ofArchive x).result = .ok a ↔ x.result = .ok a :=
  mapError_eq_ok_iff

theorem inDocument_eq_ok_iff {α : Type} {d : SourceText} {r : Except Document.Error α} {a : α} :
    (inDocument d r).result = .ok a ↔ r = .ok a :=
  mapError_eq_ok_iff

def MovablePlace.path : MovablePlace → String
  | triodion day       => Library.triodionPath day
  | pentecostarion day => Library.pentecostarionPath day

theorem MovablePlace.read_eq (l : Library) (p : MovablePlace) : p.read l = l.readBottomUp p.path := by
  cases p <;> rfl

namespace Day

-- The path of the document that a date has in a cycle.
def cyclePath (date : Date) : Cycle → String
  | .movable => (DayFacts.ofDate date).place.path
  | .fixed   => Library.menaionPath date.month date.day

-- The saints that remain in the document that a date has in a cycle.
def saints (l : Library) (date : Date) (cycle : Cycle) : Except ResolveError (List Element) := do
  let d ← (ofArchive (l.readBottomUp (cyclePath date cycle))).result
  let es ← (inDocument d (Document.survivors d.text (DayFacts.ofDate date).bindings)).result
  return Document.saints es

-- The commemorations of a date as they stand in the document of a cycle, without biographies.
def InCycle (l : Library) (date : Date) (cycle : Cycle) (cs : List Commemoration) : Prop :=
  ∃ d, (l.readBottomUp (cyclePath date cycle)).result = .ok d ∧
    Document.commemorations cycle d.text (DayFacts.ofDate date).bindings = .ok cs

-- A day that is built from the commemorations of its two cycles.
structure Built (l : Library) (date : Date) (movable fixed : List Commemoration) (d : Day) :
    Prop where
  inMovable   : InCycle l date .movable movable
  notEmpty    : movable ≠ []
  inFixed     : InCycle l date .fixed fixed
  biographies : (movable ++ fixed).mapM
    (fun c => (readBiographies l (DayFacts.ofDate date).bindings c).result) = .ok d.commemorations
  tone        : d.tone = toneOf movable
  rank        : d.rank = dayRankOf d.commemorations
  fastingCode : (readFasting l ((DayFacts.ofDate date).bindingsWithRank d.rank)).result =
    .ok d.fastingCode
  commands    : if Ordo.hasLiturgy d.commemorations
    then (readCommands l ((DayFacts.ofDate date).bindingsWithRank d.rank)).result = .ok d.commands
    else d.commands = []
  date        : d.date = date

variable {l : Library} {date : Date} {cycle : Cycle} {movable fixed cs : List Commemoration}
  {d : Day}

section

variable (h : Built l date movable fixed d)

include h

theorem Built.readCommands (hl : Ordo.hasLiturgy d.commemorations) :
    (readCommands l ((DayFacts.ofDate date).bindingsWithRank d.rank)).result = .ok d.commands := by
  have hc := h.commands
  rwa [if_pos hl] at hc

theorem Built.commands_eq_nil (hl : ¬Ordo.hasLiturgy d.commemorations) : d.commands = [] := by
  have hc := h.commands
  rwa [if_neg hl] at hc

end

theorem readMovable_eq_ok_iff {source : SourceText} :
    (readMovable l (DayFacts.ofDate date)).result = .ok (source, cs) ↔
      (l.readBottomUp (cyclePath date .movable)).result = .ok source ∧
        Document.commemorations .movable source.text (DayFacts.ofDate date).bindings = .ok cs ∧
        cs ≠ [] := by
  simp only [readMovable, Logged.bind_eq_ok_iff, ofArchive_eq_ok_iff, inDocument_eq_ok_iff,
    MovablePlace.read_eq]
  constructor
  case mp =>
    rintro ⟨d, hd, cs', hcs, h⟩
    split at h
    case isTrue  => cases h
    case isFalse hn =>
      cases h
      exact ⟨hd, hcs, by simpa using hn⟩
  case mpr =>
    rintro ⟨hd, hcs, hn⟩
    exact ⟨source, hd, cs, hcs, by rw [if_neg (by simpa using hn)]; rfl⟩

theorem readFixed_eq_ok_iff :
    (readFixed l (DayFacts.ofDate date)).result = .ok cs ↔ InCycle l date .fixed cs := by
  simp only [readFixed, Logged.bind_eq_ok_iff, ofArchive_eq_ok_iff, inDocument_eq_ok_iff]
  rfl

-- A date is resolved to the day that is built from its documents.
theorem resolve_eq_ok_iff :
    (resolve l date).result = .ok d ↔ ∃ movable fixed, Built l date movable fixed d := by
  rw [result_resolve, result_build]
  constructor
  case mp =>
    intro h
    obtain ⟨⟨source, movable⟩, hm, h⟩ := bind_eq_ok_iff.mp h
    obtain ⟨fixed, hf, h⟩ := bind_eq_ok_iff.mp h
    obtain ⟨cs, hcs, h⟩ := bind_eq_ok_iff.mp h
    obtain ⟨code, hc, h⟩ := bind_eq_ok_iff.mp h
    obtain ⟨hd, hm, hn⟩ := readMovable_eq_ok_iff.mp hm
    refine ⟨movable, fixed, ?_⟩
    split at h
    case isTrue hl =>
      obtain ⟨commands, hx, h⟩ := bind_eq_ok_iff.mp h
      cases h
      exact ⟨⟨source, hd, hm⟩, hn, readFixed_eq_ok_iff.mp hf, hcs, rfl, rfl, hc,
        by rwa [if_pos hl], rfl⟩
    case isFalse hl =>
      cases h
      exact ⟨⟨source, hd, hm⟩, hn, readFixed_eq_ok_iff.mp hf, hcs, rfl, rfl, hc,
        by rw [if_neg hl], rfl⟩
  case mpr =>
    rintro ⟨movable, fixed, h⟩
    obtain ⟨source, hd, hm⟩ := h.inMovable
    obtain ⟨date', tone, rank, code, cs, commands⟩ := d
    obtain rfl : date' = date := h.date
    obtain rfl : tone = toneOf movable := h.tone
    obtain rfl : rank = dayRankOf cs := h.rank
    refine bind_eq_ok_iff.mpr ⟨(source, movable), ?_, ?_⟩
    · exact readMovable_eq_ok_iff.mpr ⟨hd, hm, h.notEmpty⟩
    refine bind_eq_ok_iff.mpr ⟨fixed, readFixed_eq_ok_iff.mpr h.inFixed, ?_⟩
    refine bind_eq_ok_iff.mpr ⟨cs, h.biographies, ?_⟩
    refine bind_eq_ok_iff.mpr ⟨code, h.fastingCode, ?_⟩
    split
    case isTrue hl => exact bind_eq_ok_iff.mpr ⟨commands, h.readCommands hl, rfl⟩
    case isFalse hl =>
      obtain rfl : commands = [] := h.commands_eq_nil hl
      rfl

theorem saints_eq_ok {source : SourceText} {es : List Element}
    (hd : (l.readBottomUp (cyclePath date cycle)).result = .ok source)
    (hs : Document.survivors source.text (DayFacts.ofDate date).bindings = .ok es) :
    saints l date cycle = .ok (Document.saints es) :=
  bind_eq_ok_iff.mpr ⟨source, ofArchive_eq_ok_iff.mpr hd,
    bind_eq_ok_iff.mpr ⟨es, inDocument_eq_ok_iff.mpr hs, rfl⟩⟩

-- The commemorations in a cycle are those of its saints.
theorem InCycle.exists_saints (h : InCycle l date cycle cs) :
    ∃ es, saints l date cycle = .ok es ∧
      es.mapM (Document.saintOf cycle (DayFacts.ofDate date).bindings) = .ok cs := by
  obtain ⟨source, hd, h⟩ := h
  obtain ⟨es, hes, -, hs⟩ := Document.commemorations_eq_ok_iff.mp h
  exact ⟨_, saints_eq_ok hd hes, hs⟩

end Day

end Ordo
