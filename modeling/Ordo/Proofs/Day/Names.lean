import Ordo.Proofs.Day.Saints
import Ordo.Proofs.Day.Transfer
import Ordo.Proofs.Document.Names

namespace Ordo

open Resolved (ofArchive inDocument ofFormula)

def ResolveError.IsFormula : ResolveError → Prop
  | formula _ _ => True
  | _           => False

section

variable {α : Type}

theorem avoids_ofArchive (x : Logged ArchiveError α) :
    Avoids ResolveError.IsFormula (ofArchive x).result := by
  rcases x with ⟨_ | a, _⟩
  case error => exact avoids_error id
  case ok    => exact avoids_ok a

theorem avoids_inDocument {d : SourceText} {r : Except Document.Error α}
    (h : Avoids Document.Error.IsFormula r) :
    Avoids ResolveError.IsFormula (inDocument d r).result := by
  refine avoids_mapError (fun e he => ?_) h
  cases e
  case formula => exact trivial
  all_goals exact he

theorem avoids_ofFormula {r : Except Formula.Error α} (h : ∃ a, r = .ok a) :
    Avoids ResolveError.IsFormula (ofFormula r).result := by
  obtain ⟨a, rfl⟩ := h
  exact avoids_ok a

end

namespace DayFacts

def names : List String := ["dow", "doy", "nday", "ndayP", "ndayF", "Year", "GS"]

-- The names that have values once a rank is known.
def rankedNames : List String := Bindings.rankName :: names

theorem binds_bindings (f : DayFacts) : f.bindings.Binds names := by
  intro n hn
  rw [← Option.isSome_iff_exists]
  simp only [names, List.mem_cons, List.not_mem_nil, or_false] at hn
  simp only [bindings, Dictionary.ofList, List.foldl, Dictionary.get?_insert]
  rcases hn with rfl | rfl | rfl | rfl | rfl | rfl | rfl
  all_goals simp

theorem binds_bindingsWithRank (f : DayFacts) (rank : Int) :
    (f.bindingsWithRank rank).Binds rankedNames :=
  f.binds_bindings.withRank _

end DayFacts

namespace Library

-- Whether the documents of a library mention the facts of a day only, and those that are read with
-- a rank also the rank.
structure MentionsOnlyFacts (l : Library) : Prop where
  cycle : ∀ path d, IsCyclePath path → l.Contains path d →
    Document.MentionsOnly DayFacts.names d.text
  ranked : ∀ path d, IsRankedPath path → l.Contains path d →
    Document.MentionsOnly DayFacts.rankedNames d.text

-- A library with general documents only can be checked.
theorem mentionsOnlyFacts_of_entries {ds : Dictionary String}
    (h : ∀ e ∈ ds.entries, Document.MentionsOnly
      (if hasRankedMark e.1 then DayFacts.rankedNames else DayFacts.names) e.2) :
    (⟨.ofDocuments ds, []⟩ : Library).MentionsOnlyFacts where
  cycle path d hp hc := by
    have h := h _ (entry_of_contains hc)
    rwa [hp.hasRankedMark] at h
  ranked path d hp hc := by
    have h := h _ (entry_of_contains hc)
    rwa [hp.hasRankedMark] at h

end Library

namespace Day

variable {l : Library} {f : DayFacts} {b : Bindings} {date : Date} {d : Day}

theorem contains_of_readPlace {p : MovablePlace} {d : SourceText}
    (h : (p.read l).result = .ok d) : ∃ path, Library.IsCyclePath path ∧ l.Contains path d := by
  cases p
  case triodion day       => exact ⟨_, .triodion day, Library.contains_of_readBottomUp h⟩
  case pentecostarion day => exact ⟨_, .pentecostarion day, Library.contains_of_readBottomUp h⟩

theorem avoids_readMovable (h : l.MentionsOnlyFacts) :
    Avoids ResolveError.IsFormula (readMovable l f).result := by
  refine Logged.avoids_bind (avoids_ofArchive _) fun d hd => ?_
  obtain ⟨path, hp, hc⟩ := contains_of_readPlace (ofArchive_eq_ok_iff.mp hd)
  have hm := (h.cycle path d hp hc).avoids_commemorations f.binds_bindings .movable
  refine Logged.avoids_bind (avoids_inDocument hm) fun cs _ => ?_
  split
  case isTrue  => exact avoids_error id
  case isFalse => exact avoids_ok _

theorem avoids_readFixed (h : l.MentionsOnlyFacts) :
    Avoids ResolveError.IsFormula (readFixed l f).result := by
  refine Logged.avoids_bind (avoids_ofArchive _) fun d hd => ?_
  have hc := Library.contains_of_readBottomUp (ofArchive_eq_ok_iff.mp hd)
  exact avoids_inDocument ((h.cycle _ d (.menaion ..) hc).avoids_commemorations f.binds_bindings _)

theorem avoids_addBiographies {c : Commemoration} {ds : List SourceText}
    (h : ∀ d ∈ ds, Document.MentionsOnly DayFacts.rankedNames d.text)
    (hb : b.Binds DayFacts.names) :
    Avoids ResolveError.IsFormula (addBiographies b c ds).result := by
  induction ds generalizing c
  case nil => exact avoids_ok _
  case cons d ds hi =>
    refine Logged.avoids_bind ?_ fun r _ => ?_
    · exact avoids_inDocument ((h d List.mem_cons_self).avoids_biography (hb.withRank _))
    exact hi fun d hd => h d (List.mem_cons_of_mem _ hd)

theorem avoids_readBiographies (h : l.MentionsOnlyFacts) (c : Commemoration)
    (hb : b.Binds DayFacts.names) :
    Avoids ResolveError.IsFormula (readBiographies l b c).result := by
  refine Logged.avoids_bind (avoids_ofArchive _) fun ds hds => ?_
  refine avoids_addBiographies (fun d hd => ?_) hb
  have hc := Library.contains_of_mem_readTopDown (ofArchive_eq_ok_iff.mp hds) hd
  exact h.ranked _ d (.lives c.cid) hc

theorem avoids_readFasting (h : l.MentionsOnlyFacts) (hb : b.Binds DayFacts.rankedNames) :
    Avoids ResolveError.IsFormula (readFasting l b).result := by
  refine Logged.avoids_bind (avoids_ofArchive _) fun ds hds => ?_
  refine Logged.avoids_bind ?_ fun codes _ => avoids_ok _
  rw [Logged.result_mapM]
  refine avoids_mapM fun d hd => avoids_inDocument ?_
  have hc := Library.contains_of_mem_readTopDown (ofArchive_eq_ok_iff.mp hds) hd
  exact (h.ranked _ d .fasting hc).avoids_fastingCodes hb

theorem avoids_readCommands (h : l.MentionsOnlyFacts) (hb : b.Binds DayFacts.rankedNames) :
    Avoids ResolveError.IsFormula (readCommands l b).result := by
  refine Logged.avoids_bind (avoids_ofArchive _) fun d hd => ?_
  have hc := Library.contains_of_readBottomUp (ofArchive_eq_ok_iff.mp hd)
  exact avoids_inDocument ((h.ranked _ d .liturgy hc).avoids_commands hb)

theorem mentionsOnly_of_readCommands (h : l.MentionsOnlyFacts)
    (hb : b.Binds DayFacts.rankedNames) {cs : List Command}
    (hcs : (readCommands l b).result = .ok cs) :
    ∀ c ∈ cs, Formula.MentionsOnly DayFacts.rankedNames c.value := by
  intro c hm
  obtain ⟨d, hd, hcs⟩ := Logged.bind_eq_ok_iff.mp hcs
  have hc := Library.contains_of_readBottomUp (ofArchive_eq_ok_iff.mp hd)
  exact (h.ranked _ d .liturgy hc).value_of_mem_commands hb (inDocument_eq_ok_iff.mp hcs) hm

theorem avoids_resolve (h : l.MentionsOnlyFacts) (date : Date) :
    Avoids ResolveError.IsFormula (resolve l date).result := by
  rw [result_resolve, result_build]
  refine avoids_bind (avoids_readMovable h) fun _ _ => ?_
  refine avoids_bind (avoids_readFixed h) fun _ _ => ?_
  refine avoids_bind (avoids_mapM fun c _ => ?_) fun cs _ => ?_
  · exact avoids_readBiographies h c (DayFacts.binds_bindings _)
  have hb := (DayFacts.ofDate date).binds_bindingsWithRank (dayRankOf cs)
  refine avoids_bind (avoids_readFasting h hb) fun _ _ => ?_
  split
  case isTrue  => exact avoids_bind (avoids_readCommands h hb) fun _ _ => avoids_ok _
  case isFalse => exact avoids_ok _

-- The commands of a day that is resolved are those of a document.
theorem mentionsOnly_of_resolve (h : l.MentionsOnlyFacts) (hd : (resolve l date).result = .ok d) :
    ∀ c ∈ d.commands, Formula.MentionsOnly DayFacts.rankedNames c.value := by
  obtain ⟨_, _, hd⟩ := resolve_eq_ok_iff.mp hd
  by_cases hl : Ordo.hasLiturgy d.commemorations
  case pos =>
    exact mentionsOnly_of_readCommands h (DayFacts.binds_bindingsWithRank _ _) (hd.readCommands hl)
  case neg =>
    rw [hd.commands_eq_nil hl]
    nofun

section

variable {cs : List Command}

theorem avoids_lend (hl : l.MentionsOnlyFacts)
    (h : ∀ c ∈ cs, Formula.MentionsOnly DayFacts.rankedNames c.value) (date : Date) :
    Avoids ResolveError.IsFormula (lend l cs date).result := by
  refine Logged.avoids_bind (avoids_resolve hl date) fun d _ => ?_
  have hb := (DayFacts.ofDate date).binds_bindingsWithRank d.rank
  have hc := exists_anyHolds_eq (fun c hc => (h c hc).exists_evaluate_eq hb) "Class3Transfers"
  refine Logged.avoids_bind (avoids_ofFormula hc) fun r _ => ?_
  split
  all_goals exact avoids_ok _

namespace Transfer

-- What the transfer asks for has an answer: the commands have values, here and on the neighbouring
-- days.
structure Answered (t : Transfer) : Prop where
  library  : t.library.MentionsOnlyFacts
  commands : ∀ c ∈ t.commands, Formula.MentionsOnly DayFacts.rankedNames c.value
  bindings : t.bindings.Binds DayFacts.rankedNames

variable {t : Transfer}

theorem Answered.evaluates (h : t.Answered) : ∀ c ∈ t.commands, c.Evaluates t.bindings :=
  fun c hc => (h.commands c hc).exists_evaluate_eq h.bindings

theorem Answered.avoids_follow (h : t.Answered) (rule : String) (date : Date)
    (kept : Option (List Reading)) (keep : List Reading → Borrowed) (w : Borrowed) :
    Avoids ResolveError.IsFormula (t.follow rule date kept keep w).result := by
  refine Logged.avoids_bind (avoids_ofFormula (exists_anyHolds_eq h.evaluates rule)) fun r _ => ?_
  split
  case isFalse => exact avoids_ok _
  case isTrue =>
    refine Logged.avoids_bind ?_ fun _ _ => avoids_ok _
    cases kept
    case none    => exact avoids_lend h.library h.commands date
    case some rs => exact avoids_ok rs

theorem Answered.avoids_service (h : t.Answered) (cid : String) (s : Service) (w : Borrowed) :
    Avoids ResolveError.IsFormula (t.service cid s w).result := by
  have hd := avoids_ofFormula (exists_transferDisabled_eq h.evaluates)
  refine Logged.avoids_bind hd fun disabled _ => ?_
  split
  case isTrue => exact avoids_ok _
  case isFalse =>
  have hs := avoids_ofFormula (exists_readingsSuppressed_eq h.evaluates)
  refine Logged.avoids_bind hs fun suppressed _ => ?_
  split
  case isTrue => exact avoids_ok _
  case isFalse =>
    refine Logged.avoids_bind ?_ fun _ _ => avoids_ok _
    rw [extra_eq]
    refine Logged.avoids_bind (h.avoids_follow _ _ _ _ _) fun _ _ => ?_
    exact Logged.avoids_bind (h.avoids_follow _ _ _ _ _) fun _ _ => avoids_ok _

theorem avoids_thread {α : Type} {g : α → Borrowed → Resolved (α × Borrowed)}
    (hg : ∀ a w, Avoids ResolveError.IsFormula (g a w).result) (as : List α) (w : Borrowed) :
    Avoids ResolveError.IsFormula (thread g as w).result := by
  induction as generalizing w
  case nil => exact avoids_ok _
  case cons a as hi =>
    refine Logged.avoids_bind (hg a w) fun p _ => ?_
    exact Logged.avoids_bind (hi p.2) fun _ _ => avoids_ok _

theorem Answered.avoids_commemoration (h : t.Answered) (c : Commemoration) (w : Borrowed) :
    Avoids ResolveError.IsFormula (t.commemoration c w).result := by
  unfold commemoration
  split
  case h_2 => exact avoids_ok _
  case h_1 ss _ _ =>
    refine Logged.avoids_bind ?_ fun _ _ => avoids_ok _
    rw [services_eq_thread]
    refine avoids_thread (fun s w => ?_) ss w
    split
    case isTrue  => exact h.avoids_service c.cid s w
    case isFalse => exact avoids_ok _

end Transfer

theorem avoids_applyTransfer (hl : l.MentionsOnlyFacts)
    (h : ∀ c ∈ d.commands, Formula.MentionsOnly DayFacts.rankedNames c.value) (rank : Int) :
    Avoids ResolveError.IsFormula (applyTransfer l d rank).result := by
  have ha : (Transfer.ofDay l d rank).Answered := ⟨hl, h, DayFacts.binds_bindingsWithRank _ _⟩
  refine Logged.avoids_bind ?_ fun _ _ => avoids_ok _
  rw [Transfer.commemorations_eq_thread]
  exact Transfer.avoids_thread ha.avoids_commemoration _ _

end

-- No formula fails in the resolution of a day, with or without its transfers.
theorem resolve_ne_formula (h : l.MentionsOnlyFacts) (date : Date) (rank : Option Int)
    (path : Option String) (f : Formula.Error) :
    (resolve l date).result ≠ .error (.formula path f) ∧
      (resolveWithTransfers l date rank).result ≠ .error (.formula path f) := by
  have hr := avoids_resolve h date
  have ht : Avoids ResolveError.IsFormula (resolveWithTransfers l date rank).result :=
    Logged.avoids_bind hr fun d hd => avoids_applyTransfer h (mentionsOnly_of_resolve h hd) _
  exact ⟨fun he => hr _ he trivial, fun he => ht _ he trivial⟩

def paschalDocuments : Dictionary String := .ofList [
  ("xml/pentecostarion/01.xml", "<SAINT CId='900' Tone='nday + 1'/>"),
  ("xml/04/15.xml", "<SAINT CId='9' Cmd='dow == 0'/>"),
  ("xml/lives/09.xml", "<SERVICE Type='7' Cmd='!dRank'/>"),
  ("xml/Commands/Fasting.xml", "<RULE Case='8' Cmd='dRank > 5'/>")
]

-- The life gives its day the rank 7, and that rank the day its fasting rule.
theorem resolve_ne_formula_paschal :
    let l : Library := ⟨.ofDocuments paschalDocuments, []⟩
    let f := .unbound "x" "x"
    l.MentionsOnlyFacts ∧ (resolve l ⟨2458602⟩).result.toOption.bind (·.fastingCode) = some "8" ∧
      (resolve l ⟨2458602⟩).result ≠ .error (.formula none f) ∧
      (resolveWithTransfers l ⟨2458602⟩ none).result ≠ .error (.formula none f) := by
  have h : Library.MentionsOnlyFacts ⟨.ofDocuments paschalDocuments, []⟩ :=
    Library.mentionsOnlyFacts_of_entries (by decide +kernel)
  exact ⟨h, by decide +kernel, resolve_ne_formula h _ _ _ _⟩

end Day

end Ordo
