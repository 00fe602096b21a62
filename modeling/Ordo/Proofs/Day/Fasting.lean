import Ordo.Proofs.Archive.Reading
import Ordo.Proofs.Day.Layers
import Ordo.Proofs.Document.Checks

namespace Ordo.Day

open Document (Kind)
open Markup (Element Forest elements)

-- The codes of the rules that remain in a document.
def HasCodes (b : Bindings) (s : SourceText) (codes : List String) : Prop :=
  ∃ t u : Forest, Markup.read s.text = .ok t.events ∧ t.prune b = .ok u ∧
    List.Forall₂ (fun e code => Dictionary.get? e.attributes "Case" = some code)
      ((elements u.events).filter (·.tag = "RULE")) codes

variable {l : Library} {date : Date} {b : Bindings} {s : SourceText} {ds : List SourceText}
  {codes codes' layer : List String} {layers before behind : List (List String)} {d : Day}
  {code : Option String}

theorem hasCodes_of_fastingCodes (h : Document.fastingCodes s.text b = .ok codes) :
    HasCodes b s codes := by
  obtain ⟨es, hs, -, hd⟩ := (Kind.parse_eq_ok_iff (k := .fasting)).mp h
  obtain ⟨t, u, ht, hu, rfl⟩ := Kind.survivors_eq_ok_iff_forest.mp hs
  exact ⟨t, u, ht, hu, hd⟩

theorem HasCodes.unique (h : HasCodes b s codes) (h' : HasCodes b s codes') : codes = codes' := by
  obtain ⟨t, u, ht, hu, hc⟩ := h
  obtain ⟨t', u', ht', hu', hc'⟩ := h'
  have he : t.events = t'.events := Except.ok.inj (ht.symm.trans ht')
  have hp := (Markup.prune_of_prune_eq hu).symm.trans (he ▸ Markup.prune_of_prune_eq hu')
  rw [(Prod.mk.inj hp).1] at hc
  have hr : Relator.RightUnique fun (e : Element) code => e.attributes.get? "Case" = some code :=
    fun _ _ _ h h' => Option.some.inj (h.symm.trans h')
  exact hr.forall₂ hc hc'

theorem readFasting_eq_ok (h : (readFasting l b).result = .ok code) : ∃ ds layers,
    (l.readTopDown Library.fastingPath).result = .ok ds ∧
      List.Forall₂ (HasCodes b) ds layers ∧ code = layers.flatten.getLast? := by
  obtain ⟨ds, hds, h⟩ := Logged.bind_eq_ok_iff.mp h
  obtain ⟨layers, hl, h⟩ := Logged.bind_eq_ok_iff.mp h
  cases h
  rw [Logged.result_mapM] at hl
  refine ⟨ds, layers, ofArchive_eq_ok_iff.mp hds, (forall₂_of_mapM hl).imp fun s codes hc => ?_, rfl⟩
  exact hasCodes_of_fastingCodes (inDocument_eq_ok_iff.mp hc)

theorem flatten_eq_nil_iff_hasCodes (h : List.Forall₂ (HasCodes b) ds layers) :
    layers.flatten = [] ↔ ∀ s ∈ ds, HasCodes b s [] := by
  induction h
  case nil => exact iff_of_true rfl nofun
  case cons s codes _ _ hs _ hi =>
    rw [List.flatten_cons, List.append_eq_nil_iff, hi, List.forall_mem_cons]
    refine and_congr_left fun _ => ⟨fun hn => hn ▸ hs, fun hn => hs.unique hn⟩

theorem getLast?_flatten_of_behind (h : behind.flatten ≠ []) :
    (before ++ layer :: behind).flatten.getLast? = behind.flatten.getLast? := by
  rw [List.flatten_append, List.flatten_cons, ← List.append_assoc, List.getLast?_append,
    List.getLast?_eq_some_getLast h, Option.some_or]

-- The code of a day is that of the last rule that remains in any layer of the table, with the rank
-- that the day has by its commemorations in the end. A layer without a rule changes nothing, and
-- those behind a layer decide without it if there is a rule in any of them.
theorem fastingCode_of_resolve (h : (resolve l date).result = .ok d) :
    let b := (DayFacts.ofDate date).bindingsWithRank d.rank
    d.rank = dayRankOf d.commemorations ∧ ∃ ds layers,
      ds.map (·.path) = (l.candidates Library.fastingPath).filter l.archive.reports ∧
      (∀ s ∈ ds, (l.archive.get s.path).result = .ok s.text) ∧
      List.Forall₂ (HasCodes b) ds layers ∧
      d.fastingCode = layers.flatten.getLast? ∧
      (d.fastingCode = none ↔ ∀ s ∈ ds, HasCodes b s []) ∧
      ∀ before layer behind, layers = before ++ layer :: behind →
        (layer = [] → d.fastingCode = (before ++ behind).flatten.getLast?) ∧
        (behind.flatten ≠ [] → d.fastingCode = behind.flatten.getLast?) := by
  intro b
  obtain ⟨_, _, h⟩ := resolve_eq_ok_iff.mp h
  obtain ⟨ds, layers, hds, hl, hc⟩ := readFasting_eq_ok h.fastingCode
  obtain ⟨-, hp, ht⟩ := Library.readTopDown_eq_ok_iff.mp hds
  refine ⟨h.rank, ds, layers, hp, ht, hl, hc, ?none, fun before layer behind hb => ⟨?_, ?_⟩⟩
  case none => rw [hc, List.getLast?_eq_none_iff, flatten_eq_nil_iff_hasCodes hl]
  case refine_1 =>
    rintro rfl
    rw [hc, hb, List.flatten_append, List.flatten_cons, List.nil_append, ← List.flatten_append]
  case refine_2 =>
    intro hn
    rw [hc, hb, getLast?_flatten_of_behind hn]

-- The general layer has a rule for the rank that the biography declares, and one for the rank ahead
-- of it. No rule remains in the layer behind it, and there is none for the whole tag.
def fastingTexts : Dictionary String := .ofList [
  ("cu/xml/Commands/Fasting.xml", "<PERIOD Cmd='0'><RULE Case='w'/></PERIOD>"),
  ("xml/04/15.xml", "<SAINT CId='7' Tone='1'/>"),
  ("xml/Commands/Fasting.xml", "<RULE Cmd='dRank == 5' Case='x'/><RULE Cmd='dRank == 1' Case='y'/>"),
  ("xml/lives/07.xml", "<SERVICE Type='5'/>"),
  ("xml/pentecostarion/01.xml", "<SAINT CId='900'/>")
]

theorem fastingCode_of_resolve_layered :
    let l : Library := ⟨.ofDocuments fastingTexts, ["cu", "ru"]⟩
    let date : Date := ⟨2458602⟩
    ∃ d, (resolve l date).result = .ok d ∧ d.rank = 5 ∧ d.fastingCode = some "x" ∧ ∃ ds layers,
      ds.map (·.path) = ["xml/Commands/Fasting.xml", "cu/xml/Commands/Fasting.xml"] ∧
      List.Forall₂ (HasCodes ((DayFacts.ofDate date).bindingsWithRank 5)) ds layers ∧
      layers.flatten.getLast? = some "x" := by
  intro l date
  have hr : (resolve l date).result.toOption.any fun d => d.rank = 5 ∧ d.fastingCode = some "x" := by
    decide +kernel
  obtain ⟨d, hd, hx⟩ := (Option.any_eq_true ..).mp hr
  obtain ⟨hrank, hcode⟩ := of_decide_eq_true hx
  have hd := toOption_eq_some_iff.mp hd
  obtain ⟨-, ds, layers, hp, -, hl, hc, -⟩ := fastingCode_of_resolve hd
  have hf : (l.candidates Library.fastingPath).filter l.archive.reports =
      ["xml/Commands/Fasting.xml", "cu/xml/Commands/Fasting.xml"] := by
    decide +kernel
  exact ⟨d, hd, hrank, hcode, ds, layers, hp.trans hf, hrank ▸ hl, hc.symm.trans hcode⟩

end Ordo.Day
