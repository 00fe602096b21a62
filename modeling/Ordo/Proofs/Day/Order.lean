import Mathlib.Data.List.Forall2
import Ordo.Proofs.Archive.Alike
import Ordo.Proofs.Commemoration
import Ordo.Proofs.Day.Saints
import Ordo.Proofs.Document.Order

namespace Ordo

open Markup (Element)

section

variable {ε α α' β β' : Type}

-- A computation that only goes on from what related elements have in common.
theorem mapM_eq_ok_of_forall₂ {R : α → α' → Prop} {f : α → Except ε β}
    {f' : α' → Except ε β} (hf : ∀ a a' b, R a a' → f a = .ok b → f' a' = .ok b) {as : List α}
    {as' : List α'} (h : List.Forall₂ R as as') {bs : List β} (hb : as.mapM f = .ok bs) :
    as'.mapM f' = .ok bs := by
  induction h generalizing bs
  case nil => exact hb
  case cons a a' as as' ha _ hi =>
    obtain ⟨b, bs', hab, has, rfl⟩ := mapM_cons_eq_ok_iff.mp hb
    exact mapM_cons_eq_ok_iff.mpr ⟨b, bs', hf a a' b ha hab, hi has, rfl⟩

theorem exists_forall₂_of_mapM {R : β → β' → Prop} {f : α → Except ε β}
    {f' : α → Except ε β'} (hf : ∀ a b, f a = .ok b → ∃ b', f' a = .ok b' ∧ R b b') {as : List α}
    {bs : List β} (h : as.mapM f = .ok bs) :
    ∃ bs', as.mapM f' = .ok bs' ∧ List.Forall₂ R bs bs' := by
  induction as generalizing bs
  case nil =>
    cases h
    exact ⟨[], rfl, .nil⟩
  case cons a as hi =>
    obtain ⟨b, bs₀, ha, has, rfl⟩ := mapM_cons_eq_ok_iff.mp h
    obtain ⟨b', ha', hr⟩ := hf a b ha
    obtain ⟨bs', has', hrs⟩ := hi has
    exact ⟨b' :: bs', mapM_cons_eq_ok_iff.mpr ⟨b', bs', ha', has', rfl⟩, .cons hr hrs⟩

end

-- Whether `l'` has the documents of `l`, with at most those of cycles in another order.
structure Library.AlikeButOrder (l l' : Library) (b : Bindings) : Prop where
  segments : l'.segments = l.segments
  has      : ∀ path, (l'.archive.has path).result = (l.archive.has path).result
  get      : ∀ path text, (l.archive.get path).result = .ok text →
    ∃ text', (l'.archive.get path).result = .ok text' ∧ Document.AlikeButOrder b text text'

namespace Library.AlikeButOrder

variable {l l' : Library} {b : Bindings} {path : String} {d : SourceText} {ds : List SourceText}

theorem read (h : l.AlikeButOrder l' b) (hd : (l.read path).result = .ok d) :
    ∃ d', (l'.read path).result = .ok d' ∧ Document.AlikeButOrder b d.text d'.text := by
  obtain ⟨text, ht, hd⟩ := Logged.bind_eq_ok_iff.mp hd
  cases hd
  obtain ⟨text', ht', ha⟩ := h.get path text ht
  exact ⟨⟨path, text'⟩, Logged.bind_eq_ok_iff.mpr ⟨text', ht', rfl⟩, ha⟩

theorem readBottomUp (h : l.AlikeButOrder l' b) (hd : (l.readBottomUp path).result = .ok d) :
    ∃ d', (l'.readBottomUp path).result = .ok d' ∧ Document.AlikeButOrder b d.text d'.text := by
  obtain ⟨found, hf, hd⟩ := Logged.bind_eq_ok_iff.mp hd
  obtain ⟨d', hd', ha⟩ := h.read hd
  rw [← result_findBottomUp_congr h.segments fun p _ => h.has p] at hf
  exact ⟨d', Logged.bind_eq_ok_iff.mpr ⟨found, hf, hd'⟩, ha⟩

theorem readTopDown (h : l.AlikeButOrder l' b) (hd : (l.readTopDown path).result = .ok ds) :
    ∃ ds', (l'.readTopDown path).result = .ok ds' ∧
      List.Forall₂ (fun d d' => Document.AlikeButOrder b d.text d'.text) ds ds' := by
  obtain ⟨found, hf, hd⟩ := Logged.bind_eq_ok_iff.mp hd
  rw [Logged.result_mapM] at hd
  obtain ⟨ds', hd', ha⟩ := exists_forall₂_of_mapM (fun _ _ => h.read) hd
  rw [← result_findTopDown_congr h.segments fun p _ => h.has p] at hf
  rw [← Logged.result_mapM] at hd'
  exact ⟨ds', Logged.bind_eq_ok_iff.mpr ⟨found, hf, hd'⟩, ha⟩

end Library.AlikeButOrder

namespace Day

open Resolved (ofArchive inDocument)

-- Whether `l'` has the documents of `l`, but what remains of those that `date` has in its cycles may
-- stand in another order.
structure Rearranged (l l' : Library) (date : Date) : Prop where
  segments : l'.segments = l.segments
  has      : ∀ path, (l'.archive.has path).result = (l.archive.has path).result
  get      : ∀ path, (l'.archive.get path).result = (l.archive.get path).result ∨
    ∃ cycle text text', (l.readBottomUp (cyclePath date cycle)).result = .ok ⟨path, text⟩ ∧
      (l'.archive.get path).result = .ok text' ∧
      Document.Reordered (DayFacts.ofDate date).bindings text text'

-- Whether the days are the same but for the order of the saints within each of the two cycles. A
-- saint has the same commemoration in both, with its biography.
structure SameButOrder (l l' : Library) (d d' : Day) : Prop where
  date           : d'.date = d.date
  tone           : d'.tone = d.tone
  rank           : d'.rank = d.rank
  fastingCode    : d'.fastingCode = d.fastingCode
  commands       : d'.commands = d.commands
  commemorations : ∃ (record : Cycle → Element → Commemoration) (movable movable' : List Element)
    (fixed fixed' : List Element),
    saints l d.date .movable = .ok movable ∧ saints l' d.date .movable = .ok movable' ∧
    saints l d.date .fixed = .ok fixed ∧ saints l' d.date .fixed = .ok fixed' ∧
    movable.Perm movable' ∧ fixed.Perm fixed' ∧
    d.commemorations = movable.map (record .movable) ++ fixed.map (record .fixed) ∧
    d'.commemorations = movable'.map (record .movable) ++ fixed'.map (record .fixed)

variable {l l' : Library} {date : Date} {cycle : Cycle} {b b' : Bindings} {c c' : Commemoration}
  {cs movable fixed : List Commemoration} {d : Day}

theorem InCycle.tags (h : InCycle l date cycle cs) {source : SourceText} {es : List Element}
    (hd : (l.readBottomUp (cyclePath date cycle)).result = .ok source)
    (hs : Document.survivors source.text (DayFacts.ofDate date).bindings = .ok es) :
    ∀ e ∈ es, e.tag ∈ Document.cycleTags := by
  obtain ⟨source', hd', h⟩ := h
  obtain ⟨es', hs', ht, -⟩ := Document.commemorations_eq_ok_iff.mp h
  cases hd.symm.trans hd'
  cases hs.symm.trans hs'
  exact ht

-- If both cycles can be read, then the documents that are rearranged are documents of cycles.
theorem Rearranged.alikeButOrder (h : Rearranged l l' date) (hm : InCycle l date .movable movable)
    (hf : InCycle l date .fixed fixed) : l.AlikeButOrder l' (DayFacts.ofDate date).bindings where
  segments := h.segments
  has      := h.has
  get path text ht := by
    rcases h.get path with he | ⟨cycle, text₁, text', hd, ht', hr⟩
    case inl => exact ⟨text, he.trans ht, .inl rfl⟩
    case inr =>
      cases (Library.contains_of_readBottomUp hd).text.symm.trans ht
      refine ⟨text', ht', .inr ⟨hr, fun es hes => ?_⟩⟩
      cases cycle
      case movable => exact hm.tags hd hes
      case fixed   => exact hf.tags hd hes

theorem InCycle.of_alikeButOrder (hl : l.AlikeButOrder l' (DayFacts.ofDate date).bindings)
    (h : InCycle l date cycle cs) : ∃ (record : Element → Commemoration) (es es' : List Element),
      saints l date cycle = .ok es ∧ saints l' date cycle = .ok es' ∧ es.Perm es' ∧
        cs = es.map record ∧ InCycle l' date cycle (es'.map record) := by
  obtain ⟨source, hd, h⟩ := h
  obtain ⟨source', hd', ha⟩ := hl.readBottomUp hd
  obtain ⟨es, hs, ht, h⟩ := Document.commemorations_eq_ok_iff.mp h
  obtain ⟨es', hs', hp⟩ := ha.exists_survivors hs
  have hp' : (Document.saints es).Perm (Document.saints es') := hp.filter _
  obtain ⟨record, hc, hr⟩ := exists_map_of_mapM h
  refine ⟨record, _, _, saints_eq_ok hd hs, saints_eq_ok hd' hs', hp', hc, source', hd', ?_⟩
  refine Document.commemorations_eq_ok_iff.mpr ⟨es', hs', ?_, ?_⟩
  · exact fun e he => ht e (hp.mem_iff.mpr he)
  · exact mapM_eq_map fun e he => hr e (hp'.mem_iff.mpr he)

theorem addBiographies_of_alikeButOrder (hb : b.get? Bindings.rankName = none)
    {ds ds' : List SourceText}
    (ha : List.Forall₂ (fun d d' => Document.AlikeButOrder b d.text d'.text) ds ds')
    (h : (addBiographies b c ds).result = .ok c') : (addBiographies b c ds').result = .ok c' := by
  induction ha generalizing c
  case nil => exact h
  case cons ha _ hi =>
    obtain ⟨r, hr, h⟩ := Logged.bind_eq_ok_iff.mp h
    have he := ha.biography_eq (Bindings.extends_withRank hb (Document.Walk.rankNumber c.rank))
    have hr := he.trans (inDocument_eq_ok_iff.mp hr)
    exact Logged.bind_eq_ok_iff.mpr ⟨r, inDocument_eq_ok_iff.mpr hr, hi h⟩

section

variable (hl : l.AlikeButOrder l' b)

include hl

theorem readBiographies_of_alikeButOrder (hb : b.get? Bindings.rankName = none)
    (h : (readBiographies l b c).result = .ok c') : (readBiographies l' b c).result = .ok c' := by
  obtain ⟨ds, hd, h⟩ := Logged.bind_eq_ok_iff.mp h
  obtain ⟨ds', hd', ha⟩ := hl.readTopDown (ofArchive_eq_ok_iff.mp hd)
  exact Logged.bind_eq_ok_iff.mpr
    ⟨ds', ofArchive_eq_ok_iff.mpr hd', addBiographies_of_alikeButOrder hb ha h⟩

theorem readFasting_of_alikeButOrder (hb : b'.Extends b) {code : Option String}
    (h : (readFasting l b').result = .ok code) : (readFasting l' b').result = .ok code := by
  obtain ⟨ds, hd, h⟩ := Logged.bind_eq_ok_iff.mp h
  obtain ⟨ds', hd', ha⟩ := hl.readTopDown (ofArchive_eq_ok_iff.mp hd)
  obtain ⟨codes, hc, h⟩ := Logged.bind_eq_ok_iff.mp h
  refine Logged.bind_eq_ok_iff.mpr ⟨ds', ofArchive_eq_ok_iff.mpr hd', ?_⟩
  refine Logged.bind_eq_ok_iff.mpr ⟨codes, ?_, h⟩
  rw [Logged.result_mapM] at hc ⊢
  refine mapM_eq_ok_of_forall₂ (fun d d' r ha hr => ?_) ha hc
  have ht : ∀ tag ∈ Document.fastingTags, tag ∉ Document.cycleTags := by decide
  have hr := ha.records_eq_ok (fun _ _ hr => ht _ (Document.tag_of_readRule hr)) hb
    (inDocument_eq_ok_iff.mp hr)
  exact inDocument_eq_ok_iff.mpr hr

theorem readCommands_of_alikeButOrder (hb : b'.Extends b) {commands : List Command}
    (h : (readCommands l b').result = .ok commands) :
    (readCommands l' b').result = .ok commands := by
  obtain ⟨d, hd, h⟩ := Logged.bind_eq_ok_iff.mp h
  obtain ⟨d', hd', ha⟩ := hl.readBottomUp (ofArchive_eq_ok_iff.mp hd)
  have ht : ∀ tag ∈ Document.commandTags, tag ∉ Document.cycleTags := by decide
  have h := ha.records_eq_ok (fun _ _ hr => ht _ (Document.tag_of_readCommand hr)) hb
    (inDocument_eq_ok_iff.mp h)
  exact Logged.bind_eq_ok_iff.mpr
    ⟨d', ofArchive_eq_ok_iff.mpr hd', inDocument_eq_ok_iff.mpr h⟩

end

theorem get?_rankName_bindings (f : DayFacts) : f.bindings.get? Bindings.rankName = none := by
  simp only [DayFacts.bindings, Dictionary.ofList, List.foldl, Dictionary.get?_insert,
    Bindings.rankName]
  simp

-- A date that is resolved is also resolved if its saints stand in another order. The days are then
-- the same, and each cycle has the same commemorations in the order of its saints.
theorem resolve_of_rearranged (h : Rearranged l l' date) (hd : (resolve l date).result = .ok d) :
    ∃ d', (resolve l' date).result = .ok d' ∧ SameButOrder l l' d d' := by
  let f := DayFacts.ofDate date
  obtain ⟨movable, fixed, hd⟩ := resolve_eq_ok_iff.mp hd
  have hl : l.AlikeButOrder l' f.bindings := h.alikeButOrder hd.inMovable hd.inFixed
  have hb : f.bindings.get? Bindings.rankName = none := get?_rankName_bindings f
  have he (rank : Int) : (f.bindingsWithRank rank).Extends f.bindings :=
    Bindings.extends_withRank hb (.ofInt rank)
  obtain ⟨ofMovable, ms, ms', hms, hms', hmp, rfl, hm'⟩ := hd.inMovable.of_alikeButOrder hl
  obtain ⟨ofFixed, fs, fs', hfs, hfs', hfp, rfl, hf'⟩ := hd.inFixed.of_alikeButOrder hl
  obtain ⟨complete, hc, hcs⟩ := exists_map_of_mapM hd.biographies
  have hp : (ms.map ofMovable ++ fs.map ofFixed).Perm (ms'.map ofMovable ++ fs'.map ofFixed) :=
    (hmp.map ofMovable).append (hfp.map ofFixed)
  let d' : Day := { d with commemorations := (ms'.map ofMovable ++ fs'.map ofFixed).map complete }
  have hcp : d.commemorations.Perm d'.commemorations := hc ▸ hp.map complete
  have hd' : Built l' date (ms'.map ofMovable) (fs'.map ofFixed) d' := {
    inMovable   := hm'
    notEmpty    := by
      intro hn
      rw [List.map_eq_nil_iff.mp hn] at hmp
      exact hd.notEmpty (List.map_eq_nil_iff.mpr hmp.eq_nil)
    inFixed     := hf'
    biographies := mapM_eq_map fun c hc =>
      readBiographies_of_alikeButOrder hl hb (hcs c (hp.mem_iff.mpr hc))
    tone        := hd.tone.trans (toneOf_perm (hmp.map ofMovable))
    rank        := hd.rank.trans (dayRankOf_perm hcp)
    fastingCode := readFasting_of_alikeButOrder hl (he _) hd.fastingCode
    commands    := by
      rw [← hasLiturgy_perm hcp]
      split
      case isTrue hl'  => exact readCommands_of_alikeButOrder hl (he _) (hd.readCommands hl')
      case isFalse hl' => exact hd.commands_eq_nil hl'
    date        := hd.date
  }
  refine ⟨d', resolve_eq_ok_iff.mpr ⟨_, _, hd'⟩, rfl, rfl, rfl, rfl, rfl, ?_⟩
  let record (cycle : Cycle) : Element → Commemoration :=
    complete ∘ if cycle = .movable then ofMovable else ofFixed
  have hr (es es' : List Element) : (es.map ofMovable ++ es'.map ofFixed).map complete =
      es.map (record .movable) ++ es'.map (record .fixed) := by
    rw [List.map_append, List.map_map, List.map_map]
    rfl
  obtain rfl : d.date = date := hd.date
  exact ⟨record, ms, ms', fs, fs', hms, hms', hfs, hfs', hmp, hfp, hc.trans (hr ms fs), hr ms' fs'⟩

theorem rearranged_ofDocuments {ds ds' : Dictionary String} {segments : List String}
    (h : ∀ path, ds'.get? path = ds.get? path ∨ ∃ cycle text text',
      ((⟨.ofDocuments ds, segments⟩ : Library).readBottomUp (cyclePath date cycle)).result =
        .ok ⟨path, text⟩ ∧ ds'.get? path = some text' ∧
        Document.Reordered (DayFacts.ofDate date).bindings text text') :
    Rearranged ⟨.ofDocuments ds, segments⟩ ⟨.ofDocuments ds', segments⟩ date where
  segments := rfl
  has path := by
    rcases h path with he | ⟨cycle, text, text', hd, ht', -⟩
    case inl => exact (Archive.result_ofDocuments_congr he).1
    case inr =>
      have ht := Archive.result_get_ofDocuments_eq_ok_iff.mp
        (Library.contains_of_readBottomUp hd).text
      simp only [Archive.result_has_ofDocuments, Dictionary.contains, ht, ht']
      rfl
  get path := by
    refine (h path).imp (fun he => (Archive.result_ofDocuments_congr he).2) ?_
    rintro ⟨cycle, text, text', hd, ht', hr⟩
    exact ⟨cycle, text, text', hd, Archive.result_get_ofDocuments_eq_ok_iff.mpr ht', hr⟩

-- The documents of Pascha around those of its two cycles.
def textsAround (movable fixed : String) : Dictionary String :=
  ((Dictionary.ofList [
    ("xml/Commands/DivineLiturgy.xml", "<DATA><COMMAND Name='Class' Value='dRank'/></DATA>"),
    ("xml/Commands/Fasting.xml", "<RULE Case='8' Cmd='dRank == 4'/>"),
    ("xml/lives/09.xml", "<SERVICE Type='2'/><LITURGY Cmd='dRank == 2'/>")
  ]).insert "xml/pentecostarion/01.xml" movable).insert "en/xml/04/15.xml" fixed

-- One of the fixed saints stands twice, and another does not remain.
theorem resolve_of_rearranged_paschal :
    let movable  := "<DAY><SAINT CId='900' Tone='1'/><SAINT CId='901'/></DAY>"
    let movable' := "<DAY><SAINT CId='901'/><SAINT CId='900' Tone='1'/></DAY>"
    let fixed  := "<SAINT CId='9'/><SAINT CId='5' Cmd='0'/><SAINT CId='7' Tone='4'/><SAINT CId='9'/>"
    let fixed' := "<SAINT CId='7' Tone='4'/><SAINT CId='9'/><SAINT CId='9'/><SAINT CId='5' Cmd='0'/>"
    let l : Library := ⟨.ofDocuments (textsAround movable fixed), ["en"]⟩
    let l' : Library := ⟨.ofDocuments (textsAround movable' fixed'), ["en"]⟩
    Rearranged l l' ⟨2458602⟩ ∧
      ∃ d d', (resolve l ⟨2458602⟩).result = .ok d ∧ (resolve l' ⟨2458602⟩).result = .ok d' ∧
        d.commemorations.map (·.cid) = ["900", "901", "9", "7", "9"] ∧ SameButOrder l l' d d' := by
  intro movable movable' fixed fixed' l l'
  have h : Rearranged l l' ⟨2458602⟩ := by
    refine rearranged_ofDocuments fun path => ?_
    by_cases hf : path = "en/xml/04/15.xml"
    case pos =>
      subst hf
      have hd : (l.readBottomUp (cyclePath ⟨2458602⟩ .fixed)).result =
          .ok ⟨"en/xml/04/15.xml", fixed⟩ :=
        toOption_eq_some_iff.mp (by decide +kernel)
      exact .inr ⟨.fixed, fixed, fixed', hd, by decide +kernel, by decide +kernel⟩
    by_cases hm : path = "xml/pentecostarion/01.xml"
    case pos =>
      subst hm
      have hd : (l.readBottomUp (cyclePath ⟨2458602⟩ .movable)).result =
          .ok ⟨"xml/pentecostarion/01.xml", movable⟩ :=
        toOption_eq_some_iff.mp (by decide +kernel)
      exact .inr ⟨.movable, movable, movable', hd, by decide +kernel, by decide +kernel⟩
    case neg =>
      left
      simp only [textsAround, Dictionary.get?_insert, if_neg hf, if_neg hm]
  have hc : ((resolve l ⟨2458602⟩).result.map fun d => d.commemorations.map (·.cid)) =
      .ok ["900", "901", "9", "7", "9"] :=
    toOption_eq_some_iff.mp (by decide +kernel)
  obtain ⟨d, hd, hc⟩ := map_eq_ok_iff.mp hc
  obtain ⟨d', hd', hs⟩ := resolve_of_rearranged h hd
  exact ⟨h, d, d', hd, hd', hc, hs⟩

end Day

end Ordo
