import Ordo.Proofs.Commemoration
import Ordo.Proofs.Day.Frame
import Ordo.Proofs.Day.Saints

namespace Ordo

theorem forall_mem_of_forall₂ {α β : Type} {p : α → Prop} {q : β → Prop} {as : List α} {bs : List β}
    (h : List.Forall₂ (fun a b => p a → q b) as bs) (ha : ∀ a ∈ as, p a) : ∀ b ∈ bs, q b := by
  induction h
  case nil => nofun
  case cons hab _ hi =>
    obtain ⟨ha, has⟩ := List.forall_mem_cons.mp ha
    exact List.forall_mem_cons.mpr ⟨hab ha, hi has⟩

-- A list that is there has something in it.
structure Commemoration.NoEmptyLists (c : Commemoration) : Prop where
  services : c.services ≠ some []
  readings : ∀ s ∈ c.allServices, s.readings ≠ some []

namespace Document

variable {w : Walk} {p : Markup.Pruner} {b : Bindings} {es : List Markup.Event} {r : Biography}
  {source : String} {s : Service}

theorem Walk.exists_result_of_run (h : (w.run p b es).1 = .ok r) : ∃ w' : Walk, r = w'.result := by
  induction es generalizing w p b
  case nil =>
    cases h
    exact ⟨w, rfl⟩
  case cons e es hi =>
    rw [run] at h
    split at h
    case h_1 => cases h
    case h_2 => exact hi h
    case h_3 =>
      split at h
      case h_1 => cases h
      case h_2 => exact hi h

theorem Walk.readings_of_mem_result (hs : s ∈ w.result.services) : s.readings ≠ some [] := by
  obtain ⟨⟨office, rs⟩, _, rfl⟩ := List.mem_map.mp hs
  cases rs <;> simp

theorem readings_of_mem_biography (h : (biography source b).1 = .ok r) (hs : s ∈ r.services) :
    s.readings ≠ some [] := by
  rw [biography] at h
  split at h
  case h_1 => cases h
  case h_2 =>
    obtain ⟨w, rfl⟩ := Walk.exists_result_of_run h
    exact Walk.readings_of_mem_result hs

end Document

open Document (Heading)

namespace Commemoration

variable {c : Commemoration} {r : Biography}

theorem NoEmptyLists.withBiography (h : c.NoEmptyLists)
    (hr : ∀ s ∈ r.services, s.readings ≠ some []) : (c.withBiography r).NoEmptyLists := by
  by_cases he : r.services.isEmpty
  case pos =>
    have hs : (c.withBiography r).services = c.services := if_pos he
    refine ⟨hs ▸ h.services, ?_⟩
    rw [allServices, hs]
    exact h.readings
  case neg =>
    have hs : (c.withBiography r).services = some (c.allServices ++ r.services) := if_neg he
    refine ⟨?_, ?_⟩
    · rw [hs]
      intro hn
      have hn := (List.append_eq_nil_iff.mp (Option.some.inj hn)).2
      exact he (List.isEmpty_iff.mpr hn)
    · rw [allServices, hs, Option.getD_some]
      intro s hs
      rcases List.mem_append.mp hs with hs | hs
      case inl => exact h.readings s hs
      case inr => exact hr s hs

theorem hasService_eq (c : Commemoration) (o : Office) :
    c.hasService o = (c.offices.getD []).any (· = o) := by
  rw [hasService, allServices, offices]
  cases c.services
  case none => rfl
  case some => simp [Function.comp_def]

theorem noEmptyLists_of_no_services (h : c.services = none) : c.NoEmptyLists where
  services := by simp [h]
  readings := by simp [allServices, h]

end Commemoration

theorem hasLiturgy_eq (cs : List Commemoration) :
    hasLiturgy cs = (cs.map (·.offices)).any fun os => (os.getD []).any (· = .liturgy) := by
  simp only [hasLiturgy, Commemoration.hasService_eq, List.any_map, Function.comp_def]

namespace Day

variable {l : Library} {date : Date} {b : Bindings} {c c' : Commemoration} {d r : Day}

theorem of_addBiographies {ds : List SourceText} (h : (addBiographies b c ds).result = .ok c') :
    Heading.ofCommemoration c' = .ofCommemoration c ∧ (c.NoEmptyLists → c'.NoEmptyLists) := by
  induction ds generalizing c
  case nil =>
    cases h
    exact ⟨rfl, id⟩
  case cons d ds hi =>
    obtain ⟨r, hr, h⟩ := Logged.bind_eq_ok_iff.mp h
    have hr := inDocument_eq_ok_iff.mp hr
    obtain ⟨hh, hn⟩ := hi h
    refine ⟨hh, fun hc => hn (hc.withBiography fun s hs => ?_)⟩
    exact Document.readings_of_mem_biography hr hs

theorem of_readBiographies (h : (readBiographies l b c).result = .ok c') :
    Heading.ofCommemoration c' = .ofCommemoration c ∧ (c.NoEmptyLists → c'.NoEmptyLists) := by
  obtain ⟨_, _, h⟩ := Logged.bind_eq_ok_iff.mp h
  exact of_addBiographies h

structure WellFormed (l : Library) (date : Date) (d : Day) : Prop where
  headings : ∃ movable fixed,
    saints l date .movable = .ok movable ∧ saints l date .fixed = .ok fixed ∧ movable ≠ [] ∧
      d.commemorations.map .ofCommemoration =
        movable.map (Heading.ofSaint .movable) ++ fixed.map (Heading.ofSaint .fixed)
  tone     : d.tone ≠ 0
  rank     : -1 ≤ d.rank
  commands : d.commands ≠ [] → d.hasLiturgy
  lists    : ∀ c ∈ d.commemorations, c.NoEmptyLists

theorem InCycle.exists_headings {cycle : Cycle} {cs : List Commemoration}
    (h : InCycle l date cycle cs) : ∃ es, saints l date cycle = .ok es ∧
      cs.map Heading.ofCommemoration = es.map (Heading.ofSaint cycle) := by
  obtain ⟨es, hes, hs⟩ := h.exists_saints
  exact ⟨es, hes, map_eq_of_mapM (fun _ _ => Document.heading_of_saintOf) hs⟩

theorem InCycle.noEmptyLists {cycle : Cycle} {cs : List Commemoration}
    (h : InCycle l date cycle cs) (hc : c ∈ cs) : c.NoEmptyLists := by
  obtain ⟨_, _, hs⟩ := h.exists_saints
  obtain ⟨_, _, hs⟩ := exists_of_mem_mapM hs hc
  exact Commemoration.noEmptyLists_of_no_services (Document.services_of_saintOf hs)

theorem wellFormed_of_resolve (h : (resolve l date).result = .ok d) : WellFormed l date d := by
  obtain ⟨movable, fixed, h⟩ := resolve_eq_ok_iff.mp h
  constructor
  case headings =>
    obtain ⟨ms, hms, hm⟩ := h.inMovable.exists_headings
    obtain ⟨fs, hfs, hf⟩ := h.inFixed.exists_headings
    refine ⟨ms, fs, hms, hfs, ?_, ?_⟩
    · rintro rfl
      exact h.notEmpty (List.map_eq_nil_iff.mp hm)
    calc d.commemorations.map Heading.ofCommemoration
      _ = (movable ++ fixed).map Heading.ofCommemoration :=
        map_eq_of_mapM (fun _ _ hr => (of_readBiographies hr).1) h.biographies
      _ = ms.map (Heading.ofSaint .movable) ++ fs.map (Heading.ofSaint .fixed) := by
        rw [List.map_append, hm, hf]
  case tone     => exact h.tone ▸ toneOf_ne_zero movable
  case rank     => exact h.rank ▸ neg_one_le_dayRankOf d.commemorations
  case commands =>
    intro hn
    by_contra hl
    exact hn (h.commands_eq_nil hl)
  case lists =>
    intro c hc
    obtain ⟨c₀, hc₀, hr⟩ := exists_of_mem_mapM h.biographies hc
    refine (of_readBiographies hr).2 ?_
    rcases List.mem_append.mp hc₀ with hc₀ | hc₀
    case inl => exact h.inMovable.noEmptyLists hc₀
    case inr => exact h.inFixed.noEmptyLists hc₀

namespace Transfer

variable {t : Transfer} {w w' : Borrowed}

theorem readings_ne_nil_of_service {cid : String} {s s' : Service} (hs : isTransferable s)
    (hr : s.readings ≠ some []) (h : (t.service cid s w).result = .ok (s', w')) :
    s'.readings ≠ some [] := by
  obtain ⟨disabled, _, h⟩ := Logged.bind_eq_ok_iff.mp h
  cases disabled
  case true =>
    cases h
    exact hr
  obtain ⟨suppressed, _, h⟩ := Logged.bind_eq_ok_iff.mp h
  cases suppressed
  case true =>
    cases h
    simp
  case false =>
    obtain ⟨_, _, h⟩ := Logged.bind_eq_ok_iff.mp h
    cases h
    obtain ⟨rs, hs⟩ := Option.isSome_iff_exists.mp (isTransferable_iff.mp hs).2
    have hn : rs ≠ [] := fun hn => hr (hs.trans (congrArg some hn))
    simp [hs, hn]

theorem readings_ne_nil_of_services {cid : String} {ss ss' : List Service}
    (hr : ∀ s ∈ ss, s.readings ≠ some []) (h : (t.services cid ss w).result = .ok (ss', w')) :
    ∀ s ∈ ss', s.readings ≠ some [] := by
  rw [services_eq_thread] at h
  refine forall_mem_of_forall₂ (forall₂_of_thread (fun {s s' _ _} h hr => ?_) h) hr
  split at h
  case isTrue hs => exact readings_ne_nil_of_service hs hr h
  case isFalse =>
    cases h
    exact hr

theorem noEmptyLists_of_commemoration (hc : c.NoEmptyLists)
    (h : (t.commemoration c w).result = .ok (c', w')) : c'.NoEmptyLists := by
  unfold commemoration at h
  split at h
  case h_2 =>
    cases h
    exact hc
  case h_1 ss _ hs =>
    obtain ⟨⟨ss', _⟩, hss, h⟩ := Logged.bind_eq_ok_iff.mp h
    have hr : ∀ s ∈ ss, s.readings ≠ some [] := by
      simpa [Commemoration.allServices, hs] using hc.readings
    have hl := (frame_of_services hss).length_eq
    cases h
    refine ⟨?_, readings_ne_nil_of_services hr hss⟩
    rintro hn
    cases hn
    cases List.length_eq_zero_iff.mp hl
    exact hc.services hs

end Transfer

theorem WellFormed.of_applyTransfer {rank : Int} (hd : WellFormed l date d)
    (h : (applyTransfer l d rank).result = .ok r) : WellFormed l date r := by
  obtain ⟨⟨cs, w⟩, hcs, h⟩ := Logged.bind_eq_ok_iff.mp h
  rw [Transfer.commemorations_eq_thread] at hcs
  have hf : List.Forall₂ Commemoration.Frame d.commemorations cs :=
    Transfer.forall₂_of_thread (fun h => Transfer.frame_of_commemoration h) hcs
  have hl : ∀ c ∈ cs, c.NoEmptyLists := by
    refine forall_mem_of_forall₂ (Transfer.forall₂_of_thread (fun h hc => ?_) hcs) hd.lists
    exact Transfer.noEmptyLists_of_commemoration hc h
  have hh : cs.map Heading.ofCommemoration = d.commemorations.map Heading.ofCommemoration := by
    refine map_eq_of_forall₂ (hf.imp fun c c' hc => ?_)
    rw [hc.fields]
    rfl
  have ho : cs.map (·.offices) = d.commemorations.map (·.offices) :=
    map_eq_of_forall₂ (hf.imp fun _ _ => Commemoration.Frame.offices_eq)
  cases h
  obtain ⟨movable, fixed, hm, hx, hn, hd'⟩ := hd.headings
  constructor
  case headings => exact ⟨movable, fixed, hm, hx, hn, hh.trans hd'⟩
  case tone     => exact hd.tone
  case rank     => exact hd.rank
  case commands =>
    intro hc
    rw [hasLiturgy, hasLiturgy_eq, ho, ← hasLiturgy_eq]
    exact hd.commands hc
  case lists    => exact hl

-- Every day that is resolved is well formed, whatever transfers are applied to it.
theorem resolve_wellFormed (l : Library) (date : Date) (d : Day) :
    ((resolve l date).result = .ok d → WellFormed l date d) ∧
      ∀ rank, (resolveWithTransfers l date rank).result = .ok d → WellFormed l date d := by
  refine ⟨wellFormed_of_resolve, fun rank h => ?_⟩
  obtain ⟨d', hd, h⟩ := Logged.bind_eq_ok_iff.mp h
  exact (wellFormed_of_resolve hd).of_applyTransfer h

-- The second day of Pascha, on which all readings are suppressed.
def suppressedWeek : Library where
  archive := .ofDocuments <| .ofList [
    ("xml/04/16.xml", "<SAINT CId='7' Tone='-3'/>"),
    ("xml/Commands/DivineLiturgy.xml", "<DATA><COMMAND Name='Suppress' Value='1'/></DATA>"),
    ("xml/lives/9002.xml", "<LITURGY><SCRIPTURE Reading='Acts 1.12-17'/></LITURGY><VESPERS/>"),
    ("xml/pentecostarion/02.xml", "<DAY><SAINT CId='9002' Src='P'/><SAINT CId='9' Cmd='0'/></DAY>")
  ]
  segments := []

def suppressedMonday : Day where
  date           := ⟨2458603⟩
  tone           := 8
  rank           := -1
  fastingCode    := none
  commemorations := [
    {
      cid        := "9002"
      cycle      := .movable
      menologion := "P"
      services   := some [⟨.liturgy, some [⟨none, none, "Acts 1.12-17", none⟩]⟩, ⟨.vespers, none⟩]
    },
    { cid := "7", cycle := .fixed, rank := some (.number (-3)) }
  ]
  commands       := [⟨"Suppress", "1", none⟩]

theorem resolve_wellFormed_suppressed :
    let d := suppressedMonday
    let r := Outcome.dropped.onDay d
    (resolve suppressedWeek d.date).result = .ok d ∧
      (resolveWithTransfers suppressedWeek d.date none).result = .ok r ∧
      WellFormed suppressedWeek d.date d ∧ WellFormed suppressedWeek d.date r := by
  intro d r
  have hd : (resolve suppressedWeek d.date).result = .ok d :=
    toOption_eq_some_iff.mp (by decide +kernel)
  have hr : (resolveWithTransfers suppressedWeek d.date none).result = .ok r :=
    toOption_eq_some_iff.mp (by decide +kernel)
  exact ⟨hd, hr, (resolve_wellFormed _ _ d).1 hd, (resolve_wellFormed _ _ r).2 none hr⟩

end Day

end Ordo
