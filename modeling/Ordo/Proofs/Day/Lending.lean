import Ordo.Proofs.Day.Frame
import Ordo.Proofs.Day.Saints

namespace Ordo.Day

variable {l : Library} {date date' : Date} {d r : Day} {rs : List Reading}

-- The readings that the transfers of a date add to the day from that of a neighbouring date.
inductive Adds (l : Library) (date : Date) : Date → List Reading → Prop
  | next {d r after before} :
    (resolve l date).result = .ok d → (resolveWithTransfers l date none).result = .ok r →
    HasLessons d → (Transfer.ofDay l d d.maxRank).Decides (.extended after before) →
    after ≠ [] → Adds l date (date.addDays 1) after
  | previous {d r after before} :
    (resolve l date).result = .ok d → (resolveWithTransfers l date none).result = .ok r →
    HasLessons d → (Transfer.ofDay l d d.maxRank).Decides (.extended after before) →
    before ≠ [] → Adds l date (date.addDays (-1)) before

-- The day `d` of the second date lends readings to the day of the first one, by commands that both
-- days have. On `d` itself no command stands in the way of its transfers, which give `r`.
structure Lending (l : Library) (date date' : Date) (d r : Day) : Prop where
  resolved    : (resolve l date').result = .ok d
  transferred : (resolveWithTransfers l date' none).result = .ok r
  added       : ∃ rs, Adds l date date' rs
  commands    : ∃ d₁, (resolve l date).result = .ok d₁ ∧ d₁.commands = d.commands
  allowed     : ∀ c ∈ d.commands, c.name = "Transfer" →
    c.Holds ((DayFacts.ofDate date').bindingsWithRank d.maxRank)

-- Of the services of `d` that contribute to what it lends, those of the commemorations in `p` have
-- lost their readings in `r`, and no others.
def DropsFrom (p : Commemoration → Prop) (d r : Day) : Prop :=
  List.Forall₂
    (fun c c' => List.Forall₂ (fun s s' => Contributes c s → (s'.readings = none ↔ p c))
      c.allServices c'.allServices)
    d.commemorations r.commemorations

instance (p : Commemoration → Prop) [DecidablePred p] (d r : Day) : Decidable (DropsFrom p d r) :=
  inferInstanceAs (Decidable (List.Forall₂ _ _ _))

theorem date_of_resolve (h : (resolve l date).result = .ok d) : d.date = date := by
  obtain ⟨_, _, hd⟩ := resolve_eq_ok_iff.mp h
  exact hd.date

theorem applyTransfer_of_resolveWithTransfers (hd : (resolve l date).result = .ok d)
    (h : (resolveWithTransfers l date none).result = .ok r) :
    (applyTransfer l d d.maxRank).result = .ok r := by
  obtain ⟨d', hd', h⟩ := Logged.bind_eq_ok_iff.mp h
  cases hd.symm.trans hd'
  exact h

theorem resolveWithTransfers_of_applyTransfer (hd : (resolve l date).result = .ok d)
    (h : (applyTransfer l d d.maxRank).result = .ok r) :
    (resolveWithTransfers l date none).result = .ok r :=
  Logged.bind_eq_ok_iff.mpr ⟨d, hd, h⟩

namespace Transfer

variable {t : Transfer} {w w' : Borrowed}

-- The decision of a day that asks the day before alone.
theorem decides_of_previous (hd : transferDisabled t.commands t.bindings = .ok false)
    (hs : readingsSuppressed t.commands t.bindings = .ok false)
    (hb : (t.asks "TransferRulesB").result = .ok false)
    (hf : (t.asks "TransferRulesF").result = .ok true)
    (hl : Lends t.library t.commands (t.date.addDays (-1)) rs) : t.Decides (.extended [] rs) := by
  have hd := transferDisabled_eq_true_iff hd
  have hs := readingsSuppressed_eq_true_iff hs
  have hb := asks_eq_true_iff hb
  have hf := asks_eq_true_iff hf
  refine .extended ?_ ?_ (.unasked ?_) (.asked (hf.mp rfl) hl)
  · simp [Disabled, ← hd]
  · simp [Suppressed, ← hs]
  · simp [← hb]

theorem Borrows.lends {rule : String} (h : t.Borrows rule date rs) (hn : rs ≠ []) :
    Lends t.library t.commands date rs := by
  cases h
  case asked h => exact h
  case unasked => contradiction

-- Unless its day is left alone, a liturgy with readings keeps some list of them if it is not to be
-- suppressed, even if nothing is added.
theorem readings_of_service {cid : String} {s s' : Service} (hd : ¬t.Disabled)
    (h : (t.service cid s w).result = .ok (s', w')) : s'.readings = none ↔ t.Suppressed := by
  obtain ⟨disabled, hr, h⟩ := Logged.bind_eq_ok_iff.mp h
  have hr := transferDisabled_eq_true_iff (ofFormula_eq_ok_iff.mp hr)
  cases disabled
  case true => exact absurd (hr.mp rfl) hd
  obtain ⟨suppressed, hr, h⟩ := Logged.bind_eq_ok_iff.mp h
  have hr := readingsSuppressed_eq_true_iff (ofFormula_eq_ok_iff.mp hr)
  cases suppressed
  case true =>
    cases h
    exact iff_of_true rfl (hr.mp rfl)
  case false =>
    obtain ⟨_, _, h⟩ := Logged.bind_eq_ok_iff.mp h
    cases h
    exact iff_of_false nofun (by simp [Suppressed, ← hr])

theorem readings_of_services {cid : String} {ss ss' : List Service} (hd : ¬t.Disabled)
    (h : (t.services cid ss w).result = .ok (ss', w')) :
    List.Forall₂ (fun s s' => isTransferable s → (s'.readings = none ↔ t.Suppressed)) ss ss' := by
  rw [services_eq_thread] at h
  refine forall₂_of_thread (fun {s s' _ _} h hs => ?_) h
  rw [if_pos hs] at h
  exact readings_of_service hd h

theorem readings_of_commemoration {c c' : Commemoration} (hd : ¬t.Disabled)
    (h : (t.commemoration c w).result = .ok (c', w')) :
    List.Forall₂
      (fun s s' => isTransferable s → (s'.readings = none ↔ StandsForLessons c ∧ t.Suppressed))
      c.allServices c'.allServices := by
  by_cases hl : StandsForLessons c
  case neg =>
    rw [(frame_of_commemoration h).others hl]
    refine List.forall₂_same.mpr fun s _ hs => iff_of_false ?_ fun h => hl h.1
    exact Option.isSome_iff_ne_none.mp (isTransferable_iff.mp hs).2
  case pos =>
    unfold commemoration at h
    split at h
    case h_1 ss _ hs =>
      obtain ⟨⟨ss', _⟩, hss, h⟩ := Logged.bind_eq_ok_iff.mp h
      cases h
      simpa [Commemoration.allServices, hs, hl] using readings_of_services hd hss
    case h_2 hn =>
      cases h
      have hs : c.services = none :=
        Option.eq_none_iff_forall_not_mem.mpr fun ss hs => hn ss (isLesson_iff.mpr hl) hs
      rw [Commemoration.allServices, hs]
      exact .nil

end Transfer

theorem Contributes.isTransferable {c : Commemoration} {s : Service} (h : Contributes c s) :
    isTransferable s := by
  refine isTransferable_iff.mpr ⟨h.2.1, ?_⟩
  by_contra hn
  exact h.2.2 (by rw [Option.not_isSome_iff_eq_none.mp hn, Option.getD_none])

-- What is added is lent by the commands of the day that it is added to.
theorem Adds.lends (h : Adds l date date' rs) (hd : (resolve l date).result = .ok d) :
    rs ≠ [] ∧ Lends l d.commands date' rs := by
  cases h
  case next hd' _ _ hd₁ hn =>
    cases hd.symm.trans hd'
    cases hd₁
    case extended hb _ => exact ⟨hn, date_of_resolve hd ▸ hb.lends hn⟩
  case previous hd' _ _ hd₁ hn =>
    cases hd.symm.trans hd'
    cases hd₁
    case extended hb => exact ⟨hn, date_of_resolve hd ▸ hb.lends hn⟩

namespace Lending

-- The condition of the lending is evaluated with the rank of the day.
theorem someHolds (h : Lending l date date' d r) :
    Command.SomeHolds d.commands "Class3Transfers"
      ((DayFacts.ofDate date').bindingsWithRank d.rank) := by
  obtain ⟨rs, ha⟩ := h.added
  obtain ⟨d₁, hd₁, hc⟩ := h.commands
  obtain ⟨hn, hl⟩ := ha.lends hd₁
  cases hl
  case nothing => contradiction
  case readings hd hs =>
    cases h.resolved.symm.trans hd
    exact hc ▸ hs

theorem not_disabled (h : Lending l date date' d r) :
    ¬(Transfer.ofDay l d d.maxRank).Disabled := by
  rintro ⟨c, hc, hn, hf⟩
  rw [Transfer.ofDay, date_of_resolve h.resolved] at hf
  have ht := h.allowed c hc hn
  exact ht.evaluates.isFalse_iff.mp hf ht

theorem suppressed_of_rank_eq (h : Lending l date date' d r) (hr : d.rank = d.maxRank) :
    (Transfer.ofDay l d d.maxRank).Suppressed := by
  have hs := h.someHolds
  rw [hr, ← date_of_resolve h.resolved] at hs
  exact .inr hs

-- The lent readings are dropped on their own day in its lessons only, and only if the day suppresses
-- its readings at its highest rank. If that is also the rank that it lends at, it does suppress them.
theorem dropsFrom_lessons (h : Lending l date date' d r) :
    DropsFrom (fun c => StandsForLessons c ∧ (Transfer.ofDay l d d.maxRank).Suppressed) d r ∧
      (d.rank = d.maxRank → DropsFrom StandsForLessons d r) := by
  have hd : DropsFrom (fun c => StandsForLessons c ∧ (Transfer.ofDay l d d.maxRank).Suppressed)
      d r := by
    have ht := applyTransfer_of_resolveWithTransfers h.resolved h.transferred
    obtain ⟨⟨cs, w⟩, hcs, ht⟩ := Logged.bind_eq_ok_iff.mp ht
    rw [Transfer.commemorations_eq_thread] at hcs
    cases ht
    refine Transfer.forall₂_of_thread (fun hc => ?_) hcs
    refine (Transfer.readings_of_commemoration h.not_disabled hc).imp fun s s' hs hc => ?_
    exact hs hc.isTransferable
  refine ⟨hd, fun hr => ?_⟩
  simpa only [h.suppressed_of_rank_eq hr, and_true] using hd

end Lending

namespace PaschalWeek

-- The days of the week of Pascha ask the day before for readings. The second one lends them at any
-- rank, and the third one only below the rank 0. Only the second one has a rank, which is 0.
def library : Library where
  archive := .ofDocuments <| .ofList [
    ("xml/04/16.xml", "<SAINT CId='7' Tone='0'/>"),
    ("xml/04/17.xml", ""),
    ("xml/04/18.xml", ""),
    ("xml/Commands/DivineLiturgy.xml", "<COMMAND Name='Transfer' Value='1'/>" ++
      "<COMMAND Name='TransferRulesF' Value='nday>1'/>" ++
      "<COMMAND Name='Class3Transfers' Value='nday<2||dRank<0'/>"),
    ("xml/lives/09.xml", "<LITURGY><SCRIPTURE Reading='Acts 2'/></LITURGY>"),
    ("xml/lives/9002.xml", "<LITURGY><SCRIPTURE Reading='Jn 1'/></LITURGY>"),
    ("xml/lives/9003.xml", "<LITURGY><SCRIPTURE Reading='Lk 24'/></LITURGY>"),
    ("xml/lives/9004.xml", "<LITURGY><SCRIPTURE Reading='Jn 3'/></LITURGY>"),
    ("xml/pentecostarion/02.xml", "<SAINT CId='9002'/><SAINT CId='9'/>"),
    ("xml/pentecostarion/03.xml", "<SAINT CId='9003'/>"),
    ("xml/pentecostarion/04.xml", "<SAINT CId='9004'/>")
  ]
  segments := []

def reading (citation : String) : Reading := ⟨none, none, citation, none⟩

-- A day of that week, with a reading for each of its commemorations.
def day (number : Int) (citations : List (String × String)) : Day where
  date           := ⟨number⟩
  tone           := 8
  rank           := -1
  fastingCode    := none
  commemorations := citations.map fun (cid, citation) =>
    { cid, cycle := .movable, services := some [⟨.liturgy, some [reading citation]⟩] }
  commands       := [
    ⟨"Transfer", "1", none⟩, ⟨"TransferRulesF", "nday>1", none⟩,
    ⟨"Class3Transfers", "nday<2||dRank<0", none⟩
  ]

def second : Day :=
  let d := day 2458603 [("9002", "Jn 1"), ("9", "Acts 2")]
  let fixed : Commemoration := { cid := "7", cycle := .fixed, rank := some (.number 0) }
  { d with rank := 0, commemorations := d.commemorations ++ [fixed] }

def third : Day := day 2458604 [("9003", "Lk 24")]

def fourth : Day := day 2458605 [("9004", "Jn 3")]

-- The second day without the reading of its lesson, and the others with what they have asked for.
def second' : Day := Outcome.dropped.onDay second

def third' : Day := (Outcome.extended [] (contributions second)).onDay third

def fourth' : Day := (Outcome.extended [] (contributions third)).onDay fourth

theorem results :
    (resolve library second.date).result.toOption = some second ∧
    (resolve library third.date).result.toOption = some third ∧
    (resolve library fourth.date).result.toOption = some fourth ∧
    (applyTransfer library second second.maxRank).result.toOption = some second' ∧
    (applyTransfer library third third.maxRank).result.toOption = some third' ∧
    (applyTransfer library fourth fourth.maxRank).result.toOption = some fourth' := by
  decide +kernel

-- Of its neighbours `asking` asks only the day before, which is `lender`. That one lends, and none of
-- its own commands is against its transfers.
def AsksBefore (asking lender : Day) : Prop :=
  let t := Transfer.ofDay library asking asking.maxRank
  let bindings := (DayFacts.ofDate lender.date).bindingsWithRank
  (transferDisabled t.commands t.bindings).toOption = some false ∧
  (readingsSuppressed t.commands t.bindings).toOption = some false ∧
  (t.asks "TransferRulesB").result.toOption = some false ∧
  (t.asks "TransferRulesF").result.toOption = some true ∧
  (Command.anyHolds (Command.named "Class3Transfers" asking.commands)
    (bindings lender.rank)).toOption = some true ∧
  ∀ c ∈ lender.commands, c.name = "Transfer" →
    (c.holds (bindings lender.maxRank)).toOption = some true

instance (asking lender : Day) : Decidable (AsksBefore asking lender) :=
  inferInstanceAs (Decidable (_ ∧ _))

theorem lending {asking asking' lender lender' : Day}
    (h₁ : (resolve library asking.date).result = .ok asking)
    (t₁ : (applyTransfer library asking asking.maxRank).result = .ok asking')
    (h : (resolve library lender.date).result = .ok lender)
    (t : (applyTransfer library lender lender.maxRank).result = .ok lender')
    (hd : asking.date.addDays (-1) = lender.date) (hc : asking.commands = lender.commands)
    (hl : HasLessons asking) (hn : contributions lender ≠ []) (ha : AsksBefore asking lender) :
    Lending library asking.date lender.date lender lender' := by
  simp only [AsksBefore, toOption_eq_some_iff] at ha
  obtain ⟨hx, hs, hb, hf, hr, ha⟩ := ha
  have hl' : Lends library asking.commands lender.date (contributions lender) :=
    .readings h ((Command.anyHolds_eq_true_iff hr).mp rfl)
  have ho := Transfer.decides_of_previous hx hs hb hf (hd ▸ hl')
  have r₁ := resolveWithTransfers_of_applyTransfer h₁ t₁
  exact {
    resolved    := h
    transferred := resolveWithTransfers_of_applyTransfer h t
    added       := ⟨_, hd ▸ Adds.previous h₁ r₁ hl ho hn⟩
    commands    := ⟨asking, h₁, hc⟩
    allowed     := fun c hc hn => Command.holds_eq_true_iff.mp (ha c hc hn)
  }

theorem lending_second : Lending library third.date second.date second second' := by
  obtain ⟨h, h₁, _, t, t₁, _⟩ := results
  rw [toOption_eq_some_iff] at h h₁ t t₁
  exact lending h₁ t₁ h t rfl rfl ⟨_, .head _, by decide, _, .head _, rfl, rfl⟩ (by decide)
    (by decide +kernel)

theorem lending_third : Lending library fourth.date third.date third third' := by
  obtain ⟨_, h, h₁, _, t, t₁⟩ := results
  rw [toOption_eq_some_iff] at h h₁ t t₁
  exact lending h₁ t₁ h t rfl rfl ⟨_, .head _, by decide, _, .head _, rfl, rfl⟩ (by decide)
    (by decide +kernel)

-- The second day has lost the reading of its lesson, but not the other one that it lent. The third
-- day has lost none.
theorem lent_readings_stay :
    Lending library third.date second.date second second' ∧
      ¬DropsFrom (fun _ => True) second second' ∧
    Lending library fourth.date third.date third third' ∧
      ¬DropsFrom (fun _ => True) third third' ∧ ¬DropsFrom StandsForLessons third third' :=
  ⟨lending_second, by decide +kernel, lending_third, by decide +kernel, by decide +kernel⟩

theorem dropsFrom_lessons_second :
    let suppressed := (Transfer.ofDay library second second.maxRank).Suppressed
    Lending library third.date second.date second second' ∧
      DropsFrom (fun c => StandsForLessons c ∧ suppressed) second second' ∧
      second.rank = second.maxRank ∧ DropsFrom StandsForLessons second second' := by
  have h := lending_second.dropsFrom_lessons
  have hr : second.rank = second.maxRank := by decide +kernel
  exact ⟨lending_second, h.1, hr, h.2 hr⟩

end PaschalWeek

end Ordo.Day
