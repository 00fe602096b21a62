import Ordo.Archive.Bundle
import Ordo.Proofs.Day.Outcome

namespace Ordo.Day

open Resolved (ofFormula)

theorem ofFormula_eq_ok_iff {α : Type} {r : Except Formula.Error α} {a : α} :
    (ofFormula r).result = .ok a ↔ r = .ok a :=
  mapError_eq_ok_iff

theorem lends_of_lend {l : Library} {cs : List Command} {date : Date} {rs : List Reading}
    (h : (lend l cs date).result = .ok rs) : Lends l cs date rs := by
  obtain ⟨d, hd, h⟩ := Logged.bind_eq_ok_iff.mp h
  obtain ⟨r, hr, h⟩ := Logged.bind_eq_ok_iff.mp h
  have hr := Command.anyHolds_eq_true_iff (ofFormula_eq_ok_iff.mp hr)
  cases r
  case true =>
    cases h
    rw [movableReadings_eq]
    exact .readings hd (hr.mp rfl)
  case false =>
    cases h
    exact .nothing hd (by simp [← hr])

-- The invariant of what has been borrowed: each list is the one that the neighbour lends afresh.
structure Borrowed.Fresh (t : Transfer) (w : Borrowed) : Prop where
  next     : ∀ rs, w.next = some rs → Lends t.library t.commands (t.date.addDays 1) rs
  previous : ∀ rs, w.previous = some rs → Lends t.library t.commands (t.date.addDays (-1)) rs

namespace Borrowed

variable {t : Transfer} {w : Borrowed} {rs : List Reading}

theorem fresh_empty (t : Transfer) : Fresh t {} where
  next     := nofun
  previous := nofun

theorem Fresh.keep_next (hw : w.Fresh t) (h : Lends t.library t.commands (t.date.addDays 1) rs) :
    Fresh t { w with next := some rs } where
  next _ hn := Option.some.inj hn ▸ h
  previous  := hw.previous

theorem Fresh.keep_previous (hw : w.Fresh t)
    (h : Lends t.library t.commands (t.date.addDays (-1)) rs) :
    Fresh t { w with previous := some rs } where
  next          := hw.next
  previous _ hp := Option.some.inj hp ▸ h

end Borrowed

theorem lends_of_borrow {l : Library} {cs : List Command} {date : Date} {rs : List Reading}
    {kept : Option (List Reading)} (hk : ∀ rs, kept = some rs → Lends l cs date rs)
    (h : (borrow l cs date kept).result = .ok rs) : Lends l cs date rs := by
  cases kept
  case none => exact lends_of_lend h
  case some =>
    cases h
    exact hk _ rfl

namespace Transfer

variable {t : Transfer} {w w' : Borrowed}

theorem asks_eq_true_iff {name : String} {r : Bool} (h : (t.asks name).result = .ok r) :
    r = true ↔ Command.SomeHolds t.commands name t.bindings :=
  Command.anyHolds_eq_true_iff (ofFormula_eq_ok_iff.mp h)

-- What a rule makes the day borrow, and all that is borrowed then.
def follow (t : Transfer) (rule : String) (date : Date) (kept : Option (List Reading))
    (keep : List Reading → Borrowed) (w : Borrowed) : Resolved (List Reading × Borrowed) := do
  if ← t.asks rule then
    let rs ← borrow t.library t.commands date kept
    return (rs, keep rs)
  else return ([], w)

theorem extra_eq (t : Transfer) (w : Borrowed) :
    t.extra w = do
      let (after, w) ← t.follow "TransferRulesB" (t.date.addDays 1) w.next
        (fun rs => { w with next := some rs }) w
      let (before, w) ← t.follow "TransferRulesF" (t.date.addDays (-1)) w.previous
        (fun rs => { w with previous := some rs }) w
      return (after ++ before, w) := by
  have ite_bind {α β : Type} (r : Bool) (x y : Resolved α) (f : α → Resolved β) :
      (if r then x else y) >>= f = if r then x >>= f else y >>= f := by
    cases r <;> rfl
  simp only [extra, follow, bind_assoc, pure_bind, ite_bind]

theorem borrows_of_follow {rule : String} {date : Date} {kept : Option (List Reading)}
    {keep : List Reading → Borrowed} {p : List Reading × Borrowed}
    (hk : ∀ rs, kept = some rs → Lends t.library t.commands date rs)
    (hf : ∀ rs, Lends t.library t.commands date rs → (keep rs).Fresh t) (hw : w.Fresh t)
    (h : (t.follow rule date kept keep w).result = .ok p) :
    t.Borrows rule date p.1 ∧ p.2.Fresh t := by
  obtain ⟨r, hr, h⟩ := Logged.bind_eq_ok_iff.mp h
  have hr := asks_eq_true_iff hr
  cases r
  case true =>
    obtain ⟨rs, hrs, h⟩ := Logged.bind_eq_ok_iff.mp h
    have hl := lends_of_borrow hk hrs
    cases h
    exact ⟨.asked (hr.mp rfl) hl, hf rs hl⟩
  case false =>
    cases h
    exact ⟨.unasked (by simp [← hr]), hw⟩

theorem borrows_of_extra {rs : List Reading} (hw : w.Fresh t)
    (h : (t.extra w).result = .ok (rs, w')) :
    w'.Fresh t ∧ ∃ after before, rs = after ++ before ∧
      t.Borrows "TransferRulesB" (t.date.addDays 1) after ∧
      t.Borrows "TransferRulesF" (t.date.addDays (-1)) before := by
  rw [extra_eq] at h
  obtain ⟨⟨after, w₁⟩, h₁, h⟩ := Logged.bind_eq_ok_iff.mp h
  obtain ⟨⟨before, w₂⟩, h₂, h⟩ := Logged.bind_eq_ok_iff.mp h
  obtain ⟨ha, hw₁⟩ := borrows_of_follow hw.next (fun _ => hw.keep_next) hw h₁
  obtain ⟨hb, hw₂⟩ := borrows_of_follow hw₁.previous (fun _ => hw₁.keep_previous) hw₁ h₂
  cases h
  exact ⟨hw₂, after, before, rfl, ha, hb⟩

theorem decides_of_service {cid : String} {s s' : Service} (hs : isTransferable s)
    (hw : w.Fresh t) (h : (t.service cid s w).result = .ok (s', w')) :
    w'.Fresh t ∧ ∃ o, t.Decides o ∧ s' = o.onService s := by
  obtain ⟨office, _ | rs⟩ := s
  case none => simp [isTransferable] at hs
  have : office = .liturgy := by simpa [isTransferable] using hs
  subst this
  obtain ⟨r, hr, h⟩ := Logged.bind_eq_ok_iff.mp h
  have hr := transferDisabled_eq_true_iff (ofFormula_eq_ok_iff.mp hr)
  cases r
  case true =>
    cases h
    exact ⟨hw, .kept, .kept (hr.mp rfl), rfl⟩
  have hd : ¬t.Disabled := by simp [Disabled, ← hr]
  obtain ⟨r, hr, h⟩ := Logged.bind_eq_ok_iff.mp h
  have hr := readingsSuppressed_eq_true_iff (ofFormula_eq_ok_iff.mp hr)
  cases r
  case true =>
    cases h
    exact ⟨hw, .dropped, .dropped hd (hr.mp rfl), rfl⟩
  case false =>
    obtain ⟨⟨more, w₁⟩, he, h⟩ := Logged.bind_eq_ok_iff.mp h
    obtain ⟨hw₁, after, before, hm, ha, hb⟩ := borrows_of_extra hw he
    cases h
    refine ⟨hw₁, .extended after before, .extended hd (by simp [Suppressed, ← hr]) ha hb, ?_⟩
    simp [Outcome.onService, Outcome.onReadings, hm]

-- A loop over a list that hands on what has been borrowed.
def thread {α : Type} (f : α → Borrowed → Resolved (α × Borrowed)) :
    List α → Borrowed → Resolved (List α × Borrowed)
  | [], w => return ([], w)
  | a :: as, w => do
    let (a, w) ← f a w
    let (as, w) ← thread f as w
    return (a :: as, w)

theorem services_eq_thread (t : Transfer) (cid : String) (ss : List Service) (w : Borrowed) :
    t.services cid ss w =
      thread (fun s w => if isTransferable s then t.service cid s w else pure (s, w)) ss w := by
  induction ss generalizing w
  case nil => rfl
  case cons s ss hi =>
    rw [services, thread]
    simp only [hi]
    split <;> simp only [pure_bind]

theorem commemorations_eq_thread (t : Transfer) (cs : List Commemoration) (w : Borrowed) :
    t.commemorations cs w = thread t.commemoration cs w := by
  induction cs generalizing w
  case nil => rfl
  case cons c cs hi =>
    rw [commemorations, thread]
    simp only [hi]

-- What one step of a loop does to an element, the loop does to all elements. The property `p` is
-- that of the elements with which the outcome is decided.
theorem map_of_thread {α : Type} {f : α → Borrowed → Resolved (α × Borrowed)} {g : α → α}
    {p : α → Prop} {o : Outcome} {as as' : List α}
    (hf : ∀ {a a' w w'}, w.Fresh t → (f a w).result = .ok (a', w') →
      w'.Fresh t ∧ a' = g a ∧ (p a → t.Decides o))
    (hw : w.Fresh t) (h : (thread f as w).result = .ok (as', w')) :
    w'.Fresh t ∧ as' = as.map g ∧ ((∃ a ∈ as, p a) → t.Decides o) := by
  induction as generalizing w w' as'
  case nil =>
    cases h
    exact ⟨hw, rfl, nofun⟩
  case cons a as hi =>
    obtain ⟨⟨a', w₁⟩, ha, h⟩ := Logged.bind_eq_ok_iff.mp h
    obtain ⟨⟨as₁, w₂⟩, has, h⟩ := Logged.bind_eq_ok_iff.mp h
    obtain ⟨hw₁, hga, hd⟩ := hf hw ha
    obtain ⟨hw₂, hgas, hds⟩ := hi hw₁ has
    cases h
    refine ⟨hw₂, by rw [hga, hgas, List.map_cons], ?_⟩
    rintro ⟨b, hb, hp⟩
    cases hb
    case head    => exact hd hp
    case tail hb => exact hds ⟨b, hb, hp⟩

theorem map_of_services {cid : String} {o : Outcome} {ss ss' : List Service}
    (ho : ∀ o', t.Decides o' → o' = o) (hw : w.Fresh t)
    (h : (t.services cid ss w).result = .ok (ss', w')) :
    w'.Fresh t ∧ ss' = ss.map o.onService ∧ ((∃ s ∈ ss, isTransferable s) → t.Decides o) := by
  rw [services_eq_thread] at h
  refine map_of_thread (fun {s s' w w'} hw h => ?_) hw h
  split at h
  case isTrue hs =>
    obtain ⟨hw', o', ho', he⟩ := decides_of_service hs hw h
    cases ho o' ho'
    exact ⟨hw', he, fun _ => ho'⟩
  case isFalse hs =>
    cases h
    exact ⟨hw, (Outcome.onService_of_not_transferable hs).symm, fun h => absurd h hs⟩

theorem map_of_commemoration {o : Outcome} {c c' : Commemoration}
    (ho : ∀ o', t.Decides o' → o' = o) (hw : w.Fresh t)
    (h : (t.commemoration c w).result = .ok (c', w')) :
    w'.Fresh t ∧ c' = o.onCommemoration c ∧
      ((StandsForLessons c ∧ ∃ s ∈ c.allServices, isTransferable s) → t.Decides o) := by
  unfold commemoration at h
  split at h
  case h_1 ss hl hs =>
    obtain ⟨⟨ss', w₁⟩, hss, h⟩ := Logged.bind_eq_ok_iff.mp h
    obtain ⟨hw₁, hm, hd⟩ := map_of_services ho hw hss
    cases h
    refine ⟨hw₁, ?_, fun h => hd (by simpa [Commemoration.allServices, hs] using h.right)⟩
    rw [Outcome.onCommemoration, if_pos (isLesson_iff.mp hl), hs, hm, Option.map_some]
  case h_2 hn =>
    cases h
    have hs (hl : StandsForLessons c) : c.services = none :=
      Option.eq_none_iff_forall_not_mem.mpr fun ss hs => hn ss (isLesson_iff.mpr hl) hs
    refine ⟨hw, (Outcome.onCommemoration_of_no_services hs).symm, ?_⟩
    rintro ⟨hl, s, hm, _⟩
    simp [Commemoration.allServices, hs hl] at hm

end Transfer

-- A transfer that succeeds does the same to all liturgies with readings in the lessons of the day.
-- What it does is decided by the commands, with each neighbour asked afresh.
theorem applyTransfer_eq_onDay {l : Library} {d d' : Day} {rank : Int}
    (h : (applyTransfer l d rank).result = .ok d') :
    ∃ o : Outcome, d' = o.onDay d ∧
      (HasLessons d → ∀ o', (Transfer.ofDay l d rank).Decides o' ↔ o' = o) := by
  let t := Transfer.ofDay l d rank
  obtain ⟨o, ho⟩ : ∃ o, ∀ o', t.Decides o' → o' = o := by
    by_cases hd : ∃ o, t.Decides o
    case pos =>
      obtain ⟨o, hd⟩ := hd
      exact ⟨o, fun o' hd' => hd'.deterministic hd⟩
    case neg => exact ⟨.kept, fun o' hd' => absurd ⟨o', hd'⟩ hd⟩
  obtain ⟨⟨cs, w⟩, hcs, h⟩ := Logged.bind_eq_ok_iff.mp h
  rw [Transfer.commemorations_eq_thread] at hcs
  obtain ⟨_, hm, hd⟩ := Transfer.map_of_thread (f := t.commemoration)
    (Transfer.map_of_commemoration ho) (Borrowed.fresh_empty t) hcs
  cases h
  refine ⟨o, by rw [Outcome.onDay, hm], fun hl o' => ⟨ho o', ?_⟩⟩
  rintro rfl
  exact hd (by simpa only [HasLessons, isTransferable_iff] using hl)

-- The second day of Pascha has a lesson, which the third day asks for.
def brightWeek : Library where
  archive := .ofDocuments <| .ofList [
    ("xml/pentecostarion/02.xml", "<DAY><SAINT CId='9'/></DAY>"),
    ("xml/04/16.xml", "<DAY/>"),
    ("xml/lives/09.xml", "<LITURGY><SCRIPTURE Reading='Jn 1.18-28'/></LITURGY>"),
    ("xml/Commands/DivineLiturgy.xml", "<DATA/>")
  ]
  segments := []

def brightTuesday : Day where
  date           := ⟨2458604⟩
  tone           := 2
  rank           := 0
  fastingCode    := none
  commemorations := [{
    cid      := "9003"
    cycle    := .movable
    services := some [⟨.liturgy, some [⟨none, none, "Lk 24.12-35", none⟩]⟩]
  }]
  commands       := [⟨"TransferRulesF", "1", none⟩, ⟨"Class3Transfers", "dRank < 0", none⟩]

theorem applyTransfer_brightTuesday :
    let o := Outcome.extended [] [⟨none, none, "Jn 1.18-28", none⟩]
    (applyTransfer brightWeek brightTuesday 0).result = .ok (o.onDay brightTuesday) ∧
      ∃ o', o.onDay brightTuesday = o'.onDay brightTuesday ∧
        (HasLessons brightTuesday → ∀ o'', (Transfer.ofDay brightWeek brightTuesday 0).Decides o'' ↔
          o'' = o') :=
  have h := toOption_eq_some_iff.mp <|
    show (applyTransfer brightWeek brightTuesday 0).result.toOption = some _ by decide +kernel
  ⟨h, applyTransfer_eq_onDay h⟩

end Ordo.Day
