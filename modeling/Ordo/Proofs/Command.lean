import Ordo.Command
import Ordo.Proofs.Result

namespace Ordo

variable {cs before : List Command} {c : Command} {b : Bindings} {name : String} {r : Bool}
  {e : Formula.Error}

namespace Command

def Evaluates (c : Command) (b : Bindings) : Prop :=
  ∃ v, evaluate c.value b = .ok v

-- A command holds if its value does. One that does not evaluate is neither true nor false.
def Holds (c : Command) (b : Bindings) : Prop :=
  ∃ v, evaluate c.value b = .ok v ∧ v.holds

def IsFalse (c : Command) (b : Bindings) : Prop :=
  ∃ v, evaluate c.value b = .ok v ∧ ¬v.holds

theorem holds_eq_true_iff : c.holds b = .ok true ↔ c.Holds b :=
  map_eq_ok_iff

theorem holds_eq_false_iff : c.holds b = .ok false ↔ c.IsFalse b := by
  simp only [holds, map_eq_ok_iff, IsFalse, Bool.not_eq_true]

theorem holds_eq_error_iff : c.holds b = .error e ↔ evaluate c.value b = .error e := by
  rw [holds]
  cases evaluate c.value b <;> simp [Except.map]

theorem evaluates_iff : c.Evaluates b ↔ ∃ r, c.holds b = .ok r := by
  rw [Evaluates, holds]
  cases evaluate c.value b <;> simp [Except.map]

theorem not_evaluates_iff : ¬c.Evaluates b ↔ ∃ e, evaluate c.value b = .error e := by
  rw [Evaluates]
  cases evaluate c.value b <;> simp

theorem Holds.evaluates (h : c.Holds b) : c.Evaluates b :=
  h.imp fun _ hv => hv.1

theorem Evaluates.isFalse_iff (h : c.Evaluates b) : c.IsFalse b ↔ ¬c.Holds b := by
  obtain ⟨v, hv⟩ := h
  simp [IsFalse, Holds, hv]

def SomeHolds (cs : List Command) (name : String) (b : Bindings) : Prop :=
  ∃ c ∈ cs, c.name = name ∧ c.Holds b

def SomeIsFalse (cs : List Command) (name : String) (b : Bindings) : Prop :=
  ∃ c ∈ cs, c.name = name ∧ c.IsFalse b

-- A command that stops a transfer, and one that takes the readings away.
def Stops (c : Command) (b : Bindings) : Prop :=
  c.name = "Transfer" ∧ c.IsFalse b

def Suppresses (c : Command) (b : Bindings) : Prop :=
  (c.name = "Suppress" ∨ c.name = "Class3Transfers") ∧ c.Holds b

theorem mem_named_iff : c ∈ named name cs ↔ c ∈ cs ∧ c.name = name := by
  simp [named]

theorem anyHolds_eq_true_iff (h : anyHolds (named name cs) b = .ok r) :
    r = true ↔ SomeHolds cs name b := by
  rw [anyM_eq_true_iff h]
  simp only [mem_named_iff, holds_eq_true_iff, SomeHolds, and_assoc]

-- The first command of a table that has a property, and the commands ahead of it.
structure IsFirst (p : Command → Prop) (cs before : List Command) (c : Command) : Prop where
  splits : ∃ after, cs = before ++ c :: after
  found  : p c
  absent : ∀ d ∈ before, ¬p d

-- Of two commands of a table, one is ahead of the other or they are the same.
theorem ahead_or_eq {before' after after' : List Command} {c' : Command}
    (h : before ++ c :: after = before' ++ c' :: after') : c' ∈ before ∨ c' = c ∨ c ∈ before' := by
  rcases List.append_eq_append_iff.mp h with ⟨middle, hb, ha⟩ | ⟨middle, hb, ha⟩
  all_goals cases middle
  case inl.nil | inr.nil =>
    cases ha
    exact .inr (.inl rfl)
  case inl.cons =>
    cases ha
    exact .inr (.inr (by simp [hb]))
  case inr.cons =>
    cases ha
    exact .inl (by simp [hb])

-- What the commands of one name say is the same without the commands of other names.
theorem named_filter {name : String} {keep : Command → Bool}
    (h : ∀ c ∈ cs, c.name = name → keep c) : named name (cs.filter keep) = named name cs := by
  rw [named, named, List.filter_filter]
  refine List.filter_congr fun c hc => ?_
  by_cases hn : c.name = name
  case pos => simp [hn, h c hc hn]
  case neg => simp [hn]

end Command

namespace Day

open Command (Stops Suppresses IsFirst SomeHolds SomeIsFalse named anyHolds)

theorem suppresses_iff : suppresses c ↔ c.name = "Suppress" ∨ c.name = "Class3Transfers" := by
  simp [suppresses]

theorem checkStops_eq_ok_iff : (do return !(← c.holds b)) = .ok r ↔ c.holds b = .ok !r := by
  rcases c.holds b with _ | _ | _
  all_goals simp [bind, Except.bind, pure, Except.pure]

theorem checkSuppresses_eq_true_iff :
    (do return (← c.holds b) && suppresses c) = .ok true ↔ c.Suppresses b := by
  rw [Suppresses, ← suppresses_iff, ← Command.holds_eq_true_iff]
  cases c.holds b
  all_goals simp [bind, Except.bind, pure, Except.pure, and_comm]

theorem checkSuppresses_eq_false_iff :
    (do return (← c.holds b) && suppresses c) = .ok false ↔ c.Evaluates b ∧ ¬c.Suppresses b := by
  rw [Suppresses, ← suppresses_iff, ← Command.holds_eq_true_iff, Command.evaluates_iff]
  rcases c.holds b with _ | _ | _
  all_goals simp [bind, Except.bind, pure, Except.pure]

theorem checkSuppresses_eq_error_iff :
    (do return (← c.holds b) && suppresses c) = .error e ↔ evaluate c.value b = .error e := by
  rw [← Command.holds_eq_error_iff]
  cases c.holds b
  all_goals simp [bind, Except.bind, pure, Except.pure]

theorem transferDisabled_eq_true_iff (h : transferDisabled cs b = .ok r) :
    r = true ↔ SomeIsFalse cs "Transfer" b := by
  rw [anyM_eq_true_iff h]
  simp only [checkStops_eq_ok_iff, Bool.not_true, Command.holds_eq_false_iff,
    Command.mem_named_iff, SomeIsFalse, and_assoc]

theorem readingsSuppressed_eq_true_iff (h : readingsSuppressed cs b = .ok r) :
    r = true ↔ SomeHolds cs "Suppress" b ∨ SomeHolds cs "Class3Transfers" b := by
  rw [anyM_eq_true_iff h]
  simp only [checkSuppresses_eq_true_iff, Suppresses, SomeHolds, or_and_right, and_or_left,
    exists_or]

theorem exists_transferDisabled_eq (h : ∀ c ∈ cs, c.Evaluates b) :
    ∃ r, transferDisabled cs b = .ok r := by
  refine anyM_eq_ok fun c hc => ?_
  obtain ⟨r, hr⟩ := Command.evaluates_iff.mp (h c (Command.mem_named_iff.mp hc).1)
  exact ⟨!r, bind_eq_ok_iff.mpr ⟨r, hr, rfl⟩⟩

theorem exists_readingsSuppressed_eq (h : ∀ c ∈ cs, c.Evaluates b) :
    ∃ r, readingsSuppressed cs b = .ok r := by
  refine anyM_eq_ok fun c hc => ?_
  obtain ⟨r, hr⟩ := Command.evaluates_iff.mp (h c hc)
  exact ⟨r && suppresses c, bind_eq_ok_iff.mpr ⟨r, hr, rfl⟩⟩

theorem exists_anyHolds_eq (h : ∀ c ∈ cs, c.Evaluates b) (name : String) :
    ∃ r, anyHolds (named name cs) b = .ok r :=
  anyM_eq_ok fun c hc => Command.evaluates_iff.mp (h c (Command.mem_named_iff.mp hc).1)

-- What the two checks let through: a table that is evaluated as a whole, in which all `Transfer`
-- commands hold and nothing takes the readings away.
structure Passes (cs : List Command) (b : Bindings) : Prop where
  evaluates  : ∀ c ∈ cs, c.Evaluates b
  transfers  : ∀ c ∈ cs, c.name = "Transfer" → c.Holds b
  suppresses : ∀ c ∈ cs, c.name = "Suppress" ∨ c.name = "Class3Transfers" → c.IsFalse b

theorem transferDisabled_eq_false_iff : transferDisabled cs b = .ok false ↔
    ∀ c ∈ cs, c.name = "Transfer" → c.Holds b := by
  rw [transferDisabled, anyM_eq_false_iff]
  simp only [checkStops_eq_ok_iff, Bool.not_false, Command.holds_eq_true_iff,
    Command.mem_named_iff, and_imp]

theorem readingsSuppressed_eq_false_iff : readingsSuppressed cs b = .ok false ↔
    ∀ c ∈ cs, c.Evaluates b ∧ ¬c.Suppresses b := by
  rw [readingsSuppressed, anyM_eq_false_iff]
  simp only [checkSuppresses_eq_false_iff]

theorem passes_iff :
    transferDisabled cs b = .ok false ∧ readingsSuppressed cs b = .ok false ↔ Passes cs b := by
  rw [transferDisabled_eq_false_iff, readingsSuppressed_eq_false_iff]
  have hs {c : Command} (he : c.Evaluates b) : ¬c.Suppresses b ↔
      (c.name = "Suppress" ∨ c.name = "Class3Transfers" → c.IsFalse b) := by
    rw [he.isFalse_iff, Suppresses, not_and]
  constructor
  case mp =>
    rintro ⟨ht, h⟩
    exact ⟨fun c hc => (h c hc).1, ht, fun c hc => (hs (h c hc).1).mp (h c hc).2⟩
  case mpr =>
    intro h
    exact ⟨h.transfers, fun c hc =>
      ⟨h.evaluates c hc, (hs (h.evaluates c hc)).mpr (h.suppresses c hc)⟩⟩

theorem anyM_eq_true_iff_first {p : Command → Except Formula.Error Bool}
    {passed found : Command → Prop} (hf : ∀ c, p c = .ok false ↔ passed c ∧ ¬found c)
    (ht : ∀ c, p c = .ok true ↔ found c) :
    cs.anyM p = .ok true ↔ ∃ before c, IsFirst found cs before c ∧ ∀ d ∈ before, passed d := by
  rw [anyM_eq_iff (by simp)]
  simp only [hf, ht]
  constructor
  case mp =>
    rintro ⟨before, c, after, h, hb, hc⟩
    exact ⟨before, c, ⟨⟨after, h⟩, hc, fun d hd => (hb d hd).2⟩, fun d hd => (hb d hd).1⟩
  case mpr =>
    rintro ⟨before, c, ⟨⟨after, h⟩, hc, hn⟩, he⟩
    exact ⟨before, c, after, h, fun d hd => ⟨he d hd, hn d hd⟩, hc⟩

theorem readingsSuppressed_eq_true_iff_first : readingsSuppressed cs b = .ok true ↔
    ∃ before c, IsFirst (·.Suppresses b) cs before c ∧ ∀ d ∈ before, d.Evaluates b :=
  anyM_eq_true_iff_first (fun _ => checkSuppresses_eq_false_iff)
    (fun _ => checkSuppresses_eq_true_iff)

-- The failure that comes to light is that of the first command which fails.
theorem readingsSuppressed_eq_error_iff :
    readingsSuppressed cs b = .error e ↔ ∃ before c, IsFirst (¬·.Evaluates b) cs before c ∧
      evaluate c.value b = .error e ∧ ∀ d ∈ before, ¬d.Suppresses b := by
  rw [readingsSuppressed, anyM_eq_iff (by simp)]
  simp only [checkSuppresses_eq_false_iff, checkSuppresses_eq_error_iff]
  constructor
  case mp =>
    rintro ⟨before, c, after, h, hb, hc⟩
    have hf : ¬c.Evaluates b := Command.not_evaluates_iff.mpr ⟨e, hc⟩
    exact ⟨before, c, ⟨⟨after, h⟩, hf, fun d hd => Classical.not_not.mpr (hb d hd).1⟩, hc,
      fun d hd => (hb d hd).2⟩
  case mpr =>
    rintro ⟨before, c, ⟨⟨after, h⟩, -, he⟩, hc, hn⟩
    exact ⟨before, c, after, h, fun d hd => ⟨Classical.not_not.mp (he d hd), hn d hd⟩, hc⟩

-- A failing command makes the check fail unless a command that suppresses stands ahead of it. Other
-- failing commands may.
theorem readingsSuppressed_fails_iff : (∃ e, readingsSuppressed cs b = .error e) ↔
    ∃ before c after, cs = before ++ c :: after ∧ ¬c.Evaluates b ∧
      ∀ d ∈ before, ¬d.Suppresses b := by
  constructor
  case mp =>
    rintro ⟨e, he⟩
    obtain ⟨before, c, ⟨⟨after, h⟩, hc, -⟩, -, hn⟩ := readingsSuppressed_eq_error_iff.mp he
    exact ⟨before, c, after, h, hc, hn⟩
  case mpr =>
    rintro ⟨before, c, after, h, hc, hn⟩
    rcases hr : readingsSuppressed cs b with e | _ | _
    case error => exact ⟨e, rfl⟩
    case ok.false =>
      exact absurd (readingsSuppressed_eq_false_iff.mp hr c (by simp [h])).1 hc
    case ok.true =>
      obtain ⟨before', c', ⟨⟨after', h'⟩, hs, -⟩, he⟩ := readingsSuppressed_eq_true_iff_first.mp hr
      rcases Command.ahead_or_eq (h.symm.trans h') with hb | rfl | hb
      · exact absurd hs (hn c' hb)
      · exact absurd hs.2.evaluates hc
      · exact absurd (he c hb) hc

theorem checkStops_among_eq_false_iff :
    (if c.name = "Transfer" then (do return !(← c.holds b)) else .ok false) = .ok false ↔
      (c.name = "Transfer" → c.Evaluates b) ∧ ¬c.Stops b := by
  rw [Stops]
  split
  case isTrue hn =>
    rw [checkStops_eq_ok_iff, ← Command.holds_eq_false_iff, Command.evaluates_iff]
    rcases c.holds b with _ | _ | _
    all_goals simp [hn]
  case isFalse hn => simp [hn]

theorem checkStops_among_eq_true_iff :
    (if c.name = "Transfer" then (do return !(← c.holds b)) else .ok false) = .ok true ↔
      c.Stops b := by
  rw [Stops]
  split
  case isTrue hn =>
    rw [checkStops_eq_ok_iff, Bool.not_true, Command.holds_eq_false_iff, and_iff_right hn]
  case isFalse hn => simp [hn]

theorem transferDisabled_eq_true_iff_first : transferDisabled cs b = .ok true ↔
    ∃ before c, IsFirst (·.Stops b) cs before c ∧
      ∀ d ∈ before, d.name = "Transfer" → d.Evaluates b := by
  rw [transferDisabled, named, anyM_filter]
  simp only [decide_eq_true_iff]
  exact anyM_eq_true_iff_first (fun _ => checkStops_among_eq_false_iff)
    (fun _ => checkStops_among_eq_true_iff)

-- What the checks in front of a transfer find, and which failing commands come to light in them.
-- Commands of other names, failing or not, matter to the second check only.
theorem checks_by_place (cs : List Command) (b : Bindings) :
    (transferDisabled cs b = .ok false → readingsSuppressed cs b = .ok false →
      Passes cs b ∧ ∀ name, ∃ r, anyHolds (named name cs) b = .ok r) ∧
    (readingsSuppressed cs b = .ok true ↔
      ∃ before c, IsFirst (·.Suppresses b) cs before c ∧ ∀ d ∈ before, d.Evaluates b) ∧
    ((∃ e, readingsSuppressed cs b = .error e) ↔
      ∃ before c after, cs = before ++ c :: after ∧ ¬c.Evaluates b ∧
        ∀ d ∈ before, ¬d.Suppresses b) ∧
    (transferDisabled cs b = .ok true ↔
      ∃ before c, IsFirst (·.Stops b) cs before c ∧
        ∀ d ∈ before, d.name = "Transfer" → d.Evaluates b) ∧
    ∀ keep : Command → Bool,
      ((∀ c ∈ cs, c.name = "Transfer" → keep c) →
        transferDisabled (cs.filter keep) b = transferDisabled cs b) ∧
      ∀ name, (∀ c ∈ cs, c.name = name → keep c) →
        anyHolds (named name (cs.filter keep)) b = anyHolds (named name cs) b := by
  refine ⟨fun ht hs => ?_, readingsSuppressed_eq_true_iff_first, readingsSuppressed_fails_iff,
    transferDisabled_eq_true_iff_first, fun keep => ⟨fun h => ?_, fun name h => ?_⟩⟩
  case refine_1 =>
    have h := passes_iff.mp ⟨ht, hs⟩
    exact ⟨h, exists_anyHolds_eq h.evaluates⟩
  case refine_2 => rw [transferDisabled, transferDisabled, Command.named_filter h]
  case refine_3 => rw [Command.named_filter h]

-- A command that cannot be evaluated, in front of one that suppresses and behind it.
theorem checks_by_place_unbound :
    let rule : Command := ⟨"TransferRulesB", "unbound", none⟩
    let suppress : Command := ⟨"Suppress", "1", none⟩
    let transfer : Command := ⟨"Transfer", "1", none⟩
    (∃ e, readingsSuppressed [transfer, rule, suppress] ∅ = .error e) ∧
      readingsSuppressed [transfer, suppress, rule] ∅ = .ok true ∧
      transferDisabled [transfer, rule, suppress] ∅ = transferDisabled [transfer] ∅ ∧
      Passes [transfer] ∅ := by
  intro rule suppress transfer
  have hr : ¬rule.Evaluates ∅ := by
    rintro ⟨v, hv⟩
    have hf : (evaluate rule.value ∅).toOption = none := by decide +kernel
    rw [hv] at hf
    cases hf
  have h1 : evaluate "1" ∅ = .ok (.number 1.0) := toOption_eq_some_iff.mp (by decide +kernel)
  have hs : suppress.Suppresses ∅ := ⟨.inl rfl, _, h1, by decide +kernel⟩
  have ht : transfer.Evaluates ∅ := ⟨_, h1⟩
  have hn : ¬transfer.Suppresses ∅ := by simp [Suppresses, transfer]
  obtain ⟨-, -, hf, -, hk⟩ := checks_by_place [transfer, rule, suppress] ∅
  obtain ⟨-, hs', -⟩ := checks_by_place [transfer, suppress, rule] ∅
  obtain ⟨hp, -⟩ := checks_by_place [transfer] ∅
  refine ⟨hf.mpr ⟨[transfer], rule, [suppress], rfl, hr, by simpa using hn⟩,
    hs'.mpr ⟨[transfer], suppress, ⟨⟨[rule], rfl⟩, hs, by simpa using hn⟩,
      by simpa using ht⟩,
    ((hk (·.name = "Transfer")).1 (by simp)).symm, (hp ?_ ?_).1⟩
  case refine_1 => exact toOption_eq_some_iff.mp (by decide +kernel)
  case refine_2 => exact toOption_eq_some_iff.mp (by decide +kernel)

end Day

end Ordo
