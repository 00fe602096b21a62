import Ordo.Proofs.Markup.Balance
import Ordo.Proofs.Result

namespace Ordo.Markup

-- The elements that are open behind a row of events, innermost first, with `opened` open before it.
-- There are none if the name that an event leaves does not fit the innermost that was entered.
def openBy? (fits : String → String → Bool) : List String → List Event → Option (List String)
  | opened, []                      => some opened
  | opened, .enter tag _ :: es      => openBy? fits (tag :: opened) es
  | opened, .text _ :: es           => openBy? fits opened es
  | tag :: opened, .exit tag' :: es => if fits tag tag' then openBy? fits opened es else none
  | [], .exit _ :: _                => none

def BalancedBy (fits : String → String → Bool) (es : List Event) : Prop :=
  openBy? fits [] es = some []

theorem openBy?_beq (opened : List String) (es : List Event) :
    openBy? (fun tag tag' => tag' == tag) opened es = openBehind? opened es := by
  induction es generalizing opened
  case nil => rfl
  case cons e es hi =>
    cases e
    case enter => exact hi _
    case text  => exact hi _
    case exit tag' =>
      cases opened
      case nil  => rfl
      case cons => simp only [openBy?, openBehind?, hi, beq_iff_eq]

theorem balancedBy_beq_iff {es : List Event} :
    BalancedBy (fun tag tag' => tag' == tag) es ↔ Balanced es := by
  rw [BalancedBy, openBy?_beq, Balanced]

namespace Pruner

variable {p p' : Pruner} {e : Event} {b : Bindings} {kept : Option Event} {marks : List Bool}

section Transition

-- What an event that is taken without a failure does to the state, and what is yielded.
inductive Transition : Pruner → Event → Pruner → Option Event → Prop
  | skipped {marks tag attributes} :
    Transition ⟨true, marks⟩ (.enter tag attributes) ⟨true, false :: marks⟩ none
  | entered {marks tag attributes} :
    Transition ⟨false, marks⟩ (.enter tag attributes) ⟨false, false :: marks⟩
      (some (.enter tag attributes))
  | leftOut {marks tag attributes} :
    Transition ⟨false, marks⟩ (.enter tag attributes) ⟨true, true :: marks⟩ none
  | resumed {skipping marks tag} :
    Transition ⟨skipping, true :: marks⟩ (.exit tag) ⟨false, marks⟩ none
  | exit {skipping marks tag} :
    marks.head? ≠ some true →
    Transition ⟨skipping, marks⟩ (.exit tag) ⟨skipping, marks.tail⟩
      (if skipping then none else some (.exit tag))
  | text {p s} :
    Transition p (.text s) p (if p.skipping then none else some (.text s))

theorem transition_of_feed (h : p.feed e b = .ok (p', kept)) : Transition p e p' kept := by
  obtain ⟨skipping, marks⟩ := p
  cases e
  case enter tag attributes =>
    cases skipping
    case true =>
      cases h
      exact .skipped
    case false =>
      obtain ⟨holds, _, h⟩ := bind_eq_ok_iff.mp h
      cases holds
      all_goals cases h
      case true  => exact .entered
      case false => exact .leftOut
  case exit tag =>
    rcases marks with _ | ⟨_ | _, marks⟩
    case nil =>
      cases h
      exact .exit nofun
    case cons.false =>
      cases h
      exact .exit nofun
    case cons.true =>
      cases h
      exact .resumed
  case text s =>
    cases h
    exact .text

end Transition

-- The skipping is on while one of the open elements is marked, and no two of them are.
structure Marked (p : Pruner) : Prop where
  skipping_iff : p.skipping = true ↔ true ∈ p.marks
  count_le     : p.marks.count true ≤ 1

theorem marked_start : Marked {} where
  skipping_iff := by simp
  count_le     := Nat.zero_le _

theorem Marked.not_mem (h : Marked ⟨false, marks⟩) : true ∉ marks :=
  fun hm => Bool.noConfusion (h.skipping_iff.mpr hm)

theorem Marked.of_transition (hp : p.Marked) (h : Transition p e p' kept) : p'.Marked := by
  cases h
  case skipped => exact ⟨by simpa using hp.skipping_iff, by simpa using hp.count_le⟩
  case entered => exact ⟨by simpa using hp.skipping_iff, by simpa using hp.count_le⟩
  case leftOut marks _ _ =>
    have hc : marks.count true = 0 := List.count_eq_zero.mpr hp.not_mem
    exact ⟨by simp, by simp [hc]⟩
  case resumed marks _ =>
    have hc : marks.count true = 0 := by simpa using hp.count_le
    exact ⟨by simpa using List.count_eq_zero.mp hc, hc ▸ Nat.zero_le _⟩
  case exit marks _ hm =>
    rcases marks with _ | ⟨_ | _, marks⟩
    case nil        => exact hp
    case cons.false => exact ⟨by simpa using hp.skipping_iff, by simpa using hp.count_le⟩
    case cons.true  => exact absurd rfl hm
  case text => exact hp

-- How deep a row of events goes, if a level that is not there cannot be left.
def depthBehind (depth : Nat) : Event → Nat
  | .enter _ _ => depth + 1
  | .exit _    => depth - 1
  | .text _    => depth

theorem depth_of_transition (h : Transition p e p' kept) : p'.depth = depthBehind p.depth e := by
  cases h
  case exit  => exact List.length_tail
  all_goals rfl

section Balance

variable {fits : String → String → Bool} {opened opened' : List String} {es : List Event}

-- Of the elements that are open inside of each other, those around the marked one.
def outside : List Bool → List String → List String
  | true :: _, _ :: opened      => opened
  | false :: marks, _ :: opened => outside marks opened
  | _, _                        => []

-- The open elements that have been yielded.
def visible (p : Pruner) (opened : List String) : List String :=
  if p.skipping then outside p.marks opened else opened

-- The visible elements before and behind an event are those that the yielded events leave open.
theorem exists_opened_of_transition (hp : p.Marked) (h : Transition p e p' kept)
    (hl : p.marks.length = opened.length) (ho : openBy? fits opened (e :: es) = some opened') :
    ∃ opened₁, p'.marks.length = opened₁.length ∧ openBy? fits opened₁ es = some opened' ∧
      ∀ es', openBy? fits (p.visible opened) (kept.toList ++ es') =
        openBy? fits (p'.visible opened₁) es' := by
  cases h
  case skipped tag _ => exact ⟨tag :: opened, congrArg (· + 1) hl, ho, fun _ => rfl⟩
  case entered tag _ => exact ⟨tag :: opened, congrArg (· + 1) hl, ho, fun _ => rfl⟩
  case leftOut tag _ => exact ⟨tag :: opened, congrArg (· + 1) hl, ho, fun _ => rfl⟩
  case text s =>
    refine ⟨opened, hl, ho, fun es' => ?_⟩
    cases p.skipping <;> rfl
  case resumed skipping marks tag' =>
    obtain rfl : skipping = true := hp.skipping_iff.mpr List.mem_cons_self
    cases opened
    case nil => cases ho
    case cons tag opened =>
      rw [openBy?] at ho
      split at ho
      case isFalse => cases ho
      case isTrue  => exact ⟨opened, Nat.succ.inj hl, ho, fun _ => rfl⟩
  case exit skipping marks tag' hm =>
    cases opened
    case nil => cases ho
    case cons tag opened =>
      rw [openBy?] at ho
      split at ho
      case isFalse => cases ho
      case isTrue hf =>
        rcases marks with _ | ⟨_ | _, marks⟩
        case nil       => cases hl
        case cons.true => exact absurd rfl hm
        case cons.false =>
          refine ⟨opened, Nat.succ.inj hl, ho, fun es' => ?_⟩
          cases skipping
          case false => exact if_pos hf
          case true  => rfl

end Balance

-- The event that the pruner takes, and the bindings at that moment.
structure Call where
  event    : Event
  bindings : Bindings

-- What a call gives: a failure, or the event if it is kept.
abbrev Answer := Except Formula.Error (Option Event)

def Answer.yielded : Answer → List Event
  | .ok kept => kept.toList
  | .error _ => []

def call (p : Pruner) (c : Call) : Answer × Pruner :=
  (take c.event c.bindings).run.run p

-- The state behind a row of calls.
def after (p : Pruner) (cs : List Call) : Pruner :=
  cs.foldl (fun p c => (p.call c).2) p

def answers (p : Pruner) : List Call → List Answer
  | []      => []
  | c :: cs => (p.call c).1 :: (p.call c).2.answers cs

-- The events of the calls that do not fail.
def taken (p : Pruner) : List Call → List Event
  | []      => []
  | c :: cs =>
    match p.call c with
    | (.ok _, p')    => c.event :: p'.taken cs
    | (.error _, p') => p'.taken cs

-- The state in place is the one that `feed` gives, and the old one if `feed` gives none.
theorem call_eq (p : Pruner) (c : Call) : p.call c =
    match p.feed c.event c.bindings with
    | .ok (p', kept) => (.ok kept, p')
    | .error f       => (.error f, p) := by
  obtain ⟨e, b⟩ := c
  obtain ⟨skipping, marks⟩ := p
  cases e
  case enter tag attributes =>
    cases skipping
    case true => rfl
    case false =>
      simp only [feed, call, take]
      rcases h : guardHolds attributes b with f | _ | _
      case error    => rfl
      case ok.false => rfl
      case ok.true  => rfl
  case exit tag =>
    rcases marks with _ | ⟨_ | _, marks⟩
    all_goals cases skipping <;> rfl
  case text s => cases skipping <;> rfl

variable {c : Call} {cs : List Call}

theorem call_cases (p : Pruner) (c : Call) :
    (∃ p' kept, p.call c = (.ok kept, p') ∧ Transition p c.event p' kept) ∨
      ∃ f, p.call c = (.error f, p) := by
  rw [call_eq]
  rcases h : p.feed c.event c.bindings with f | ⟨p', kept⟩
  case error => exact .inr ⟨f, rfl⟩
  case ok    => exact .inl ⟨p', kept, rfl, transition_of_feed h⟩

theorem call_of_error {f : Formula.Error} (h : (p.call c).1 = .error f) : (p.call c).2 = p := by
  rcases call_cases p c with ⟨p', kept, hc, -⟩ | ⟨f', hc⟩
  case inl =>
    rw [hc] at h
    cases h
  case inr => rw [hc]

theorem Marked.after (hp : p.Marked) (cs : List Call) : (p.after cs).Marked := by
  induction cs generalizing p
  case nil => exact hp
  case cons c cs hi =>
    refine hi (p := (p.call c).2) ?_
    rcases call_cases p c with ⟨p', kept, hc, ht⟩ | ⟨f, hc⟩
    case inl => exact hc ▸ hp.of_transition ht
    case inr => exact hc ▸ hp

theorem depth_after (p : Pruner) (cs : List Call) :
    (p.after cs).depth = (p.taken cs).foldl depthBehind p.depth := by
  induction cs generalizing p
  case nil => rfl
  case cons c cs hi =>
    rw [after, List.foldl_cons, ← after, hi, taken]
    rcases call_cases p c with ⟨p', kept, hc, ht⟩ | ⟨f, hc⟩
    case inl =>
      simp only [hc, List.foldl_cons]
      rw [depth_of_transition ht]
    case inr => simp only [hc]

-- By induction on the calls. The yielded events leave those elements open that are visible.
theorem exists_opened_after {fits : String → String → Bool} {opened opened' : List String}
    (hp : p.Marked) (hl : p.marks.length = opened.length)
    (ho : openBy? fits opened (cs.map (·.event)) = some opened')
    (hr : ∀ r ∈ p.answers cs, ∃ kept, r = .ok kept) :
    (p.after cs).marks.length = opened'.length ∧
      openBy? fits (p.visible opened) ((p.answers cs).flatMap Answer.yielded) =
        some ((p.after cs).visible opened') := by
  induction cs generalizing p opened
  case nil =>
    cases ho
    exact ⟨hl, rfl⟩
  case cons c cs hi =>
    obtain ⟨hr, hrs⟩ := List.forall_mem_cons.mp hr
    rcases call_cases p c with ⟨p', kept, hc, ht⟩ | ⟨f, hc⟩
    case inr =>
      obtain ⟨kept, hk⟩ := hr
      rw [hc] at hk
      cases hk
    case inl =>
      obtain ⟨opened₁, hl, ho, hv⟩ := exists_opened_of_transition hp ht hl ho
      rw [after, List.foldl_cons, ← after, answers, List.flatMap_cons, hc]
      rw [hc] at hrs
      obtain ⟨hl, hb⟩ := hi (hp.of_transition ht) hl ho hrs
      exact ⟨hl, (hv _).trans hb⟩

theorem balanced_after {fits : String → String → Bool} (h : BalancedBy fits (cs.map (·.event)))
    (hr : ∀ r ∈ answers {} cs, ∃ kept, r = .ok kept) :
    BalancedBy fits ((answers {} cs).flatMap Answer.yielded) ∧ after {} cs = {} := by
  obtain ⟨hl, hb⟩ := exists_opened_after marked_start rfl h hr
  have hm := marked_start.after cs
  rcases he : after {} cs with ⟨skipping, marks⟩
  rw [he] at hl hb hm
  cases List.length_eq_zero_iff.mp hl
  cases skipping
  case true  => cases hm.skipping_iff.mp rfl
  case false => exact ⟨hb, rfl⟩

-- What holds after any row of calls on a new pruner. The names of the elements are of no account to
-- it, so what is yielded is balanced in whatever way the names of the taken events fit.
theorem after_calls (cs : List Call) :
    let p := after {} cs
    p.Marked ∧ p.depth = (taken {} cs).foldl depthBehind 0 ∧
    (∀ c f, (p.call c).1 = .error f → (p.call c).2 = p) ∧
    ((∀ r ∈ answers {} cs, ∃ kept, r = .ok kept) →
      (∀ fits, BalancedBy fits (cs.map (·.event)) →
        BalancedBy fits ((answers {} cs).flatMap Answer.yielded) ∧ p = {}) ∧
      (Balanced (cs.map (·.event)) →
        Balanced ((answers {} cs).flatMap Answer.yielded) ∧ p = {})) := by
  refine ⟨marked_start.after cs, depth_after {} cs, fun _ _ => call_of_error, fun hr => ?_⟩
  refine ⟨fun fits h => balanced_after h hr, fun h => ?_⟩
  rw [← balancedBy_beq_iff] at h ⊢
  exact balanced_after h hr

def guarded (tag : String) : Event :=
  .enter tag (.ofList [(guardAttribute, "x")])

-- The guard of `B` does not hold, but that of `C` does.
def calls : List Call := [
  ⟨.enter "A" ∅, ∅⟩, ⟨guarded "B", .ofList [("x", .text "")]⟩, ⟨.enter "A" ∅, ∅⟩, ⟨.exit "A", ∅⟩,
  ⟨.exit "B", ∅⟩, ⟨guarded "C", .ofList [("x", .text "1")]⟩, ⟨.text "a", ∅⟩, ⟨.exit "C", ∅⟩,
  ⟨.exit "A", ∅⟩
]

theorem after_calls_guarded :
    let inside := calls.take 4
    let unbound : Call := ⟨guarded "D", ∅⟩
    after {} inside = ⟨true, [true, false]⟩ ∧ (after {} inside).Marked ∧
    ((after {} []).call unbound).1 = .error (.unbound "x" "x") ∧
    ((after {} []).call unbound).2 = after {} [] ∧
    Balanced (calls.map (·.event)) ∧
    (answers {} calls).flatMap Answer.yielded =
      [.enter "A" ∅, guarded "C", .text "a", .exit "C", .exit "A"] ∧
    Balanced ((answers {} calls).flatMap Answer.yielded) ∧ after {} calls = {} := by
  intro inside unbound
  have hf : ((after {} []).call ⟨guarded "D", ∅⟩).1 = .error (.unbound "x" "x") :=
    errorOf?_eq_some_iff.mp (by decide +kernel)
  have hb : Balanced (calls.map (·.event)) := by
    rw [Balanced]
    decide +kernel
  have hr : ∀ r ∈ answers {} calls, ∃ kept, r = .ok kept := by
    have h : ∀ r ∈ answers {} calls, r.toOption.isSome := by decide +kernel
    intro r hr
    obtain ⟨kept, hk⟩ := Option.isSome_iff_exists.mp (h r hr)
    exact ⟨kept, toOption_eq_some_iff.mp hk⟩
  refine ⟨by decide +kernel, (after_calls inside).1, hf, ?_, hb, by decide +kernel, ?_⟩
  · exact (after_calls []).2.2.1 unbound _ hf
  · exact ((after_calls calls).2.2.2 hr).2 hb

end Pruner

end Ordo.Markup
