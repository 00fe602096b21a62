import Ordo.Proofs.Document.Walk
import Ordo.Proofs.Markup.Nesting
import Ordo.Proofs.Markup.Pruning

namespace Ordo.Document

open Markup (Attributes Element Event Forest Pruner guardHolds)

-- The last service that is entered in a row of events.
def lastService? (es : List Event) : Option Element :=
  es.reverse.findSome? serviceOf?

-- The events that remain of a forest behind the kept events `before`, and the first guard without
-- a value, at which they end.
def remains (b : Bindings) (before : List Event) : Forest → List Event × Option Formula.Error
  | .nil => ([], none)
  | .text s behind =>
    let (es, f) := remains b (before ++ [.text s]) behind
    (.text s :: es, f)
  | .element tag attributes content behind =>
    match guardHolds attributes (rankedBy b (lastService? before)) with
    | .error f  => ([], some f)
    | .ok false => remains b before behind
    | .ok true =>
      match remains b (before ++ [.enter tag attributes]) content with
      | (es, some f) => (.enter tag attributes :: es, some f)
      | (es, none) =>
        let element := .enter tag attributes :: es ++ [.exit tag]
        let (es', f) := remains b (before ++ element) behind
        (element ++ es', f)

-- What is known of a biography when its reading ends, and the bindings at that point.
abbrev Ending := Except Error Biography × Bindings

-- Reads the events `es` behind the events `before`, and goes on with `k` behind all of them.
def readThen (b : Bindings) (k : Walk → List Event → Ending) (w : Walk) (before : List Event) :
    List Event → Ending
  | [] => k w before
  | e :: es =>
    match w.read e with
    | .error f => (.error f, rankedBy b (lastService? before))
    | .ok w    => readThen b k w (before ++ [e]) es

variable {b : Bindings} {before es es' : List Event} {e : Event} {f : Formula.Error} {w w' : Walk}
  {tag : String} {attributes : Attributes} {content behind : Forest} {marks : List Bool}
  {k k' : Walk → List Event → Ending}

theorem lastService?_append (es es' : List Event) :
    lastService? (es ++ es') = (lastService? es').or (lastService? es) := by
  rw [lastService?, List.reverse_append, List.findSome?_append]
  rfl

theorem lastService?_singleton (e : Event) : lastService? [e] = serviceOf? e := by
  cases h : serviceOf? e <;> simp [lastService?, h]

theorem rankedBy_lastService?_concat (b : Bindings) (before : List Event) (e : Event) :
    rankedBy (rankedBy b (lastService? before)) (serviceOf? e) =
      rankedBy b (lastService? (before ++ [e])) := by
  rw [rankedBy_rankedBy, lastService?_append, lastService?_singleton]

theorem remains_of_failed (h : guardHolds attributes (rankedBy b (lastService? before)) = .error f) :
    remains b before (.element tag attributes content behind) = ([], some f) := by
  simp only [remains, h]

theorem remains_of_left_out
    (h : guardHolds attributes (rankedBy b (lastService? before)) = .ok false) :
    remains b before (.element tag attributes content behind) = remains b before behind := by
  simp only [remains, h]

theorem remains_of_stopped
    (h : guardHolds attributes (rankedBy b (lastService? before)) = .ok true)
    (hc : remains b (before ++ [.enter tag attributes]) content = (es, some f)) :
    remains b before (.element tag attributes content behind) =
      (.enter tag attributes :: es, some f) := by
  simp only [remains, h, hc]

theorem remains_of_kept
    (h : guardHolds attributes (rankedBy b (lastService? before)) = .ok true)
    (hc : remains b (before ++ [.enter tag attributes]) content = (es, none)) :
    remains b before (.element tag attributes content behind) =
      let element := .enter tag attributes :: es ++ [.exit tag]
      (element ++ (remains b (before ++ element) behind).1,
        (remains b (before ++ element) behind).2) := by
  simp only [remains, h, hc]

-- The reading of events in two parts. What comes behind the first part is asked there only.
theorem readThen_trans (h : ∀ w, k w (before ++ es) = readThen b k' w (before ++ es) es') :
    readThen b k w before es = readThen b k' w before (es ++ es') := by
  induction es generalizing w before
  case nil =>
    have h := h w
    rwa [List.append_nil] at h
  case cons e es hi =>
    rw [List.cons_append, readThen, readThen]
    split
    case h_1 => rfl
    case h_2 => exact hi (by simpa using h)

-- Ends with the error `f`, if there is one.
def stopOr (b : Bindings) (k : Walk → List Event → Ending) :
    Option Formula.Error → Walk → List Event → Ending
  | none   => k
  | some f => fun _ before => (.error (.formula f), rankedBy b (lastService? before))

namespace Walk

-- The run behind the events `before`, inside of open elements that are kept.
def runBehind (b : Bindings) (marks : List Bool) (es : List Event) (w : Walk)
    (before : List Event) : Ending :=
  w.run ⟨false, marks⟩ (rankedBy b (lastService? before)) es

theorem runBehind_of_kept {marks' : List Bool}
    (h : (⟨false, marks⟩ : Pruner).feed e (rankedBy b (lastService? before)) =
      .ok (⟨false, marks'⟩, some e)) :
    runBehind b marks (e :: es) w before = readThen b (runBehind b marks' es) w before [e] := by
  rw [runBehind, run, readThen]
  simp only [h, step_eq]
  cases w.read e
  case error => rfl
  case ok    => simp only [Except.map, rankedBy_lastService?_concat, readThen, runBehind]

theorem runBehind_text {s : String} :
    runBehind b marks (.text s :: es) w before =
      readThen b (runBehind b marks es) w before [.text s] :=
  runBehind_of_kept rfl

theorem runBehind_exit :
    runBehind b (false :: marks) (.exit tag :: es) w before =
      readThen b (runBehind b marks es) w before [.exit tag] :=
  runBehind_of_kept rfl

theorem runBehind_enter
    (h : guardHolds attributes (rankedBy b (lastService? before)) = .ok true) :
    runBehind b marks ((Forest.element tag attributes content behind).events ++ es) w before =
      readThen b (runBehind b (false :: marks)
        (content.events ++ .exit tag :: (behind.events ++ es))) w before [.enter tag attributes] := by
  rw [Forest.events, List.cons_append, List.append_assoc, List.cons_append]
  exact runBehind_of_kept (by simp [Pruner.feed, h, bind, Except.bind, pure, Except.pure])

theorem runBehind_failed
    (h : guardHolds attributes (rankedBy b (lastService? before)) = .error f) :
    runBehind b marks (.enter tag attributes :: es) w before =
      (.error (.formula f), rankedBy b (lastService? before)) := by
  simp [runBehind, run, Pruner.feed, h, bind, Except.bind]

theorem runBehind_left_out
    (h : guardHolds attributes (rankedBy b (lastService? before)) = .ok false) :
    runBehind b marks ((Forest.element tag attributes content behind).events ++ es) w before =
      runBehind b marks (behind.events ++ es) w before :=
  Pruner.skip_element (r := fun p => w.run p (rankedBy b (lastService? before)))
    (fun p p' e es he => by simp [run, he]) h content behind marks es

-- The simulation, for a forest in any open elements and with any events around it. In the parts
-- that are kept, the marks behind a forest are those before it.
theorem runBehind_events (t : Forest) (w : Walk) (before : List Event) (marks : List Bool)
    (es : List Event) :
    runBehind b marks (t.events ++ es) w before =
      readThen b (stopOr b (runBehind b marks es) (remains b before t).2) w before
        (remains b before t).1 := by
  induction t generalizing w before marks es
  case nil => rfl
  case text s behind hb =>
    exact runBehind_text.trans (readThen_trans fun w => hb w _ marks es)
  case element tag attributes content behind hc hb =>
    rcases hg : guardHolds attributes (rankedBy b (lastService? before)) with f | _ | _
    case error =>
      rw [remains_of_failed hg]
      exact runBehind_failed hg
    case ok.false => rw [runBehind_left_out hg, hb, remains_of_left_out hg]
    case ok.true =>
      rw [runBehind_enter hg, readThen_trans fun w => hc w _ _ _]
      rcases hr : remains b (before ++ [.enter tag attributes]) content with ⟨es', _ | f⟩
      case some =>
        rw [hr, remains_of_stopped hg hr]
        rfl
      case none =>
        let opened := .enter tag attributes :: es'
        let closed := opened ++ [.exit tag]
        have hx (w : Walk) :
            runBehind b (false :: marks) (.exit tag :: (behind.events ++ es)) w (before ++ opened) =
              readThen b (stopOr b (runBehind b marks es) (remains b (before ++ closed) behind).2) w
                (before ++ opened) ([.exit tag] ++ (remains b (before ++ closed) behind).1) := by
          refine runBehind_exit.trans (readThen_trans fun w => ?_)
          rw [List.append_assoc]
          exact hb w (before ++ closed) marks es
        rw [hr, remains_of_kept hg hr]
        dsimp only
        rw [List.append_assoc]
        exact readThen_trans hx

-- The record has the rank of the last service that was read.
theorem rank_of_foldlM (h : es.foldlM read w = .ok w') :
    w'.biography.rank = ((lastService? es).map declaredRank).or w.biography.rank := by
  induction es generalizing w
  case nil =>
    cases h
    rfl
  case cons e es hi =>
    rw [List.foldlM_cons] at h
    obtain ⟨w'', he, h⟩ := bind_eq_ok_iff.mp h
    rw [hi h, rank_of_read he, ← List.singleton_append, lastService?_append,
      lastService?_singleton, Option.map_or, Option.or_assoc]

end Walk

-- A reading comes to the end of its events, or to an error behind some of them.
theorem readThen_cases (b : Bindings) (k : Walk → List Event → Ending) (w : Walk)
    (before es : List Event) :
    (∃ w', es.foldlM Walk.read w = .ok w' ∧ readThen b k w before es = k w' (before ++ es)) ∨
    ∃ read f, read <+: es ∧ es.foldlM Walk.read w = .error f ∧
      readThen b k w before es = (.error f, rankedBy b (lastService? (before ++ read))) := by
  induction es generalizing w before
  case nil => exact .inl ⟨w, rfl, by rw [readThen, List.append_nil]⟩
  case cons e es hi =>
    rw [List.foldlM_cons, readThen]
    rcases w.read e with f | w'
    case error => exact .inr ⟨[], f, List.nil_prefix, rfl, by rw [List.append_nil]⟩
    case ok =>
      rcases hi w' (before ++ [e]) with ⟨w'', hw, hk⟩ | ⟨read, f, hp, hf, hk⟩
      case inl => exact .inl ⟨w'', hw, by simpa using hk⟩
      case inr =>
        exact .inr ⟨e :: read, f, List.cons_prefix_cons.mpr ⟨rfl, hp⟩, hf, by simpa using hk⟩

-- The record of a forest: it is pruned first, and then read.
def biographyOf (b : Bindings) (t : Forest) : Except Error Biography := do
  let w ← (remains b [] t).1.foldlM Walk.read {}
  match (remains b [] t).2 with
  | none   => return w.result
  | some f => throw (.formula f)

theorem biography_eq_readThen {source : String} {t : Forest}
    (h : Markup.read source = .ok t.events) (b : Bindings) :
    biography source b = readThen b
      (stopOr b (fun w before => (.ok w.result, rankedBy b (lastService? before)))
        (remains b [] t).2) {} [] (remains b [] t).1 := by
  have hr := Walk.runBehind_events (b := b) t {} [] [] []
  rw [List.append_nil] at hr
  rw [biography, h]
  exact hr

-- The reading of a document ends behind the events `read` of those that remain of its forest.
theorem exists_biography_eq {source : String} {t : Forest}
    (h : Markup.read source = .ok t.events) (b : Bindings) :
    ∃ read, read <+: (remains b [] t).1 ∧
      biography source b = (biographyOf b t, rankedBy b (lastService? read)) ∧
      ∀ r, biographyOf b t = .ok r →
        read = (remains b [] t).1 ∧ r.rank = (lastService? read).map declaredRank := by
  rw [biography_eq_readThen h, biographyOf]
  rcases remains b [] t with ⟨kept, f⟩
  rcases readThen_cases b (stopOr b (fun w before => (.ok w.result, rankedBy b (lastService? before)))
    f) {} [] kept with ⟨w, hw, hk⟩ | ⟨read, g, hp, hg, hk⟩
  case inr => exact ⟨read, hp, by rw [hk, hg]; rfl, by rw [hg]; nofun⟩
  case inl =>
    refine ⟨kept, List.prefix_rfl, ?_⟩
    rw [hk, hw]
    cases f
    case some => exact ⟨rfl, nofun⟩
    case none =>
      refine ⟨rfl, fun r hr => ⟨rfl, ?_⟩⟩
      cases hr
      exact (Walk.rank_of_foldlM hw).trans (Option.or_none)

-- The biography of a document is that of its forest, with the guards as the kept services before
-- them leave the rank. In the end nothing but the rank is changed, to that of the last service.
theorem biography_eq_biographyOf {source : String} {es : List Event}
    (h : Markup.read source = .ok es) :
    (∃ t : Forest, es = t.events) ∧ ∀ t : Forest, es = t.events →
      ∀ b r b', biography source b = (r, b') →
        r = biographyOf b t ∧
        (∃ read, read <+: (remains b [] t).1 ∧ b' = rankedBy b (lastService? read)) ∧
        (∀ n, n ≠ "dRank" → b'.get? n = b.get? n) ∧
        ∀ record, r = .ok record →
          (lastService? (remains b [] t).1 = none → record.rank = none ∧ b' = b) ∧
          ∀ s, lastService? (remains b [] t).1 = some s →
            record.rank = some (declaredRank s) ∧ b' = seeing b (declaredRank s) := by
  refine ⟨Markup.exists_forest_of_read h, fun t ht b r b' hb => ?_⟩
  subst ht
  obtain ⟨read, hp, he, hr⟩ := exists_biography_eq h b
  cases hb.symm.trans he
  refine ⟨rfl, ⟨read, hp, rfl⟩, fun n hn => get?_rankedBy b _ hn, fun record ho => ?_⟩
  obtain ⟨rfl, hrank⟩ := hr record ho
  constructor
  case left =>
    intro hs
    rw [hrank, hs]
    exact ⟨rfl, rfl⟩
  case right =>
    intro s hs
    rw [hrank, hs]
    exact ⟨rfl, rfl⟩

-- The guard of the name sees the rank at the start, those in the first service see its rank, and
-- that of the last service sees no rank any more, since its `Type` is empty.
def basil : String :=
  "<SAINT><NAME Short='Basil' Cmd='dRank == 3'/><SERVICE Type='5'>" ++
    "<MATINS Cmd='dRank == 5'/><VESPERS Cmd='dRank == 3'/></SERVICE>" ++
    "<SERVICE Type=''><LITURGY Cmd='dRank == 0'/></SERVICE></SAINT>"

def basilForest : Forest :=
  let name := .ofList [("Short", "Basil"), ("Cmd", "dRank == 3")]
  let liturgy := .element "LITURGY" (.ofList [("Cmd", "dRank == 0")]) .nil .nil
  let unranked := .element "SERVICE" (.ofList [("Type", "")]) liturgy .nil
  let vespers := .element "VESPERS" (.ofList [("Cmd", "dRank == 3")]) .nil .nil
  let matins := .element "MATINS" (.ofList [("Cmd", "dRank == 5")]) .nil vespers
  let service := .element "SERVICE" (.ofList [("Type", "5")]) matins unranked
  .element "SAINT" ∅ (.element "NAME" name .nil service) .nil

def basilRecord : Biography where
  name     := some (.ofList [("Short", "Basil")])
  rank     := some none
  services := [⟨.matins, none⟩, ⟨.liturgy, none⟩]

theorem biography_basil :
    let b : Bindings := .ofList [("dRank", .number 3.0)]
    Markup.read basil = .ok basilForest.events ∧
      biographyOf b basilForest = .ok basilRecord ∧
      biography basil b = (.ok basilRecord, .ofList [("dRank", .number 0.0)]) := by
  intro b
  let service : Element := ⟨"SERVICE", .ofList [("Type", "")]⟩
  have h : Markup.read basil = .ok basilForest.events :=
    toOption_eq_some_iff.mp (by decide +kernel)
  have hr : biographyOf b basilForest = .ok basilRecord :=
    toOption_eq_some_iff.mp (by decide +kernel)
  have hs : lastService? (remains b [] basilForest).1 = some service := by decide +kernel
  have h0 : seeing b (declaredRank service) = .ofList [("dRank", .number 0.0)] := by
    decide +kernel
  obtain ⟨_, ht⟩ := biography_eq_biographyOf h
  rcases hb : biography basil b with ⟨r, b'⟩
  obtain ⟨rfl, _, _, hk⟩ := ht basilForest rfl _ _ _ hb
  obtain ⟨_, rfl⟩ := (hk basilRecord hr).2 service hs
  exact ⟨h, hr, by rw [hr, h0]⟩

end Ordo.Document
