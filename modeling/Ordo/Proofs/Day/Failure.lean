import Ordo.Proofs.Archive.Reading
import Ordo.Proofs.Day.Locality

namespace Ordo

-- The error is about what a document says, wherever the document is.
def ResolveError.IsOfDocument : ResolveError → Prop
  | malformed _ _ | formula _ _      => True
  | archive _ | noMovable _ | date _ => False

namespace Day

open Document (biography seeing)
open Resolved (ofArchive inDocument)

-- What a document is read for.
inductive Purpose
  | cycle (cycle : Cycle)
  -- The commemoration is as the layers before the document leave it.
  | biography (c : Commemoration)
  | fasting (rank : Int)
  | commands (rank : Int)
deriving DecidableEq

structure Visit where
  purpose  : Purpose
  document : SourceText
deriving DecidableEq

-- What is wrong with the document, read with the bindings that belong to its purpose.
def Visit.fault? (date : Date) (v : Visit) : Option Document.Error :=
  let f := DayFacts.ofDate date
  let text := v.document.text
  match v.purpose with
  | .cycle cycle   => errorOf? (Document.commemorations cycle text f.bindings)
  | .biography c   => errorOf? (biography text (seeing f.bindings c.rank)).1
  | .fasting rank  => errorOf? (Document.fastingCodes text (f.bindingsWithRank rank))
  | .commands rank => errorOf? (Document.commands text (f.bindingsWithRank rank))

section

variable {ε α β : Type}

-- The visits behind a computation. There are none if the computation fails.
def behind (x : Except ε α) (next : α → List Visit) : List Visit :=
  match x with
  | .ok a    => next a
  | .error _ => []

-- The visits of computations one behind the other, up to the first one that fails.
def behindEach (f : α → Except ε β) (next : α → List Visit) : List α → List Visit
  | []      => []
  | a :: as => next a ++ behind (f a) fun _ => behindEach f next as

variable {x : Except ε α} {f : α → Except ε β} {next : α → List Visit} {as : List α} {v : Visit}

@[simp]
theorem behind_nil : behind x (fun _ => []) = [] := by
  cases x <;> rfl

theorem mem_behind_iff : v ∈ behind x next ↔ ∃ a, x = .ok a ∧ v ∈ next a := by
  cases x <;> simp [behind]

theorem exists_of_mem_behindEach (h : v ∈ behindEach f next as) : ∃ a ∈ as, v ∈ next a := by
  induction as
  case nil => cases h
  case cons a as hi =>
    rcases List.mem_append.mp h with h | h
    case inl => exact ⟨a, List.mem_cons_self, h⟩
    case inr =>
      obtain ⟨_, -, h⟩ := mem_behind_iff.mp h
      obtain ⟨a', ha, h⟩ := hi h
      exact ⟨a', List.mem_cons_of_mem _ ha, h⟩

end

def visitsOf (purpose : Purpose) (x : Logged ArchiveError SourceText) : List Visit :=
  behind (ofArchive x).result fun d => [⟨purpose, d⟩]

def cycleVisits (l : Library) (date : Date) (cycle : Cycle) : List Visit :=
  visitsOf (.cycle cycle) (l.readBottomUp (cyclePath date cycle))

def layerVisits (b : Bindings) : Commemoration → List SourceText → List Visit
  | _, []      => []
  | c, d :: ds =>
    let x := inDocument d (biography d.text (seeing b c.rank)).1
    ⟨.biography c, d⟩ :: behind x.result fun r => layerVisits b (c.withBiography r) ds

def biographyVisits (l : Library) (b : Bindings) (c : Commemoration) : List Visit :=
  behind (ofArchive (l.lives c.cid)).result (layerVisits b c)

def fastingVisits (l : Library) (b : Bindings) (rank : Int) : List Visit :=
  let read := fun d => (inDocument d (Document.fastingCodes d.text b)).result
  behind (ofArchive l.fasting).result <| behindEach read fun d => [⟨.fasting rank, d⟩]

-- The documents that are visited on the way to the day of a date, in their order.
def visits (l : Library) (date : Date) : List Visit :=
  let f := DayFacts.ofDate date
  cycleVisits l date .movable ++ behind (readMovable l f).result fun (_, movable) =>
    cycleVisits l date .fixed ++ behind (readFixed l f).result fun fixed =>
      let read := fun c => (readBiographies l f.bindings c).result
      behindEach read (biographyVisits l f.bindings) (movable ++ fixed) ++
        behind ((movable ++ fixed).mapM read) fun cs =>
          let b := f.bindingsWithRank (dayRankOf cs)
          fastingVisits l b (dayRankOf cs) ++ behind (readFasting l b).result fun _ =>
            if Ordo.hasLiturgy cs then visitsOf (.commands (dayRankOf cs)) l.liturgy else []

-- The paths that a day has to have documents for. The last one is needed for a liturgy only.
def neededPaths (date : Date) : List String :=
  [cyclePath date .movable, cyclePath date .fixed, Library.liturgyPath]

-- A document that the day of a date cannot do without is at none of its paths in the archive.
structure Missing (l : Library) (date : Date) (path : String) : Prop where
  needed : path ∈ neededPaths date
  absent : ∀ p ∈ l.candidates path, (l.archive.has p).result = .ok false

-- An error that no document is at fault for.
def OfLibrary (l : Library) (date : Date) : ResolveError → Prop
  | .archive (.notFound path)               => Missing l date path
  | .archive _ | .noMovable _               => True
  | .malformed _ _ | .formula _ _ | .date _ => False

-- The last one of the visits, and no other, is to a document at fault.
structure EndsWith (date : Date) (vs before : List Visit) (v : Visit) (e : Document.Error) :
    Prop where
  last  : vs = before ++ [v]
  sound : ∀ v' ∈ before, v'.fault? date = none
  fault : v.fault? date = some e

-- The visits are those on the way to the result: no document is at fault, or it is the last one and
-- the result says what is wrong with it.
inductive Accounts (l : Library) (date : Date) {α : Type} (x : Except ResolveError α)
    (vs : List Visit) : Prop
  | sound :
    (∀ e, x = .error e → OfLibrary l date e) → (∀ v ∈ vs, v.fault? date = none) →
    Accounts l date x vs
  | faulty {before : List Visit} {v : Visit} {e : Document.Error} :
    EndsWith date vs before v e → x = .error (.inDocument v.document.path e) →
    Accounts l date x vs

section

variable {l : Library} {date : Date} {α β : Type} {x : Except ResolveError α}
  {k : α → Except ResolveError β} {before vs vs' : List Visit} {next : α → List Visit}
  {as : List α} {v : Visit} {e : Document.Error} {path : String} {purpose : Purpose}
  {d : SourceText} {ds : List SourceText} {c : Commemoration} {rank : Int}

theorem EndsWith.append (h : EndsWith date vs before v e) (hs : ∀ v ∈ vs', v.fault? date = none) :
    EndsWith date (vs' ++ vs) (vs' ++ before) v e where
  last  := by rw [h.last, List.append_assoc]
  sound := List.forall_mem_append.mpr ⟨hs, h.sound⟩
  fault := h.fault

theorem accounts_ok (a : α) : Accounts l date (.ok a : Except ResolveError α) [] :=
  .sound nofun (List.forall_mem_nil _)

theorem Accounts.bind (hx : Accounts l date x vs)
    (hk : ∀ a, x = .ok a → Accounts l date (k a) (next a)) :
    Accounts l date (x >>= k) (vs ++ behind x next) := by
  cases hx
  case faulty hv hx =>
    rw [hx, behind, List.append_nil]
    exact .faulty hv rfl
  case sound he hv =>
    cases x
    case error e =>
      rw [behind, List.append_nil]
      refine .sound (fun e' h => he e' ?_) hv
      exact congrArg Except.error (Except.error.inj h)
    case ok a =>
      cases hk a rfl
      case sound hk hv'  => exact .sound hk (List.forall_mem_append.mpr ⟨hv, hv'⟩)
      case faulty hv' hk => exact .faulty (hv'.append hv) hk

-- What follows may visit nothing.
theorem Accounts.bind_nil (hx : Accounts l date x vs)
    (hk : ∀ a, x = .ok a → Accounts l date (k a) []) : Accounts l date (x >>= k) vs := by
  have h : Accounts l date (x >>= k) (vs ++ behind x fun _ => []) := hx.bind hk
  rwa [behind_nil, List.append_nil] at h

theorem accounts_ofArchive {x : Logged ArchiveError α}
    (h : ∀ path, x.result = .error (.notFound path) → Missing l date path) :
    Accounts l date (ofArchive x).result [] := by
  refine .sound (fun e he => ?_) (List.forall_mem_nil _)
  obtain ⟨e, hx, rfl⟩ := mapError_eq_error_iff.mp he
  cases e
  case notFound => exact h _ hx
  all_goals exact trivial

theorem accounts_inDocument (purpose : Purpose) {r : Except Document.Error α}
    (h : errorOf? r = Visit.fault? date ⟨purpose, d⟩) :
    Accounts l date (inDocument d r).result [⟨purpose, d⟩] := by
  cases r
  case ok a    => exact .sound nofun (List.forall_mem_singleton.mpr h.symm)
  case error e => exact .faulty ⟨(List.nil_append _).symm, List.forall_mem_nil _, h.symm⟩ rfl

theorem accounts_mapM (h : ∀ a ∈ as, Accounts l date (k a) (next a)) :
    Accounts l date (as.mapM k) (behindEach k next as) := by
  induction as
  case nil => exact accounts_ok []
  case cons a as hi =>
    rw [List.mapM_cons]
    refine (h a List.mem_cons_self).bind fun b _ => ?_
    have ha := hi fun a ha => h a (List.mem_cons_of_mem _ ha)
    exact ha.bind_nil fun bs _ => accounts_ok (b :: bs)

theorem accounts_addBiographies :
    let b := (DayFacts.ofDate date).bindings
    Accounts l date (addBiographies b c ds).result (layerVisits b c ds) := by
  intro b
  induction ds generalizing c
  case nil => exact accounts_ok c
  case cons d ds hi =>
    rw [addBiographies_cons, Logged.result_bind]
    exact (accounts_inDocument (.biography c) rfl).bind fun r _ => hi

section

variable (h : l.archive.Consistent)

include h

theorem accounts_readBottomUp {k : SourceText → Resolved α} (hp : path ∈ neededPaths date)
    (hk : ∀ d, Accounts l date (k d).result [⟨purpose, d⟩]) :
    let x := l.readBottomUp path
    Accounts l date (ofArchive x >>= k).result (visitsOf purpose x) := by
  intro x
  rw [Logged.result_bind, visitsOf]
  refine (accounts_ofArchive fun missing he => ?_).bind fun d _ => hk d
  obtain ⟨rfl, ha⟩ := Library.missing_of_readBottomUp h he
  exact ⟨hp, ha⟩

theorem accounts_readTopDown : Accounts l date (ofArchive (l.readTopDown path)).result [] :=
  accounts_ofArchive fun _ he => absurd he (Library.readTopDown_ne_notFound h)

theorem accounts_readMovable : Accounts l date (readMovable l (DayFacts.ofDate date)).result
    (cycleVisits l date .movable) := by
  rw [readMovable, MovablePlace.read_eq]
  refine accounts_readBottomUp h (by simp [neededPaths, cyclePath]) fun d => ?_
  rw [Logged.result_bind]
  refine (accounts_inDocument (.cycle .movable) rfl).bind_nil fun cs _ => ?_
  split
  case isTrue  => exact .sound (fun e he => Except.error.inj he ▸ trivial) (List.forall_mem_nil _)
  case isFalse => exact accounts_ok _

theorem accounts_readFixed : Accounts l date (readFixed l (DayFacts.ofDate date)).result
    (cycleVisits l date .fixed) :=
  accounts_readBottomUp h (by simp [neededPaths, cyclePath, DayFacts.ofDate]) fun _ =>
    accounts_inDocument (.cycle .fixed) rfl

theorem accounts_readBiographies :
    let b := (DayFacts.ofDate date).bindings
    Accounts l date (readBiographies l b c).result (biographyVisits l b c) := by
  intro b
  rw [readBiographies, Logged.result_bind]
  exact (accounts_readTopDown h).bind fun ds _ => accounts_addBiographies

theorem accounts_readFasting :
    let b := (DayFacts.ofDate date).bindingsWithRank rank
    Accounts l date (readFasting l b).result (fastingVisits l b rank) := by
  intro b
  rw [readFasting, Logged.result_bind]
  refine (accounts_readTopDown h).bind fun ds _ => ?_
  rw [Logged.result_bind, Logged.result_mapM]
  refine Accounts.bind_nil (accounts_mapM fun d _ => ?_) fun codes _ => accounts_ok _
  exact accounts_inDocument (.fasting rank) rfl

theorem accounts_readCommands :
    let b := (DayFacts.ofDate date).bindingsWithRank rank
    Accounts l date (readCommands l b).result (visitsOf (.commands rank) l.liturgy) :=
  accounts_readBottomUp h (by simp [neededPaths]) fun _ => accounts_inDocument (.commands rank) rfl

-- The visits of a resolution tell whether it fails because of a document.
theorem accounts_resolve : Accounts l date (resolve l date).result (visits l date) := by
  rw [result_resolve, result_build]
  refine (accounts_readMovable h).bind fun (_, movable) _ => ?_
  refine (accounts_readFixed h).bind fun fixed _ => ?_
  refine (accounts_mapM fun c _ => accounts_readBiographies h).bind fun cs _ => ?_
  refine (accounts_readFasting h).bind fun code _ => ?_
  split
  case isTrue  => exact (accounts_readCommands h).bind_nil fun commands _ => accounts_ok _
  case isFalse => exact accounts_ok _

end

end

-- What a document is visited for, and the state in which the resolution is by then.
inductive Visited (l : Library) (date : Date) : Visit → Prop
  | cycle {cycle : Cycle} {d : SourceText} :
    (l.findBottomUp (cyclePath date cycle)).result = .ok d.path → Visited l date ⟨.cycle cycle, d⟩
  | biography {cycle es e c c' before d after} :
    saints l date cycle = .ok es → e ∈ es →
    Document.saintOf cycle (DayFacts.ofDate date).bindings e = .ok c →
    (l.lives c.cid).result = .ok (before ++ d :: after) →
    (addBiographies (DayFacts.ofDate date).bindings c before).result = .ok c' →
    Visited l date ⟨.biography c', d⟩
  | fasting {cs ds d} :
    appointed l date = .ok cs → l.fasting.result = .ok ds → d ∈ ds →
    Visited l date ⟨.fasting (dayRankOf cs), d⟩
  | commands {cs} {d : SourceText} :
    appointed l date = .ok cs → Ordo.hasLiturgy cs →
    (l.findBottomUp Library.liturgyPath).result = .ok d.path →
    Visited l date ⟨.commands (dayRankOf cs), d⟩

section

variable {l : Library} {date : Date} {cycle : Cycle} {b : Bindings} {c : Commemoration}
  {cs : List Commemoration} {ds : List SourceText} {v : Visit} {purpose : Purpose} {path : String}

theorem exists_of_mem_visitsOf (h : v ∈ visitsOf purpose (l.readBottomUp path)) :
    ∃ d, v = ⟨purpose, d⟩ ∧ (l.findBottomUp path).result = .ok d.path ∧ l.archive.Holds d := by
  obtain ⟨d, hd, h⟩ := mem_behind_iff.mp h
  have hd := ofArchive_eq_ok_iff.mp hd
  exact ⟨d, List.mem_singleton.mp h, (Library.readBottomUp_eq_ok_iff.mp hd).1,
    Library.holds_of_readBottomUp hd⟩

theorem exists_of_mem_layerVisits (h : v ∈ layerVisits b c ds) : ∃ before d after c',
    ds = before ++ d :: after ∧ (addBiographies b c before).result = .ok c' ∧
      v = ⟨.biography c', d⟩ := by
  induction ds generalizing c
  case nil => cases h
  case cons d ds hi =>
    rcases List.mem_cons.mp h with rfl | h
    case inl => exact ⟨[], d, ds, c, rfl, rfl, rfl⟩
    case inr =>
      obtain ⟨r, hr, h⟩ := mem_behind_iff.mp h
      obtain ⟨before, d', after, c', rfl, hc, rfl⟩ := hi h
      refine ⟨d :: before, d', after, c', rfl, ?_, rfl⟩
      rw [addBiographies_cons]
      exact Logged.bind_eq_ok_iff.mpr ⟨r, hr, hc⟩

theorem visited_of_mem_cycleVisits (h : v ∈ cycleVisits l date cycle) :
    Visited l date v ∧ l.archive.Holds v.document := by
  obtain ⟨d, rfl, hd, hh⟩ := exists_of_mem_visitsOf h
  exact ⟨.cycle hd, hh⟩

theorem visited_of_mem_biographyVisits (hcs : InCycle l date cycle cs) (hc : c ∈ cs)
    (h : v ∈ biographyVisits l (DayFacts.ofDate date).bindings c) :
    Visited l date v ∧ l.archive.Holds v.document := by
  obtain ⟨es, hes, hcs⟩ := hcs.exists_saints
  obtain ⟨e, he, hs⟩ := exists_of_mem_mapM hcs hc
  obtain ⟨ds, hds, h⟩ := mem_behind_iff.mp h
  obtain ⟨before, d, after, c', rfl, hc, rfl⟩ := exists_of_mem_layerVisits h
  have hds := ofArchive_eq_ok_iff.mp hds
  exact ⟨.biography hes he hs hds hc, Library.holds_of_readTopDown hds (by simp)⟩

theorem visited_of_mem_fastingVisits (hcs : appointed l date = .ok cs)
    (h : v ∈ fastingVisits l b (dayRankOf cs)) : Visited l date v ∧ l.archive.Holds v.document := by
  obtain ⟨ds, hds, h⟩ := mem_behind_iff.mp h
  obtain ⟨d, hd, h⟩ := exists_of_mem_behindEach h
  obtain rfl := List.mem_singleton.mp h
  have hds := ofArchive_eq_ok_iff.mp hds
  exact ⟨.fasting hcs hds hd, Library.holds_of_readTopDown hds hd⟩

theorem visited_of_mem (h : v ∈ visits l date) : Visited l date v ∧ l.archive.Holds v.document := by
  rcases List.mem_append.mp h with h | h
  case inl => exact visited_of_mem_cycleVisits h
  obtain ⟨⟨source, movable⟩, hm, h⟩ := mem_behind_iff.mp h
  rcases List.mem_append.mp h with h | h
  case inl => exact visited_of_mem_cycleVisits h
  obtain ⟨fixed, hf, h⟩ := mem_behind_iff.mp h
  rcases List.mem_append.mp h with h | h
  case inl =>
    obtain ⟨c, hc, h⟩ := exists_of_mem_behindEach h
    rcases List.mem_append.mp hc with hc | hc
    case inl =>
      obtain ⟨hd, hm, -⟩ := readMovable_eq_ok_iff.mp hm
      exact visited_of_mem_biographyVisits ⟨source, hd, hm⟩ hc h
    case inr => exact visited_of_mem_biographyVisits (readFixed_eq_ok_iff.mp hf) hc h
  obtain ⟨cs, hcs, h⟩ := mem_behind_iff.mp h
  have ha : appointed l date = .ok cs :=
    bind_eq_ok_iff.mpr ⟨_, hm, bind_eq_ok_iff.mpr ⟨_, hf, hcs⟩⟩
  rcases List.mem_append.mp h with h | h
  case inl => exact visited_of_mem_fastingVisits ha h
  obtain ⟨code, -, h⟩ := mem_behind_iff.mp h
  split at h
  case isFalse => cases h
  case isTrue hl =>
    obtain ⟨d, rfl, hd, hh⟩ := exists_of_mem_visitsOf h
    exact ⟨.commands ha hl hd, hh⟩

end

section

variable {l : Library} {date : Date} {α : Type} {x : Except ResolveError α} {vs before : List Visit}
  {v : Visit} {e : ResolveError} {e' : Document.Error}

theorem OfLibrary.not_isOfDocument (h : OfLibrary l date e) : ¬e.IsOfDocument := by
  cases e
  case malformed | formula => exact h.elim
  all_goals exact id

theorem isOfDocument_inDocument (path : String) (e : Document.Error) :
    (ResolveError.inDocument path e).IsOfDocument := by
  cases e <;> exact trivial

theorem Accounts.error_iff (h : Accounts l date x vs) :
    x = .error e ∧ e.IsOfDocument ↔
      ∃ before v e', EndsWith date vs before v e' ∧ e = .inDocument v.document.path e' := by
  cases h
  case sound hx hv =>
    constructor
    case mp =>
      rintro ⟨rfl, he⟩
      exact absurd he (hx e rfl).not_isOfDocument
    case mpr =>
      rintro ⟨before, v, e', h, rfl⟩
      have hf := hv v (h.last ▸ List.mem_append_right _ List.mem_cons_self)
      rw [h.fault] at hf
      cases hf
  case faulty before v e₁ hv hx =>
    constructor
    case mp =>
      rintro ⟨rfl, -⟩
      exact ⟨before, v, e₁, hv, Except.error.inj hx⟩
    case mpr =>
      rintro ⟨before', v', e', h, rfl⟩
      obtain ⟨-, hl⟩ := List.append_inj' (hv.last.symm.trans h.last) rfl
      obtain rfl := List.singleton_inj.mp hl
      obtain rfl := Option.some.inj (hv.fault.symm.trans h.fault)
      exact ⟨hx, isOfDocument_inDocument _ _⟩

theorem Accounts.ofLibrary (h : Accounts l date x vs) (hx : x = .error e) (he : ¬e.IsOfDocument) :
    OfLibrary l date e := by
  cases h
  case sound h _ => exact h e hx
  case faulty h =>
    obtain rfl := Except.error.inj (hx.symm.trans h)
    exact absurd (isOfDocument_inDocument _ _) he

end

-- A resolution fails because of a document if and only if the last document that it visits is at
-- fault, as no other one is, and the error names this document and says what is wrong with it.
-- Otherwise no error is about a document, and what is missing is missing under all its paths.
theorem resolve_eq_error {l : Library} (h : l.archive.Consistent) (date : Date) :
    let r := (resolve l date).result
    (∀ v ∈ visits l date, Visited l date v ∧ l.archive.Holds v.document) ∧
    (∀ e, r = .error e ∧ e.IsOfDocument ↔ ∃ before v e',
      EndsWith date (visits l date) before v e' ∧ e = .inDocument v.document.path e') ∧
    (∀ e, r ≠ .error (.formula none e)) ∧
    (∀ path e, r ≠ .error (.malformed path (.formula e))) ∧
    (∀ e, r ≠ .error (.date e)) ∧
    ∀ path, r = .error (.archive (.notFound path)) → Missing l date path := by
  intro r
  have ha : Accounts l date r (visits l date) := accounts_resolve h
  refine ⟨fun v => visited_of_mem, fun e => ha.error_iff, fun e he => ?_, fun path e he => ?_,
    fun e he => ?_, fun path he => ?_⟩
  · obtain ⟨_, _, e', -, he⟩ := ha.error_iff.mp ⟨he, trivial⟩
    cases e' <;> cases he
  · obtain ⟨_, _, e', -, he⟩ := ha.error_iff.mp ⟨he, trivial⟩
    cases e' <;> cases he
  · exact ha.ofLibrary he id
  · exact ha.ofLibrary he id

-- The guard in the second layer of the second biography is the only one with a name that is not
-- bound.
def unboundTexts : Dictionary String := .ofList [
  ("en/xml/lives/07.xml", "<NAME Cmd='feast'/>"),
  ("xml/04/15.xml", "<SAINT CId='7'/>"),
  ("xml/lives/07.xml", "<SERVICE Type='5'/>"),
  ("xml/pentecostarion/01.xml", "<SAINT CId='900'/>")
]

theorem resolve_eq_error_unbound :
    let l : Library := ⟨.ofDocuments unboundTexts, ["en"]⟩
    let date : Date := ⟨2458602⟩
    let path := "en/xml/lives/07.xml"
    let missing := "xml/pentecostarion/02.xml"
    let e : Formula.Error := .unbound "feast" "feast"
    l.archive.Consistent ∧ (resolve l date).result = .error (.formula (some path) e) ∧
      (visits l date).map (·.document.path) =
        ["xml/pentecostarion/01.xml", "xml/04/15.xml", "xml/lives/07.xml", path] ∧
      (∃ before v, EndsWith date (visits l date) before v (.formula e) ∧ v.document.path = path ∧
        Visited l date v) ∧
      (resolve l (date.addDays 1)).result = .error (.archive (.notFound missing)) ∧
      Missing l (date.addDays 1) missing := by
  intro l date path missing e
  have hc : l.archive.Consistent := Archive.consistent_ofDocuments unboundTexts
  have hr : (resolve l date).result = .error (.formula (some path) e) :=
    errorOf?_eq_some_iff.mp (by decide +kernel)
  have hr' : (resolve l (date.addDays 1)).result = .error (.archive (.notFound missing)) :=
    errorOf?_eq_some_iff.mp (by decide +kernel)
  obtain ⟨hv, he, -⟩ := resolve_eq_error hc date
  obtain ⟨before, v, e', hw, hp⟩ := (he _).mp ⟨hr, trivial⟩
  refine ⟨hc, hr, by decide +kernel, ⟨before, v, ?_⟩, hr', ?_⟩
  case refine_1 =>
    have hm : v ∈ visits l date := hw.last ▸ List.mem_append_right _ List.mem_cons_self
    cases e'
    case formula =>
      obtain ⟨hq, rfl⟩ := ResolveError.formula.inj hp
      exact ⟨hw, (Option.some.inj hq).symm, (hv v hm).1⟩
    all_goals cases hp
  case refine_2 =>
    obtain ⟨-, -, -, -, -, hn⟩ := resolve_eq_error hc (date.addDays 1)
    exact hn _ hr'

end Day

end Ordo
