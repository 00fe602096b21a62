import Ordo.Proofs.Document.Extension
import Ordo.Proofs.Document.Flat
import Ordo.Proofs.Markup.Nesting
import Ordo.Proofs.Markup.Pruning

namespace Ordo

namespace Markup

-- The tag of the root, and the tags of the elements that may stand directly in an element.
structure Shape where
  root    : String
  mayHold : String → List String

namespace Forest

-- The elements at the top of a forest by their tags, each with its content.
def roots : Forest → List (String × Forest)
  | nil                          => []
  | text _ behind                => behind.roots
  | element tag _ content behind => (tag, content) :: behind.roots

-- Whether a forest may stand in an element `parent`.
def FitsIn (s : Shape) (parent : String) : Forest → Prop
  | nil           => True
  | text _ behind => behind.FitsIn s parent
  | element tag _ content behind =>
    tag ∈ s.mayHold parent ∧ content.FitsIn s tag ∧ behind.FitsIn s parent

instance decidableFitsIn (s : Shape) : (parent : String) → (t : Forest) →
    Decidable (t.FitsIn s parent)
  | _, nil                => .isTrue trivial
  | parent, text _ behind => decidableFitsIn s parent behind
  | parent, element tag _ content behind =>
    @instDecidableAnd _ _ inferInstance <|
      @instDecidableAnd _ _ (decidableFitsIn s tag content) (decidableFitsIn s parent behind)

-- Whether a forest has no more than one root, and all elements where they may be.
def HasShape (s : Shape) (t : Forest) : Prop :=
  t.roots.length ≤ 1 ∧ ∀ r ∈ t.roots, r.1 = s.root ∧ r.2.FitsIn s r.1

instance (s : Shape) (t : Forest) : Decidable (t.HasShape s) :=
  inferInstanceAs (Decidable (_ ∧ _))

variable {s : Shape} {parent tag : String} {attributes : Attributes} {content behind t : Forest}
  {e : Element}

theorem mem_elements_element_iff :
    e ∈ elements (element tag attributes content behind).events ↔
      e = ⟨tag, attributes⟩ ∨ e ∈ elements content.events ∨ e ∈ elements behind.events := by
  simp [events, elements]

theorem tag_of_fitsIn (h : t.FitsIn s parent) (he : e ∈ elements t.events) :
    ∃ parent, e.tag ∈ s.mayHold parent := by
  induction t generalizing parent
  case nil => cases he
  case text s behind hb => exact hb h he
  case element tag attributes content behind hc hb =>
    obtain ⟨ht, hfc, hfb⟩ := h
    rcases mem_elements_element_iff.mp he with rfl | he | he
    · exact ⟨parent, ht⟩
    · exact hc hfc he
    · exact hb hfb he

theorem tag_of_hasShape (h : ∀ r ∈ t.roots, r.1 = s.root ∧ r.2.FitsIn s r.1)
    (he : e ∈ elements t.events) : e.tag = s.root ∨ ∃ parent, e.tag ∈ s.mayHold parent := by
  induction t
  case nil => cases he
  case text s behind hb => exact hb h he
  case element tag attributes content behind _ hb =>
    obtain ⟨⟨ht, hf⟩, h⟩ := List.forall_mem_cons.mp h
    rcases mem_elements_element_iff.mp he with rfl | he | he
    · exact .inl ht
    · exact .inr (tag_of_fitsIn hf he)
    · exact hb h he

end Forest

end Markup

namespace Document

open Markup (Element Forest Shape elements)

-- The kinds of documents that are read element by element.
inductive Kind
  | cycle (c : Cycle)
  | fasting
  | commands

namespace Kind

def tags : Kind → List String
  | cycle _  => cycleTags
  | fasting  => fastingTags
  | commands => commandTags

-- Saints stand in a day, rules stand in the table or in one of its periods, and commands stand in
-- a table.
def shape : Kind → Shape
  | cycle _  => ⟨"DAY", fun tag => if tag = "DAY" then ["SAINT"] else []⟩
  | fasting  => ⟨"FASTING", fun tag =>
    if tag = "FASTING" then ["PERIOD", "RULE"] else if tag = "PERIOD" then ["RULE"] else []⟩
  | commands => ⟨"DATA", fun tag => if tag = "DATA" then ["COMMAND"] else []⟩

def Accepts (source : String) (b : Bindings) : Kind → Prop
  | cycle c  => ∃ cs, Document.commemorations c source b = .ok cs
  | fasting  => ∃ codes, fastingCodes source b = .ok codes
  | commands => ∃ cs, Document.commands source b = .ok cs

-- Whether there is nothing wrong with an element by itself.
def Passes (b : Bindings) (e : Element) : Kind → Prop
  | cycle c  => ∃ r, readSaint c b e = .ok r
  | fasting  => ∃ r, readRule e = .ok r
  | commands => ∃ r, readCommand e = .ok r

variable {k : Kind} {source : String} {b : Bindings} {e : Element} {t u : Forest}

theorem tag_of_passes (h : k.Passes b e) : e.tag ∈ k.tags := by
  cases k
  case cycle =>
    obtain ⟨_, h⟩ := h
    exact tag_of_readSaint h
  case fasting =>
    obtain ⟨_, h⟩ := h
    exact tag_of_readRule h
  case commands =>
    obtain ⟨_, h⟩ := h
    exact tag_of_readCommand h

theorem mem_tags_of_hasShape (h : u.HasShape k.shape) (he : e ∈ elements u.events) :
    e.tag ∈ k.tags := by
  have hr : k.shape.root ∈ k.tags := by cases k <;> exact List.mem_cons_self
  have hm (parent : String) : k.shape.mayHold parent ⊆ k.tags := by
    cases k
    all_goals
      simp only [shape, tags, cycleTags, fastingTags, commandTags]
      grind
  rcases Forest.tag_of_hasShape h.2 he with ht | ⟨parent, ht⟩
  case inl => exact ht ▸ hr
  case inr => exact hm parent ht

theorem accepts_iff :
    k.Accepts source b ↔ ∃ es, survivors source b = .ok es ∧ ∀ e ∈ es, k.Passes b e := by
  have hr {α : Type} {read : Element → Except Error (Option α)} :
      (∃ as, records read source b = .ok as) ↔
        ∃ es, survivors source b = .ok es ∧ ∀ e ∈ es, ∃ r, read e = .ok r := by
    simp only [records_eq_ok_iff, ← exists_mapM_eq_ok_iff]
    constructor
    case mp =>
      rintro ⟨_, es, rs, hs, hrs, -⟩
      exact ⟨es, hs, rs, hrs⟩
    case mpr =>
      rintro ⟨es, hs, rs, hrs⟩
      exact ⟨_, es, rs, hs, hrs, rfl⟩
  cases k
  case cycle    => exact hr
  case fasting  => exact hr
  case commands => exact hr

theorem survivors_eq_ok_iff_forest {es : List Element} : survivors source b = .ok es ↔
    ∃ t u : Forest, Markup.read source = .ok t.events ∧ t.prune b = .ok u ∧
      elements u.events = es := by
  rw [survivors_eq_ok_iff]
  constructor
  case mp =>
    rintro ⟨events, kept, hr, hp, he⟩
    obtain ⟨t, rfl⟩ := Markup.exists_forest_of_read hr
    obtain ⟨u, hu, rfl⟩ := Markup.prune_eq_none_iff.mp hp
    exact ⟨t, u, hr, hu, he⟩
  case mpr =>
    rintro ⟨t, u, hr, hu, he⟩
    exact ⟨_, _, hr, Markup.prune_of_prune_eq hu, he⟩

-- What remains of a document is accepted for its elements, each by itself. Those of the right shape
-- have known tags, but the known tags do not make the shape.
theorem accepts_hasShape_iff (k : Kind) (source : String) (b : Bindings) :
    (k.Accepts source b → ∃ t u : Forest, Markup.read source = .ok t.events ∧ t.prune b = .ok u) ∧
    ∀ t u : Forest, Markup.read source = .ok t.events → t.prune b = .ok u →
      (k.Accepts source b ↔ ∀ e ∈ elements u.events, k.Passes b e) ∧
      ((k.Accepts source b ∨ u.HasShape k.shape) → ∀ e ∈ elements u.events, e.tag ∈ k.tags) ∧
      ((k.Accepts source b → u.HasShape k.shape) ↔
        (∃ e ∈ elements u.events, ¬k.Passes b e) ∨ u.HasShape k.shape) := by
  constructor
  case left =>
    intro h
    obtain ⟨es, hs, -⟩ := accepts_iff.mp h
    obtain ⟨t, u, ht, hu, -⟩ := survivors_eq_ok_iff_forest.mp hs
    exact ⟨t, u, ht, hu⟩
  case right =>
    intro t u ht hu
    have hs : survivors source b = .ok (elements u.events) :=
      survivors_eq_ok_iff_forest.mpr ⟨t, u, ht, hu, rfl⟩
    have ha : k.Accepts source b ↔ ∀ e ∈ elements u.events, k.Passes b e := by
      rw [accepts_iff]
      constructor
      case mp =>
        rintro ⟨es, hs', h⟩
        cases hs.symm.trans hs'
        exact h
      case mpr => exact fun h => ⟨_, hs, h⟩
    refine ⟨ha, ?tags, ?shape⟩
    case tags =>
      rintro (h | h) e he
      · exact tag_of_passes (ha.mp h e he)
      · exact mem_tags_of_hasShape h he
    case shape =>
      rw [ha]
      constructor
      case mp =>
        intro h
        rcases Classical.em (∀ e ∈ elements u.events, k.Passes b e) with hp | hp
        case inl => exact .inr (h hp)
        case inr => exact .inl (by simpa only [Classical.not_forall, exists_prop] using hp)
      case mpr =>
        rintro (⟨e, he, hn⟩ | h) hp
        · exact absurd (hp e he) hn
        · exact h

def saint (cid : String) (content behind : Forest) : Forest :=
  .element "SAINT" (.ofList [("CId", cid)]) content behind

def commemoration (cid : String) : Commemoration where
  cid   := cid
  cycle := .movable

def twoSaints : String :=
  "<DAY><SAINT CId='1'/><SAINT CId='2'/></DAY>"

def twoSaintsForest : Forest :=
  .element "DAY" ∅ (saint "1" .nil (saint "2" .nil .nil)) .nil

theorem accepts_twoSaints :
    Markup.read twoSaints = .ok twoSaintsForest.events ∧
      twoSaintsForest.prune ∅ = .ok twoSaintsForest ∧
      (cycle .movable).Accepts twoSaints ∅ ∧
      (∀ e ∈ elements twoSaintsForest.events, (cycle .movable).Passes ∅ e) ∧
      twoSaintsForest.HasShape (cycle .movable).shape := by
  have ht : Markup.read twoSaints = .ok twoSaintsForest.events :=
    toOption_eq_some_iff.mp (by decide +kernel)
  have hu : twoSaintsForest.prune ∅ = .ok twoSaintsForest :=
    toOption_eq_some_iff.mp (by decide +kernel)
  have ha : (cycle .movable).Accepts twoSaints ∅ :=
    ⟨[commemoration "1", commemoration "2"], toOption_eq_some_iff.mp (by decide +kernel)⟩
  obtain ⟨hp, _, hs⟩ := (accepts_hasShape_iff (.cycle .movable) twoSaints ∅).2 _ _ ht hu
  exact ⟨ht, hu, ha, hp.mp ha, hs.mpr (.inr (by decide +kernel)) ha⟩

-- A saint in another one, a period in a rule, and a table behind its command.
def misplaced : Kind → String
  | cycle _  => "<DAY><SAINT CId='1'><SAINT CId='2'/></SAINT></DAY>"
  | fasting  => "<RULE Case='x'><PERIOD/></RULE>"
  | commands => "<COMMAND Name='A' Value='1'/><DATA/>"

def misplacedForest : Kind → Forest
  | cycle _  => .element "DAY" ∅ (saint "1" (saint "2" .nil .nil) .nil) .nil
  | fasting  => .element "RULE" (.ofList [("Case", "x")]) (.element "PERIOD" ∅ .nil .nil) .nil
  | commands => .element "COMMAND" (.ofList [("Name", "A"), ("Value", "1")]) .nil
    (.element "DATA" ∅ .nil .nil)

-- Whether a document is accepted although what remains of it does not have the shape of its kind.
def AcceptsWithoutShape (source : String) (t : Forest) (k : Kind) : Prop :=
  Markup.read source = .ok t.events ∧ t.prune ∅ = .ok t ∧ k.Accepts source ∅ ∧ ¬t.HasShape k.shape

theorem accepts_misplaced :
    AcceptsWithoutShape (misplaced (.cycle .movable)) (misplacedForest (.cycle .movable))
      (.cycle .movable) ∧
    AcceptsWithoutShape (misplaced .fasting) (misplacedForest .fasting) .fasting ∧
    AcceptsWithoutShape (misplaced .commands) (misplacedForest .commands) .commands := by
  refine ⟨?cycle, ?fasting, ?commands⟩
  case cycle =>
    refine ⟨?_, ?_, ⟨[commemoration "1", commemoration "2"], ?_⟩, by decide +kernel⟩
    all_goals exact toOption_eq_some_iff.mp (by decide +kernel)
  case fasting =>
    refine ⟨?_, ?_, ⟨["x"], ?_⟩, by decide +kernel⟩
    all_goals exact toOption_eq_some_iff.mp (by decide +kernel)
  case commands =>
    refine ⟨?_, ?_, ⟨[⟨"A", "1", none⟩], ?_⟩, by decide +kernel⟩
    all_goals exact toOption_eq_some_iff.mp (by decide +kernel)

end Kind

end Document

end Ordo
