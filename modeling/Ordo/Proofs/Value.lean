import Mathlib.Logic.Basic
import Mathlib.Logic.ExistsUnique
import Ordo.Formula.Tree

namespace Ordo

namespace Number

open Float.Model (UnpackedFloat)

variable {x y : Float}

theorem compare_swap (a b : UnpackedFloat) : b.compare a = (a.compare b).map .swap := by
  have hs (m m' : Nat) (e e' : Int) :
      (compare e' e).then (compare m' m) = ((compare e e').then (compare m m')).swap := by
    rw [Ordering.swap_then, Int.compare_swap, Nat.compare_swap]
  rcases a with (_ | _) | _ | _ | ⟨_ | _, m, e, _⟩ <;>
    rcases b with (_ | _) | _ | _ | ⟨_ | _, m', e', _⟩
  case finite.negative.finite.negative =>
    exact congrArg (some ·.swap) (hs m m' e e')
  case finite.positive.finite.positive => exact congrArg some (hs m m' e e')
  all_goals rfl

theorem isNone_compare (a b : UnpackedFloat) : (a.compare b).isNone = (a.isNaN || b.isNaN) := by
  rcases a with (_ | _) | _ | _ | ⟨_ | _, _, _, _⟩ <;>
    rcases b with (_ | _) | _ | _ | ⟨_ | _, _, _, _⟩
  all_goals rfl

theorem lt_iff : x < y ↔ x.toModel.compare y.toModel = some .lt :=
  decide_eq_true_iff.trans beq_iff_eq

theorem beq_eq (x y : Float) : (x == y) = (x.toModel.compare y.toModel == some .eq) := rfl

-- The order of the numbers is the order of their binary forms.
theorem order?_eq (x y : Float) : order? x y = x.toModel.compare y.toModel := by
  have hs : y.toModel.compare x.toModel = (x.toModel.compare y.toModel).map .swap :=
    compare_swap ..
  simp only [order?, lt_iff, beq_eq, hs]
  rcases x.toModel.compare y.toModel with _ | _ | _ | _
  all_goals rfl

theorem order?_swap (x y : Float) : order? y x = (order? x y).map .swap := by
  rw [order?_eq, order?_eq]
  exact compare_swap ..

theorem isNone_order? (x y : Float) : (order? x y).isNone = (x.isNaN || y.isNaN) := by
  rw [order?_eq]
  exact isNone_compare ..

theorem order?_beq_eq (x y : Float) : (order? x y == some .eq) = (x == y) := by
  rw [order?_eq, beq_eq]

theorem beq_comm (x y : Float) : (x == y) = (y == x) := by
  rw [← order?_beq_eq, ← order?_beq_eq, order?_swap x y]
  rcases order? x y with _ | _ | _ | _
  all_goals rfl

end Number

namespace Value

def isText : Value → Bool
  | text _ => true
  | _      => false

-- Whether two values have their places in the order: both are texts, or neither has NaN as its
-- number.
def Comparable (v w : Value) : Prop :=
  v.isText ∧ w.isText ∨ v.toNumber.isNaN = false ∧ w.toNumber.isNaN = false

instance (v w : Value) : Decidable (v.Comparable w) :=
  inferInstanceAs (Decidable (_ ∨ _))

variable {v w : Value}

theorem order?_text (s t : String) : (text s).order? (text t) = some (compare s t) := rfl

-- The texts are the only values that are compared otherwise than by their numbers.
theorem order?_of_numbers (h : ¬(v.isText ∧ w.isText)) :
    v.order? w = Number.order? v.toNumber w.toNumber := by
  cases v <;> cases w
  case text.text => exact absurd ⟨rfl, rfl⟩ h
  all_goals rfl

theorem looselyEqual_of_numbers (h : ¬(v.isText ∧ w.isText)) :
    v.looselyEqual w = (v.toNumber == w.toNumber) := by
  cases v <;> cases w
  case text.text => exact absurd ⟨rfl, rfl⟩ h
  case truth.truth a b =>
    cases a <;> cases b
    all_goals decide +kernel
  all_goals rfl

theorem exists_texts (h : v.isText ∧ w.isText) : ∃ s t, v = text s ∧ w = text t := by
  cases v <;> cases w
  case text.text s t => exact ⟨s, t, rfl, rfl⟩
  all_goals simp [isText] at h

theorem order?_swap (v w : Value) : w.order? v = (v.order? w).map .swap := by
  by_cases h : v.isText ∧ w.isText
  case pos =>
    obtain ⟨s, t, rfl, rfl⟩ := exists_texts h
    rw [order?_text, order?_text, Option.map_some, ← Std.OrientedOrd.eq_swap]
  case neg =>
    rw [order?_of_numbers h, order?_of_numbers (mt And.symm h), Number.order?_swap]

theorem order?_eq_none_iff (v w : Value) : v.order? w = none ↔ ¬v.Comparable w := by
  rw [Comparable]
  by_cases h : v.isText ∧ w.isText
  case pos =>
    obtain ⟨s, t, rfl, rfl⟩ := exists_texts h
    simp [order?_text, h]
  case neg =>
    rw [order?_of_numbers h, or_iff_right h, ← Option.isNone_iff_eq_none, Number.isNone_order?]
    simp [Classical.or_iff_not_imp_left]

theorem looselyEqual_eq (v w : Value) : v.looselyEqual w = (v.order? w == some .eq) := by
  by_cases h : v.isText ∧ w.isText
  case pos =>
    obtain ⟨s, t, rfl, rfl⟩ := exists_texts h
    rw [looselyEqual, order?_text, Option.some_beq_some, Bool.eq_iff_iff, beq_iff_eq, beq_iff_eq,
      Std.compare_eq_iff_eq]
  case neg => rw [looselyEqual_of_numbers h, order?_of_numbers h, Number.order?_beq_eq]

theorem strictlyEqual_comm (v w : Value) : v.strictlyEqual w = w.strictlyEqual v := by
  cases v <;> cases w
  case text.text s t     => exact BEq.comm
  case truth.truth a b   => exact BEq.comm
  case number.number x y => exact Number.beq_comm x y
  all_goals rfl

theorem looselyEqual_of_strictlyEqual (h : v.strictlyEqual w) : v.looselyEqual w := by
  cases v <;> cases w
  case text.text     => exact h
  case truth.truth   => exact h
  case number.number => exact h
  all_goals cases h

end Value

namespace Formula.BinaryOp

-- Whether an operator compares two values to true.
def Relates (op : BinaryOp) (v w : Value) : Prop :=
  op.apply v w = .truth true

instance (op : BinaryOp) (v w : Value) : Decidable (op.Relates v w) :=
  inferInstanceAs (Decidable (_ = _))

-- The operator for each of the three outcomes of a comparison.
def ofOrdering : Ordering → BinaryOp
  | .lt => less
  | .eq => equal
  | .gt => greater

variable {v w : Value}

theorem apply_ofOrdering (o : Ordering) (v w : Value) :
    (ofOrdering o).apply v w = .truth (v.order? w == some o) := by
  cases o
  case lt => rfl
  case gt => rfl
  case eq => exact congrArg _ (Value.looselyEqual_eq v w)

theorem relates_ofOrdering_iff {o : Ordering} :
    (ofOrdering o).Relates v w ↔ v.order? w = some o := by
  rw [Relates, apply_ofOrdering, Value.truth.injEq, beq_iff_eq]

theorem relates_less_iff : less.Relates v w ↔ v.order? w = some .lt :=
  relates_ofOrdering_iff (o := .lt)

theorem relates_equal_iff : equal.Relates v w ↔ v.order? w = some .eq :=
  relates_ofOrdering_iff (o := .eq)

theorem relates_greater_iff : greater.Relates v w ↔ v.order? w = some .gt :=
  relates_ofOrdering_iff (o := .gt)

theorem relates_unequal_iff : unequal.Relates v w ↔ ¬equal.Relates v w := by
  simp [Relates, apply]

theorem relates_strictlyUnequal_iff : strictlyUnequal.Relates v w ↔ ¬strictlyEqual.Relates v w := by
  simp [Relates, apply]

theorem relates_atMost_iff : atMost.Relates v w ↔ less.Relates v w ∨ equal.Relates v w := by
  rw [relates_less_iff, relates_equal_iff, Relates, apply, Value.truth.injEq]
  rcases v.order? w with _ | _ | _ | _
  all_goals decide

theorem relates_atLeast_iff : atLeast.Relates v w ↔ greater.Relates v w ∨ equal.Relates v w := by
  rw [relates_greater_iff, relates_equal_iff, Relates, apply, Value.truth.injEq]
  rcases v.order? w with _ | _ | _ | _
  all_goals decide

theorem mem_iff_exists_ofOrdering {op : BinaryOp} :
    op ∈ [less, equal, greater] ↔ ∃ o, op = ofOrdering o := by
  constructor
  case mp =>
    simp only [List.mem_cons, List.not_mem_nil, or_false]
    rintro (rfl | rfl | rfl)
    · exact ⟨.lt, rfl⟩
    · exact ⟨.eq, rfl⟩
    · exact ⟨.gt, rfl⟩
  case mpr =>
    rintro ⟨o, rfl⟩
    cases o <;> simp [ofOrdering]

theorem existsUnique_relates (h : v.Comparable w) :
    ∃! op, op ∈ [less, equal, greater] ∧ op.Relates v w := by
  obtain ⟨o, ho⟩ : ∃ o, v.order? w = some o :=
    Option.ne_none_iff_exists'.mp fun hn => (Value.order?_eq_none_iff v w).mp hn h
  refine ⟨ofOrdering o, ⟨mem_iff_exists_ofOrdering.mpr ⟨o, rfl⟩, relates_ofOrdering_iff.mpr ho⟩, ?_⟩
  rintro op ⟨hm, hr⟩
  obtain ⟨o', rfl⟩ := mem_iff_exists_ofOrdering.mp hm
  rw [relates_ofOrdering_iff, ho, Option.some.injEq] at hr
  rw [hr]

theorem not_relates (h : ¬v.Comparable w) : ∀ op ∈ [less, equal, greater], ¬op.Relates v w := by
  intro op hm
  obtain ⟨o, rfl⟩ := mem_iff_exists_ofOrdering.mp hm
  rw [relates_ofOrdering_iff, (Value.order?_eq_none_iff v w).mpr h]
  simp

theorem relates_less_comm : less.Relates v w ↔ greater.Relates w v := by
  rw [relates_less_iff, relates_greater_iff, Value.order?_swap v w]
  rcases v.order? w with _ | _ | _ | _
  all_goals decide

theorem relates_equal_comm : equal.Relates v w ↔ equal.Relates w v := by
  rw [relates_equal_iff, relates_equal_iff, Value.order?_swap v w]
  rcases v.order? w with _ | _ | _ | _
  all_goals decide

theorem relates_strictlyEqual_comm : strictlyEqual.Relates v w ↔ strictlyEqual.Relates w v := by
  rw [Relates, apply, Value.strictlyEqual_comm]
  exact .rfl

-- The comparisons of any two values agree with each other.
theorem comparisons_cohere (v w : Value) :
    (v.Comparable w → ∃! op, op ∈ [less, equal, greater] ∧ op.Relates v w) ∧
    (¬v.Comparable w → ∀ op ∈ [less, equal, greater], ¬op.Relates v w) ∧
    (atMost.Relates v w ↔ less.Relates v w ∨ equal.Relates v w) ∧
    (atLeast.Relates v w ↔ greater.Relates v w ∨ equal.Relates v w) ∧
    (less.Relates v w ↔ greater.Relates w v) ∧
    (equal.Relates v w ↔ equal.Relates w v) ∧
    (strictlyEqual.Relates v w ↔ strictlyEqual.Relates w v) ∧
    (strictlyEqual.Relates v w → equal.Relates v w) ∧
    (unequal.Relates v w ↔ ¬equal.Relates v w) ∧
    (strictlyUnequal.Relates v w ↔ ¬strictlyEqual.Relates v w) := by
  refine ⟨existsUnique_relates, not_relates, relates_atMost_iff, relates_atLeast_iff,
    relates_less_comm, relates_equal_comm, relates_strictlyEqual_comm, fun h => ?_,
    relates_unequal_iff, relates_strictlyUnequal_iff⟩
  simp only [Relates, apply, Value.truth.injEq] at h ⊢
  exact Value.looselyEqual_of_strictlyEqual h

-- A text with a number is above a number that it would be below as a text, and a text without one
-- has no place beside a truth.
theorem comparisons_cohere_texts :
    let ten : Value := .text " 10"
    let nine : Value := .number 9.0
    let word : Value := .text "nine"
    ten.Comparable nine ∧ greater.Relates ten nine ∧
      (∃! op, op ∈ [less, equal, greater] ∧ op.Relates ten nine) ∧
      ¬word.Comparable (.truth true) ∧
      ∀ op ∈ [less, equal, greater], ¬op.Relates word (.truth true) := by
  intro ten nine word
  have h : ten.Comparable nine := by decide +kernel
  have h' : ¬word.Comparable (.truth true) := by decide +kernel
  obtain ⟨ho, -⟩ := comparisons_cohere ten nine
  obtain ⟨-, hn, -⟩ := comparisons_cohere word (.truth true)
  exact ⟨h, by decide +kernel, ho h, h', hn h'⟩

end Formula.BinaryOp

end Ordo
