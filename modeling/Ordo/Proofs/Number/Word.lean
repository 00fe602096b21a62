namespace Ordo

-- A number between two bounds, or nothing where a step of its computation has left them.
def Word (least greatest : Int) : Type :=
  Option {n : Int // least ≤ n ∧ n ≤ greatest}

namespace Word

abbrev Signed32 := Word (-0x80000000) 0x7FFFFFFF

abbrev Signed64 := Word (-0x8000000000000000) 0x7FFFFFFFFFFFFFFF

abbrev Unsigned32 := Word 0 0xFFFFFFFF

section

variable {l g l' g' : Int}

instance : DecidableEq (Word l g) :=
  inferInstanceAs (DecidableEq (Option _))

def hold (n : Int) : Word l g :=
  if h : l ≤ n ∧ n ≤ g then some ⟨n, h⟩ else none

def ofNat? : Option Nat → Word l g
  | some n => hold n
  | none   => none

-- The number that the computation has come to.
def value? : Word l g → Option Int
  | some n => some n
  | none   => none

def Is (x : Word l g) (n : Int) : Prop :=
  x.value? = some n

instance (x : Word l g) (n : Int) : Decidable (x.Is n) :=
  inferInstanceAs (Decidable (_ = _))

-- A number is never cut to the bounds of another word.
def cast : Word l g → Word l' g'
  | some n => hold n
  | none   => none

def step (f : Int → Int → Word l g) : Word l g → Word l g → Word l g
  | some a, some b => f a b
  | _, _           => none

-- A remainder is refused along with its quotient.
def divided (a b : Int) (quotient outcome : Int → Int → Int) : Word l g :=
  if b = 0 ∨ quotient a b < l ∨ g < quotient a b then none else hold (outcome a b)

instance {n : Nat} : OfNat (Word l g) n :=
  ⟨hold (OfNat.ofNat n)⟩

instance : Add (Word l g) :=
  ⟨step fun a b => hold (a + b)⟩

instance : Sub (Word l g) :=
  ⟨step fun a b => hold (a - b)⟩

instance : Mul (Word l g) :=
  ⟨step fun a b => hold (a * b)⟩

-- The quotient is rounded to zero, and the remainder has the sign of the dividend.
instance : Div (Word l g) :=
  ⟨step fun a b => divided a b Int.tdiv Int.tdiv⟩

instance : Mod (Word l g) :=
  ⟨step fun a b => divided a b Int.tdiv Int.tmod⟩

-- The quotient whose remainder is not negative.
def ediv : Word l g → Word l g → Word l g :=
  step fun a b => divided a b Int.ediv Int.ediv

def emod : Word l g → Word l g → Word l g :=
  step fun a b => divided a b Int.ediv Int.emod

instance : LT (Word l g) :=
  ⟨fun x y => ∃ a ∈ x.value?, ∃ b ∈ y.value?, a < b⟩

instance (x y : Word l g) : Decidable (x < y) :=
  inferInstanceAs (Decidable (∃ a ∈ x.value?, ∃ b ∈ y.value?, a < b))

-- The entry of a table at the place that the word names.
def entry {α : Type} (table : List α) (x : Word l g) : Option α :=
  x.value?.bind fun n => if n < 0 then none else table[n.toNat]?

end

section

variable {l g l' g' a b n : Int}

theorem hold_eq (h : l ≤ n) (h' : n ≤ g) : (hold n : Word l g) = some ⟨n, h, h'⟩ :=
  dif_pos ⟨h, h'⟩

theorem is_hold_iff : (hold n : Word l g).Is n ↔ l ≤ n ∧ n ≤ g := by
  by_cases h : l ≤ n ∧ n ≤ g
  case pos =>
    rw [hold_eq h.1 h.2]
    exact iff_of_true rfl h
  case neg =>
    have hn : (hold n : Word l g) = none := dif_neg h
    rw [hn]
    exact iff_of_false (by rintro ⟨⟩) h

-- The greatest number has no successor in its word.
example : ¬((0x7FFFFFFF : Signed32) + 1).Is 0x80000000 := by decide

theorem cast_hold (h : l ≤ n) (h' : n ≤ g) : (hold n : Word l g).cast = (hold n : Word l' g') := by
  rw [hold_eq h h']
  rfl

theorem step_hold (f : Int → Int → Word l g) (ha : l ≤ a) (ha' : a ≤ g) (hb : l ≤ b)
    (hb' : b ≤ g) : step f (hold a) (hold b) = f a b := by
  rw [hold_eq ha ha', hold_eq hb hb']
  rfl

theorem ofNat_eq (n : Nat) : (OfNat.ofNat n : Word l g) = hold (OfNat.ofNat n) :=
  rfl

theorem hold_add (ha : l ≤ a) (ha' : a ≤ g) (hb : l ≤ b) (hb' : b ≤ g) :
    (hold a + hold b : Word l g) = hold (a + b) :=
  step_hold _ ha ha' hb hb'

theorem hold_sub (ha : l ≤ a) (ha' : a ≤ g) (hb : l ≤ b) (hb' : b ≤ g) :
    (hold a - hold b : Word l g) = hold (a - b) :=
  step_hold _ ha ha' hb hb'

theorem hold_mul (ha : l ≤ a) (ha' : a ≤ g) (hb : l ≤ b) (hb' : b ≤ g) :
    (hold a * hold b : Word l g) = hold (a * b) :=
  step_hold _ ha ha' hb hb'

theorem divided_eq {quotient : Int → Int → Int} (outcome : Int → Int → Int) (hb : b ≠ 0)
    (h : l ≤ quotient a b) (h' : quotient a b ≤ g) :
    (divided a b quotient outcome : Word l g) = hold (outcome a b) :=
  if_neg (by omega)

-- A quotient by a positive number lies between the dividend and zero.
theorem ediv_bounds (ha : l ≤ a) (ha' : a ≤ g) (hl : l ≤ 0) (hg : 0 ≤ g) (hb : 0 < b) :
    l ≤ a / b ∧ a / b ≤ g := by
  by_cases h : 0 ≤ a
  case pos =>
    have hq := Int.ediv_nonneg h (Int.le_of_lt hb)
    have hs := Int.ediv_le_self b h
    omega
  case neg =>
    have h : a < 0 := by omega
    have hq := Int.ediv_neg_of_neg_of_pos h hb
    have hs := Int.self_le_ediv_of_nonpos_of_nonneg (Int.le_of_lt h) (Int.le_of_lt hb)
    omega

theorem hold_ediv (ha : l ≤ a) (ha' : a ≤ g) (hb : 0 < b) (hb' : b ≤ g) (hl : l ≤ 0) :
    (hold a : Word l g).ediv (hold b) = hold (a / b) := by
  obtain ⟨h, h'⟩ := ediv_bounds ha ha' hl (by omega) hb
  rw [ediv, step_hold _ ha ha' (by omega) hb']
  exact divided_eq _ (by omega) h h'

theorem hold_emod (ha : l ≤ a) (ha' : a ≤ g) (hb : 0 < b) (hb' : b ≤ g) (hl : l ≤ 0) :
    (hold a : Word l g).emod (hold b) = hold (a % b) := by
  obtain ⟨h, h'⟩ := ediv_bounds ha ha' hl (by omega) hb
  rw [emod, step_hold _ ha ha' (by omega) hb']
  exact divided_eq _ (by omega) h h'

-- The two divisions differ for a negative dividend only.
theorem hold_div (ha : 0 ≤ a) (ha' : a ≤ g) (hb : 0 < b) (hb' : b ≤ g) (hl : l ≤ 0) :
    (hold a / hold b : Word l g) = hold (a / b) := by
  obtain ⟨h, h'⟩ := ediv_bounds (l := l) (by omega) ha' hl (by omega) hb
  have hq : a.tdiv b = a / b := Int.tdiv_eq_ediv_of_nonneg ha
  have hs : (hold a / hold b : Word l g) = divided a b Int.tdiv Int.tdiv :=
    step_hold _ (by omega) ha' (by omega) hb'
  rw [hs, divided_eq _ (by omega) (by omega) (by omega), hq]

theorem hold_mod (ha : 0 ≤ a) (ha' : a ≤ g) (hb : 0 < b) (hb' : b ≤ g) (hl : l ≤ 0) :
    (hold a % hold b : Word l g) = hold (a % b) := by
  obtain ⟨h, h'⟩ := ediv_bounds (l := l) (by omega) ha' hl (by omega) hb
  have hq : a.tdiv b = a / b := Int.tdiv_eq_ediv_of_nonneg ha
  have hs : (hold a % hold b : Word l g) = divided a b Int.tdiv Int.tmod :=
    step_hold _ (by omega) ha' (by omega) hb'
  rw [hs, divided_eq _ (by omega) (by omega) (by omega), Int.tmod_eq_emod_of_nonneg ha]

theorem hold_lt_iff (ha : l ≤ a) (ha' : a ≤ g) (hb : l ≤ b) (hb' : b ≤ g) :
    (hold a : Word l g) < hold b ↔ a < b := by
  rw [hold_eq ha ha', hold_eq hb hb']
  constructor
  case mp =>
    rintro ⟨_, ⟨⟩, _, ⟨⟩, h⟩
    exact h
  case mpr => exact fun h => ⟨a, rfl, b, rfl, h⟩

theorem hold_eq_iff (ha : l ≤ a) (ha' : a ≤ g) (hb : l ≤ b) (hb' : b ≤ g) :
    (hold a : Word l g) = hold b ↔ a = b := by
  refine ⟨fun h => ?_, congrArg hold⟩
  have hv : (hold a : Word l g).Is a := is_hold_iff.mpr ⟨ha, ha'⟩
  rw [h] at hv
  exact Option.some.inj (hv.symm.trans (is_hold_iff.mpr ⟨hb, hb'⟩))

theorem entry_hold {α : Type} (table : List α) (h : l ≤ n) (h' : n ≤ g) (hn : 0 ≤ n) :
    entry table (hold n : Word l g) = table[n.toNat]? := by
  rw [hold_eq h h']
  exact if_neg (Int.not_lt.mpr hn)

end

end Word

end Ordo
