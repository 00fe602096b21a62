import Mathlib
import Ordo.Proofs.Number.Binary

namespace Ordo.Number

open Float.Model (UnpackedFloat Format totalExponent)
open Float.Model.UnpackedFloat (Sign ExtendedMantissa decreaseExponent shiftToTargetExponent
  shiftToExponent roundWithAccuracy)

-- What a significand with its two bits tells of the number `n` that it was shifted from by `k`
-- places: the part `cut` that was lost, as against one half of a place.
def Tells (n k : Nat) (em : ExtendedMantissa) : Prop :=
  ∃ cut < 2 ^ k, n = em.mantissa * 2 ^ k + cut ∧ (em.roundBit ↔ 2 ^ k ≤ 2 * cut) ∧
    (em.stickyBit ↔ 2 * cut ≠ 0 ∧ 2 * cut ≠ 2 ^ k)

variable {n m k : Nat} {em : ExtendedMantissa}

theorem tells_exact (n : Nat) : Tells n 0 (.ofMantissaAndAccuracy n .exact) :=
  ⟨0, by simp [ExtendedMantissa.ofMantissaAndAccuracy]⟩

theorem Tells.shiftRightOne (h : Tells n k em) : Tells n (k + 1) em.shiftRightOne := by
  obtain ⟨cut, hc, hn, hr, hs⟩ := h
  have hp : 2 ^ (k + 1) = 2 * 2 ^ k := Nat.pow_succ'
  have hm : em.mantissa * 2 ^ k = em.mantissa / 2 * 2 ^ (k + 1) + em.mantissa % 2 * 2 ^ k := by
    rw [hp, ← Nat.mul_assoc, ← Nat.add_mul, Nat.mul_comm _ 2, Nat.div_add_mod]
  -- The digit that is shifted out is the first one of the new part.
  rcases Nat.mod_two_eq_zero_or_one em.mantissa with h₂ | h₂
  case inl =>
    rw [h₂, Nat.zero_mul, Nat.add_zero] at hm
    refine ⟨cut, by omega, by rw [hn, hm]; rfl, ?_, ?_⟩
    all_goals simp only [ExtendedMantissa.shiftRightOne, h₂, Bool.or_eq_true, bne_iff_ne, hr, hs]
    all_goals omega
  case inr =>
    rw [h₂, Nat.one_mul] at hm
    refine ⟨2 ^ k + cut, by omega, by rw [hn, hm, Nat.add_assoc]; rfl, ?_, ?_⟩
    all_goals simp only [ExtendedMantissa.shiftRightOne, h₂, Bool.or_eq_true, bne_iff_ne, hr, hs]
    all_goals omega

theorem Tells.shiftRight (h : Tells n 0 em) (k : Nat) : Tells n k (em >>> k) := by
  change Tells n k (Nat.repeat ExtendedMantissa.shiftRightOne k em)
  induction k
  case zero => exact h
  case succ k hi => exact hi.shiftRightOne

-- The rounded significand is at most half a place away.
theorem Tells.close (h : Tells n k em) :
    2 * n ≤ 2 * (em.roundedMantissa * 2 ^ k) + 2 ^ k ∧
      2 * (em.roundedMantissa * 2 ^ k) ≤ 2 * n + 2 ^ k := by
  obtain ⟨cut, hc, hn, hr, hs⟩ := h
  obtain ⟨m, _ | _, _ | _⟩ := em
  all_goals simp only [Bool.false_eq_true, false_iff, true_iff] at hn hr hs
  case false.false =>
    have : ExtendedMantissa.roundedMantissa ⟨m, false, false⟩ = m := rfl
    rw [this]
    omega
  case false.true =>
    have : ExtendedMantissa.roundedMantissa ⟨m, false, true⟩ = m := rfl
    rw [this]
    omega
  case true.false =>
    have : ExtendedMantissa.roundedMantissa ⟨m, true, false⟩ = m + m % 2 := rfl
    rw [this, Nat.add_mul]
    rcases Nat.mod_two_eq_zero_or_one m with h₂ | h₂
    all_goals rw [h₂]; omega
  case true.true =>
    have : ExtendedMantissa.roundedMantissa ⟨m, true, true⟩ = m + 1 := rfl
    rw [this, Nat.add_mul]
    omega

-- The place of the last digit of `m * 2 ^ e` when it is rounded.
def place (m : Nat) (e : Int) : Int :=
  max (m.log2 + e - 52) (-1074)

theorem targetExponent_eq (m : Nat) (e : Int) :
    Format.binary64.targetExponent (totalExponent m e) = place m e := by
  change max ((m.log2 : Int) + 1 + e - 53) (-1074) = max _ _
  congr 1
  omega

theorem decreaseExponent_value (m : Nat) (e t : Int) :
    ((decreaseExponent m e t).1 : Rat) * 2 ^ (decreaseExponent m e t).2 = m * 2 ^ e := by
  simp only [decreaseExponent, Nat.shiftLeft_eq]
  push_cast
  rw [mul_assoc, ← zpow_natCast, ← zpow_add₀ two_ne_zero]
  congr 2
  omega

theorem shift_small {m : Nat} {e : Int} (hm : m < 2 ^ 53) (he : -1074 ≤ e) :
    shiftToTargetExponent Format.binary64 m e .exact = (⟨m, false, false⟩, e) := by
  have hl : m.log2 ≤ 52 := by
    by_cases h₀ : m = 0
    case pos => simp [h₀]
    case neg => exact Nat.le_of_lt_succ ((Nat.log2_lt h₀).mpr hm)
  have hk : (place m e - e).toNat = 0 := by
    rw [place]
    omega
  simp only [shiftToTargetExponent, shiftToExponent, targetExponent_eq, hk]
  exact congrArg (Prod.mk _) (Int.add_zero e)

theorem shift_carry {e : Int} (he : -1074 ≤ e) :
    shiftToTargetExponent Format.binary64 (2 ^ 53) e .exact = (⟨2 ^ 52, false, false⟩, e + 1) := by
  have hk : (place (2 ^ 53) e - e).toNat = 1 := by
    rw [place, Nat.log2_two_pow]
    omega
  simp only [shiftToTargetExponent, shiftToExponent, targetExponent_eq, hk]
  rfl

theorem place_decreaseExponent (hm : 0 < m) (e t : Int) :
    place (decreaseExponent m e t).1 (decreaseExponent m e t).2 = place m e := by
  have log2_shift (k : Nat) : (m * 2 ^ k).log2 = m.log2 + k := by
    induction k
    case zero => rw [Nat.pow_zero, Nat.mul_one]; rfl
    case succ k hi =>
      have : m * 2 ^ k ≠ 0 := (Nat.mul_pos hm (Nat.two_pow_pos k)).ne'
      rw [Nat.pow_succ', Nat.mul_left_comm, Nat.log2_two_mul this, hi]
      rfl
  simp only [decreaseExponent, Nat.shiftLeft_eq, place, log2_shift]
  congr 1
  omega

-- A number rounded to the place `t`, which is that of the last of its 53 digits or the least one.
structure IsRounded (q z : Rat) (t : Int) : Prop where
  multiple : ∃ n : Int, z = n * 2 ^ t
  close    : |z - q| ≤ 2 ^ t / 2
  below    : |q| < 2 ^ 53 * 2 ^ t
  above    : t = -1074 ∨ 2 ^ 52 * 2 ^ t ≤ |q|

namespace IsRounded

variable {q z : Rat} {t : Int}

theorem neg (h : IsRounded q z t) : IsRounded (-q) (-z) t where
  multiple := by
    obtain ⟨n, rfl⟩ := h.multiple
    exact ⟨-n, by push_cast; ring⟩
  close := by rw [neg_sub_neg, abs_sub_comm]; exact h.close
  below := by rw [abs_neg]; exact h.below
  above := by rw [abs_neg]; exact h.above

theorem apply {r : Nat} {e : Int} (h : IsRounded (m * 2 ^ e) (r * 2 ^ t) t) (s : Sign) :
    IsRounded (s.apply m * 2 ^ e) (s.apply r * 2 ^ t) t := by
  cases s
  case positive => exact h
  case negative =>
    simp only [Sign.apply, Int.cast_neg, Int.cast_natCast, neg_mul]
    exact h.neg

end IsRounded

-- Where no digits have to be appended, the significand has the digits that the place asks for.
theorem place_bounds {e : Int} {j : Nat} (hm : 0 < m) (hj : place m e = e + j) :
    m < 2 ^ 53 * 2 ^ j ∧ (2 ^ 52 * 2 ^ j ≤ m ∨ place m e = -1074) := by
  have hl : m < 2 ^ (m.log2 + 1) := Nat.lt_log2_self
  have hg : 2 ^ m.log2 ≤ m := Nat.log2_self_le hm.ne'
  rw [← Nat.pow_add, ← Nat.pow_add]
  refine ⟨hl.trans_le (Nat.pow_le_pow_right two_pos ?_), ?_⟩
  case refine_1 =>
    rw [place] at hj
    omega
  case refine_2 =>
    by_cases hp : place m e = -1074
    case pos => exact .inr hp
    case neg =>
      refine .inl ((Nat.pow_le_pow_right two_pos ?_).trans hg)
      rw [place] at hj hp
      omega

theorem isRounded_of_close {r j : Nat} {e : Int} (hm : 0 < m) (hj : place m e = e + j)
    (hl : 2 * m ≤ 2 * (r * 2 ^ j) + 2 ^ j) (hu : 2 * (r * 2 ^ j) ≤ 2 * m + 2 ^ j) :
    IsRounded (m * 2 ^ e) (r * 2 ^ place m e) (place m e) := by
  have he : (0 : Rat) < 2 ^ e := zpow_pos two_pos e
  have hp : (2 : Rat) ^ place m e = 2 ^ j * 2 ^ e := by
    rw [hj, zpow_add₀ two_ne_zero, zpow_natCast, mul_comm]
  have ha : |(m : Rat) * 2 ^ e| = m * 2 ^ e := abs_of_pos (mul_pos (by exact_mod_cast hm) he)
  obtain ⟨hb, hf⟩ := place_bounds hm hj
  refine ⟨⟨r, by simp⟩, ?_, ?_, hf.symm.imp_right fun hf => ?_⟩
  case refine_1 =>
    have hl : 2 * (m : Rat) ≤ 2 * (r * 2 ^ j) + 2 ^ j := by exact_mod_cast hl
    have hu : 2 * ((r : Rat) * 2 ^ j) ≤ 2 * m + 2 ^ j := by exact_mod_cast hu
    rw [hp, ← mul_assoc, ← sub_mul, abs_mul, abs_of_pos he, ← div_mul_eq_mul_div]
    refine mul_le_mul_of_nonneg_right ?_ he.le
    rw [abs_le]
    constructor <;> linarith
  case refine_2 =>
    rw [ha, hp, ← mul_assoc]
    exact mul_lt_mul_of_pos_right (by exact_mod_cast hb) he
  case refine_3 =>
    rw [ha, hp, ← mul_assoc]
    exact mul_le_mul_of_nonneg_right (by exact_mod_cast hf) he.le

-- The binary64 number that a number is rounded to, if that is within the range of such numbers.
def Approximates (x : Float) (q : Rat) : Prop :=
  ∃ z t, IsRounded q z t ∧ (|z| < 2 ^ (1024 : Int) → HasValue x z)

theorem abs_apply (s : Sign) (n : Nat) : |((s.apply n : Int) : Rat)| = n := by
  cases s
  case positive => exact abs_of_nonneg (Nat.cast_nonneg n)
  case negative => rw [Sign.apply, Int.cast_neg, abs_neg]; exact abs_of_nonneg (Nat.cast_nonneg n)

theorem apply_eq (s : Sign) (n : Nat) : ((s.apply n : Int) : Rat) = (s.apply 1 : Int) * n := by
  cases s <;> simp [Sign.apply]

theorem two_pow_mul (k : Nat) (t : Int) : (2 : Rat) ^ k * 2 ^ t = 2 ^ (k + t) := by
  rw [zpow_add₀ two_ne_zero, zpow_natCast]

theorem lt_of_two_pow_lt {t n : Int} (h : (2 : Rat) ^ t < 2 ^ n) : t < n :=
  (zpow_lt_zpow_iff_right₀ one_lt_two).mp h

theorem exponent_lt {r k : Nat} {t n : Int} (hr : 2 ^ k ≤ r) (h : (r : Rat) * 2 ^ t < 2 ^ n) :
    k + t < n := by
  have hr : (2 : Rat) ^ k ≤ r := by exact_mod_cast hr
  refine lt_of_two_pow_lt ?_
  rw [← two_pow_mul]
  exact (mul_le_mul_of_nonneg_right hr (zpow_pos two_pos t).le).trans_lt h

-- The significand of a rounded number, which may have got one digit more.
theorem hasValue_carried {s : Sign} {r : Nat} {t : Int} {x : Float} (hr : r ≤ 2 ^ 53)
    (hf : 2 ^ 52 ≤ r ∨ t = -1074) (ht : -1074 ≤ t)
    (hz : |((s.apply r : Int) : Rat) * 2 ^ t| < 2 ^ (1024 : Int))
    (hx : x.toModel = .pack (
      let final := shiftToTargetExponent Format.binary64 r t .exact
      if h : final.1.mantissa = 0 then .zero s
      else .finite s final.1.mantissa final.2 (Nat.pos_of_ne_zero h))) :
    HasValue x (s.apply r * 2 ^ t) := by
  rw [abs_mul, abs_apply, abs_of_pos (zpow_pos two_pos t)] at hz
  rcases hr.lt_or_eq with hr | rfl
  case inl =>
    rw [shift_small hr ht] at hx
    by_cases h₀ : r = 0
    case pos =>
      simp only [dif_pos h₀] at hx
      have hs : ((s.apply r : Int) : Rat) * 2 ^ t = 0 := by
        rw [← abs_eq_zero, abs_mul, abs_apply, h₀, Nat.cast_zero, zero_mul]
      rw [hs]
      exact .zero (s := s) (by rw [hx, unpack_pack_zero])
    case neg =>
      simp only [dif_neg h₀] at hx
      have hc : IsCanonical r t := ⟨hr, hf, ht⟩
      have he : t ≤ 971 := by
        rcases hf with hf | rfl
        case inl => have := exponent_lt hf hz; omega
        case inr => decide
      exact .finite hc he (by rw [hx, unpack_pack _ hc he])
  case inr =>
    rw [shift_carry ht] at hx
    have hc : IsCanonical (2 ^ 52) (t + 1) := ⟨by decide, .inl le_rfl, by omega⟩
    have he : t + 1 ≤ 971 := by have := exponent_lt le_rfl hz; omega
    have hs : ((s.apply (2 ^ 53 : Nat) : Int) : Rat) * 2 ^ t =
        (s.apply (2 ^ 52 : Nat) : Int) * 2 ^ (t + 1) := by
      rw [zpow_add_one₀ two_ne_zero]
      cases s
      all_goals simp only [Sign.apply]; push_cast; ring
    rw [hs]
    exact .finite hc he (by rw [hx]; exact unpack_pack _ hc he)

theorem approximates_of_le {e : Int} {x : Float} (s : Sign) (hm : 0 < m) (he : e ≤ place m e)
    (hx : x.toModel = .pack (roundWithAccuracy Format.binary64 s m e .exact)) :
    Approximates x (s.apply m * 2 ^ e) := by
  obtain ⟨j, hj⟩ : ∃ j : Nat, place m e = e + j := Int.le.dest he |>.imp fun _ h => h.symm
  obtain ⟨em, hem⟩ : ∃ em, em = ExtendedMantissa.ofMantissaAndAccuracy m .exact >>> j := ⟨_, rfl⟩
  obtain ⟨hl, hu⟩ := ((tells_exact m).shiftRight j).close
  rw [← hem] at hl hu
  obtain ⟨hb, hf⟩ := place_bounds hm hj
  have hp := Nat.two_pow_pos j
  refine ⟨_, _, (isRounded_of_close hm hj hl hu).apply s, fun hz => ?_⟩
  refine hasValue_carried ?_ (hf.imp_left fun hf => ?_) ?_ hz ?_
  case refine_1 | refine_2 =>
    by_contra hr
    have := Nat.mul_le_mul_right (2 ^ j) (Nat.lt_of_not_le hr)
    rw [Nat.succ_mul] at this
    omega
  case refine_3 => exact le_max_right ..
  case refine_4 =>
    have : (shiftToTargetExponent Format.binary64 m e .exact) = (em, place m e) := by
      simp only [shiftToTargetExponent, shiftToExponent, targetExponent_eq, hj, hem,
        add_sub_cancel_left, Int.toNat_natCast]
    rw [hx, roundWithAccuracy, this]

theorem approximates_round {e : Int} {x : Float} (s : Sign) (hm : 0 < m)
    (hx : x.toModel = .pack (.round Format.binary64 s m e)) :
    Approximates x (s.apply m * 2 ^ e) := by
  obtain ⟨d, hd⟩ : ∃ d, d = decreaseExponent m e (place m e) := ⟨_, rfl⟩
  have hm' : 0 < d.1 := by
    rw [hd, decreaseExponent, Nat.shiftLeft_eq]
    exact Nat.mul_pos hm (Nat.two_pow_pos _)
  have he : d.2 ≤ place d.1 d.2 := by
    rw [hd, place_decreaseExponent hm, decreaseExponent]
    omega
  have hv : ((s.apply m : Int) : Rat) * 2 ^ e = (s.apply d.1 : Int) * 2 ^ d.2 := by
    rw [apply_eq, apply_eq s d.1, mul_assoc, mul_assoc, hd, decreaseExponent_value]
  rw [hv]
  refine approximates_of_le s hm' he (hx.trans ?_)
  rw [UnpackedFloat.round, targetExponent_eq, hd]

-- The value of a sum of multiples of one power of two.
theorem approximates_normalize {n : Int} {e : Int} {x : Float}
    (hx : x.toModel = .pack (.normalize Format.binary64 n e .positive)) :
    Approximates x (n * 2 ^ e) := by
  rcases lt_trichotomy n 0 with hn | rfl | hn
  case inl =>
    obtain ⟨m, rfl⟩ : ∃ m : Nat, n = -m := ⟨(-n).toNat, by omega⟩
    refine approximates_round (m := m) .negative (by omega) (hx.trans ?_)
    rw [UnpackedFloat.normalize, compare_lt_iff_lt.mpr hn, neg_neg]
    rfl
  case inr.inl =>
    have hx : HasValue x 0 := by
      refine .zero (s := .positive) ?_
      rw [hx, UnpackedFloat.normalize, compare_eq_iff_eq.mpr rfl]
      exact unpack_pack_zero _
    refine ⟨0, -1074, ⟨⟨0, by simp⟩, ?_, ?_, .inl rfl⟩, fun _ => hx⟩
    all_goals
      simp only [Int.cast_zero, zero_mul, sub_zero, abs_zero]
      positivity
  case inr.inr =>
    obtain ⟨m, rfl⟩ : ∃ m : Nat, n = m := ⟨n.toNat, by omega⟩
    refine approximates_round (m := m) .positive (by omega) (hx.trans ?_)
    rw [UnpackedFloat.normalize, compare_gt_iff_gt.mpr hn]
    rfl

-- A value as a multiple of a power of two that is not above its own.
theorem apply_decreaseExponent (s : Sign) (m : Nat) {e t : Int} (h : t ≤ e) :
    ((s.apply (decreaseExponent m e t).1 : Int) : Rat) * 2 ^ t = (s.apply m : Int) * 2 ^ e := by
  have ht : (decreaseExponent m e t).2 = t := by
    simp only [decreaseExponent]
    omega
  have hv := decreaseExponent_value m e t
  rw [ht] at hv
  rw [apply_eq, apply_eq s m, mul_assoc, mul_assoc, hv]

variable {x y : Float} {p q : Rat}

theorem toModel_add (x y : Float) :
    (x + y).toModel = .pack (.add Format.binary64 x.toModel.unpack y.toModel.unpack) := rfl

theorem toModel_sub (x y : Float) :
    (x - y).toModel = .pack (.sub Format.binary64 x.toModel.unpack y.toModel.unpack) := rfl

theorem approximates_add (hx : HasValue x p) (hy : HasValue y q) (hp : p ≠ 0) (hq : q ≠ 0) :
    Approximates (x + y) (p + q) := by
  obtain ⟨hx⟩ | @⟨s, m, e, hm, hc, -, hx⟩ := hx
  case zero => exact absurd rfl hp
  obtain ⟨hy⟩ | @⟨s', m', e', hm', hc', -, hy⟩ := hy
  case finite.zero => exact absurd rfl hq
  have h := toModel_add x y
  rw [hx, hy] at h
  rw [← apply_decreaseExponent s m (min_le_left e e'),
    ← apply_decreaseExponent s' m' (min_le_right e e'), ← add_mul, ← Int.cast_add]
  exact approximates_normalize h

theorem approximates_sub (hx : HasValue x p) (hy : HasValue y q) (hp : p ≠ 0) (hq : q ≠ 0) :
    Approximates (x - y) (p - q) := by
  obtain ⟨hx⟩ | @⟨s, m, e, hm, hc, -, hx⟩ := hx
  case zero => exact absurd rfl hp
  obtain ⟨hy⟩ | @⟨s', m', e', hm', hc', -, hy⟩ := hy
  case finite.zero => exact absurd rfl hq
  have h := toModel_sub x y
  rw [hx, hy] at h
  rw [← apply_decreaseExponent s m (min_le_left e e'),
    ← apply_decreaseExponent s' m' (min_le_right e e'), ← sub_mul, ← Int.cast_sub]
  exact approximates_normalize h

namespace IsRounded

variable {q z p : Rat} {t n : Int}

theorem close_of_lt (h : IsRounded q z t) (hn : -1021 ≤ n) (hq : |q| < 2 ^ n) :
    |z - q| ≤ 2 ^ (n - 54) := by
  have ht : t ≤ n - 53 := by
    rcases h.above with rfl | ha
    case inl => omega
    case inr =>
      rw [two_pow_mul] at ha
      have := lt_of_two_pow_lt (ha.trans_lt hq)
      omega
  calc
    |z - q| ≤ 2 ^ t / 2 := h.close
    _ = 2 ^ (t - 1) := (zpow_sub_one₀ two_ne_zero t).symm
    _ ≤ 2 ^ (n - 54) := zpow_le_zpow_right₀ one_le_two (by omega)

theorem le_place (h : IsRounded q z t) (hq : 2 ^ n ≤ |q|) : n - 52 ≤ t := by
  have hb := h.below
  rw [two_pow_mul] at hb
  have := lt_of_two_pow_lt (hq.trans_lt hb)
  omega

theorem nonneg (h : IsRounded q z t) (hq : 0 ≤ q) : 0 ≤ z := by
  obtain ⟨n, rfl⟩ := h.multiple
  have hp : (0 : Rat) < 2 ^ t := zpow_pos two_pos t
  have hn : (-1 : Int) < n := by
    have hl : -1 * (2 : Rat) ^ t < n * 2 ^ t := by linarith [(abs_le.mp h.close).1]
    exact_mod_cast lt_of_mul_lt_mul_right hl hp.le
  exact mul_nonneg (by exact_mod_cast hn) hp.le

-- A multiple of the place that is less than half a place away is what the number is rounded to.
theorem eq_of_multiple (h : IsRounded q z t) {k : Int} (hk : p = k * 2 ^ t)
    (hp : |q - p| < 2 ^ t / 2) : z = p := by
  obtain ⟨n, rfl⟩ := h.multiple
  have ht : (0 : Rat) < 2 ^ t := zpow_pos two_pos t
  have hd : |((n - k : Int) : Rat)| * 2 ^ t < 1 * 2 ^ t := by
    calc
      |((n - k : Int) : Rat)| * 2 ^ t = |n * 2 ^ t - p| := by
        rw [← abs_of_pos ht, ← abs_mul, abs_of_pos ht, hk]; push_cast; ring_nf
      _ ≤ |n * 2 ^ t - q| + |q - p| := abs_sub_le ..
      _ < 1 * 2 ^ t := by linarith [h.close]
  have hd : |n - k| < 1 := by exact_mod_cast lt_of_mul_lt_mul_right hd ht.le
  rw [hk, sub_eq_zero.mp (Int.abs_lt_one_iff.mp hd)]

end IsRounded

namespace HasValue

variable {x : Float} {p : Rat} {t : Int}

theorem abs_lt (h : HasValue x p) : |p| < 2 ^ (1024 : Int) := by
  rcases h with - | @⟨s, m, e, hm, hc, he, -⟩
  case zero =>
    rw [abs_zero]
    exact zpow_pos two_pos _
  case finite =>
    rw [abs_mul, abs_apply, abs_of_pos (zpow_pos two_pos e)]
    calc
      (m : Rat) * 2 ^ e < 2 ^ (53 : Nat) * 2 ^ e :=
        mul_lt_mul_of_pos_right (by exact_mod_cast hc.bits) (zpow_pos two_pos e)
      _ = 2 ^ (53 + e) := two_pow_mul 53 e
      _ ≤ 2 ^ (1024 : Int) := zpow_le_zpow_right₀ one_le_two (by omega)

-- A number has no digits below the place at which a number of its size is rounded.
theorem exists_multiple (h : HasValue x p) (ht : t = -1074 ∨ 2 ^ 52 * 2 ^ t ≤ |p|) :
    ∃ k : Int, p = k * 2 ^ t := by
  rcases h with - | @⟨s, m, e, hm, hc, -, -⟩
  case zero => exact ⟨0, by simp⟩
  case finite =>
    have he : t ≤ e := by
      rcases ht with rfl | ht
      case inl => exact hc.least
      case inr =>
        rw [abs_mul, abs_apply, abs_of_pos (zpow_pos two_pos e)] at ht
        have hm : (m : Rat) < 2 ^ 53 := by exact_mod_cast hc.bits
        have := ht.trans_lt (mul_lt_mul_of_pos_right hm (zpow_pos two_pos e))
        rw [two_pow_mul, two_pow_mul] at this
        have := lt_of_two_pow_lt this
        omega
    exact ⟨_, (apply_decreaseExponent s m he).symm⟩

end HasValue

end Ordo.Number
