import Mathlib
import Ordo.Proofs.Value

namespace Ordo.Number

open Float.Model (UnpackedFloat Format)
open Float.Model.UnpackedFloat (Sign packComponents unpackMantissa unpackExponent unpackSign
  unpackMantissa_packComponents unpackExponent_packComponents unpackSign_packComponents)

-- A significand and an exponent as a finite number has them: with all of its digits, or with the
-- least exponent.
structure IsCanonical (m : Nat) (e : Int) : Prop where
  bits  : m < 2 ^ 53
  full  : 2 ^ 52 ≤ m ∨ e = -1074
  least : -1074 ≤ e

variable {s : Sign} {m : Nat} {e : Int}

theorem toNat_append_one (v : BitVec 52) : (1#1 ++ v).toNat = 2 ^ 52 + v.toNat := by
  rw [BitVec.toNat_append, ← Nat.shiftLeft_add_eq_or_of_lt v.isLt]
  rfl

-- The bits of a number with a leading one that is not written.
theorem unpack_normal (x : BitVec 11) (v : BitVec 52) (h₁ : x ≠ -1#11) (h₀ : x ≠ 0#11) (h) :
    UnpackedFloat.unpack Format.binary64 (packComponents Format.binary64 s x v) =
      .finite s (2 ^ 52 + v.toNat) (x.toNat - 1075) h := by
  simp only [UnpackedFloat.unpack, unpackMantissa_packComponents, unpackExponent_packComponents,
    unpackSign_packComponents, Sign.ofBitVec_toBitVec]
  rw [if_neg h₁, if_neg h₀]
  congr 1
  exact toNat_append_one v

theorem unpack_subnormal (v : BitVec 52) (h) :
    UnpackedFloat.unpack Format.binary64 (packComponents Format.binary64 s 0#11 v) =
      .finite s v.toNat (-1074) h := by
  have hv : v ≠ 0#52 := by
    rintro rfl
    exact absurd h (by decide)
  simp only [UnpackedFloat.unpack, unpackMantissa_packComponents, unpackExponent_packComponents,
    unpackSign_packComponents, Sign.ofBitVec_toBitVec]
  rw [if_neg (by decide), if_pos trivial, dif_neg hv]
  rfl

theorem unpack_pack (hm : 0 < m) (hc : IsCanonical m e) (he : e ≤ 971) :
    (Float.Model.pack (.finite s m e hm)).unpack = .finite s m e hm := by
  obtain ⟨hb, hf, hl⟩ := hc
  obtain ⟨k, hk⟩ : ∃ k : Nat, e + 1075 = k := ⟨(e + 1075).toNat, by omega⟩
  change UnpackedFloat.unpack Format.binary64 (UnpackedFloat.pack Format.binary64 _) = _
  have hk' : (e + (Format.exponentBias Format.binary64 : Nat) + (52 : Nat)).toNat = k := by
    have : Format.exponentBias Format.binary64 = 1023 := rfl
    omega
  have ho : ¬2 ^ 11 ≤ k + 1 := by omega
  simp only [UnpackedFloat.pack, hk', if_neg ho]
  by_cases hn : 2 ^ 52 ≤ m
  case pos =>
    have hx : (BitVec.ofNat 11 k).toNat = k := by
      rw [BitVec.toNat_ofNat, Nat.mod_eq_of_lt (by omega)]
    have hv : (BitVec.ofNat 52 m).toNat = m - 2 ^ 52 := by
      rw [BitVec.toNat_ofNat]
      omega
    have hg : m.log2 + 1 = Format.mantissaBits Format.binary64 := by
      rw [(Nat.log2_eq_iff (by omega)).mpr ⟨hn, hb⟩]
      rfl
    have ne_of_toNat {x : BitVec 11} (h : k ≠ x.toNat) : BitVec.ofNat 11 k ≠ x := by
      rintro rfl
      exact h hx.symm
    have h₁ : BitVec.ofNat 11 k ≠ -1#11 := ne_of_toNat (by change k ≠ 2047; omega)
    have h₀ : BitVec.ofNat 11 k ≠ 0#11 := ne_of_toNat (by change k ≠ 0; omega)
    rw [if_pos hg, unpack_normal _ _ h₁ h₀ (by omega)]
    congr 1
    all_goals omega
  case neg =>
    have hv : (BitVec.ofNat 52 m).toNat = m := by
      rw [BitVec.toNat_ofNat, Nat.mod_eq_of_lt (by omega)]
    have hg : m.log2 + 1 ≠ Format.mantissaBits Format.binary64 := by
      have := (Nat.log2_lt (by omega : m ≠ 0)).mpr (by omega : m < 2 ^ 52)
      have : Format.mantissaBits Format.binary64 = 53 := rfl
      omega
    rw [if_neg hg]
    obtain rfl : e = -1074 := hf.resolve_left hn
    refine (unpack_subnormal _ (by omega)).trans ?_
    congr 1

theorem unpack_pack_zero (s : Sign) : (Float.Model.pack (.zero s)).unpack = .zero s := by
  cases s <;> rfl

theorem isCanonical_unpack {x : Float.Model} {h : 0 < m} (hx : x.unpack = .finite s m e h) :
    IsCanonical m e ∧ e ≤ 971 := by
  obtain ⟨⟨b⟩, hv⟩ := x
  have hx : UnpackedFloat.unpack Format.binary64 b = .finite s m e h := hx
  have hb := (@unpackMantissa Format.binary64 b).isLt
  simp only [UnpackedFloat.unpack] at hx
  have h₁ : @unpackExponent Format.binary64 b ≠ -1#11 := by
    intro h₁
    rw [if_pos h₁] at hx
    split at hx <;> cases hx
  rw [if_neg h₁] at hx
  by_cases h₀ : @unpackExponent Format.binary64 b = 0#11
  case pos =>
    rw [if_pos h₀] at hx
    split at hx
    case isTrue => cases hx
    case isFalse =>
      cases hx
      rw [h₀]
      exact ⟨⟨Nat.lt_trans hb (by decide), .inr rfl, by decide⟩, by decide⟩
  case neg =>
    rw [if_neg h₀] at hx
    cases hx
    have hx : (@unpackExponent Format.binary64 b).toNat < 2 ^ 11 := BitVec.isLt _
    have hx₀ : (@unpackExponent Format.binary64 b).toNat ≠ 0 :=
      fun h => h₀ (BitVec.eq_of_toNat_eq h)
    have hx₁ : (@unpackExponent Format.binary64 b).toNat ≠ 2047 :=
      fun h => h₁ (BitVec.eq_of_toNat_eq h)
    have hm := toNat_append_one (@unpackMantissa Format.binary64 b)
    have hB : (Format.exponentBias Format.binary64 : Int) + (52 : Nat) = 1075 := rfl
    rw [hm]
    exact ⟨⟨by omega, .inl (by omega), by omega⟩, by omega⟩

-- A greater exponent beats all significands.
theorem magnitude_lt {m₁ m₂ : Nat} {e₁ e₂ : Int} (h₁ : IsCanonical m₁ e₁) (h₂ : IsCanonical m₂ e₂)
    (he : e₁ < e₂) : (m₁ : Rat) * 2 ^ e₁ < m₂ * 2 ^ e₂ := by
  have hf : 2 ^ 52 ≤ m₂ := h₂.full.resolve_right (by have := h₁.least; omega)
  have hp (e : Int) : (0 : Rat) < 2 ^ e := zpow_pos two_pos e
  calc
    (m₁ : Rat) * 2 ^ e₁ < 2 ^ 53 * 2 ^ e₁ :=
      mul_lt_mul_of_pos_right (by exact_mod_cast h₁.bits) (hp e₁)
    _ = 2 ^ 52 * 2 ^ (e₁ + 1) := by rw [zpow_add_one₀ two_ne_zero]; ring
    _ ≤ 2 ^ 52 * 2 ^ e₂ :=
      mul_le_mul_of_nonneg_left (zpow_le_zpow_right₀ one_le_two he) (by positivity)
    _ ≤ m₂ * 2 ^ e₂ := mul_le_mul_of_nonneg_right (by exact_mod_cast hf) (hp e₂).le

theorem compare_magnitudes {m₁ m₂ : Nat} {e₁ e₂ : Int} (h₁ : IsCanonical m₁ e₁)
    (h₂ : IsCanonical m₂ e₂) :
    (compare e₁ e₂).then (compare m₁ m₂) = compare ((m₁ : Rat) * 2 ^ e₁) (m₂ * 2 ^ e₂) := by
  rcases lt_trichotomy e₁ e₂ with he | rfl | he
  case inl =>
    rw [compare_lt_iff_lt.mpr he, compare_lt_iff_lt.mpr (magnitude_lt h₁ h₂ he)]
    rfl
  case inr.inl =>
    rw [compare_eq_iff_eq.mpr rfl]
    change compare m₁ m₂ = _
    rw [← cmp_eq_compare, ← cmp_eq_compare, cmp_mul_pos_right (zpow_pos two_pos e₁)]
    exact (Nat.strictMono_cast.cmp_map_eq m₁ m₂).symm
  case inr.inr =>
    rw [compare_gt_iff_gt.mpr he, compare_gt_iff_gt.mpr (magnitude_lt h₂ h₁ he)]
    rfl

-- The number that a finite one stands for.
inductive HasValue (x : Float) : Rat → Prop
  | zero {s : Sign} (hx : x.toModel.unpack = .zero s) : HasValue x 0
  | finite {s : Sign} {m : Nat} {e : Int} {h : 0 < m} (hc : IsCanonical m e) (he : e ≤ 971)
    (hx : x.toModel.unpack = .finite s m e h) : HasValue x (s.apply m * 2 ^ e)

variable {x y : Float} {p q : Rat}

theorem HasValue.of_unpack {h : 0 < m} (hx : x.toModel.unpack = .finite s m e h)
    (hp : s.apply m * 2 ^ e = p) : HasValue x p := by
  obtain ⟨hc, he⟩ := isCanonical_unpack hx
  exact hp ▸ .finite hc he hx

theorem magnitude_pos (hm : 0 < m) (e : Int) : (0 : Rat) < m * 2 ^ e :=
  mul_pos (by exact_mod_cast hm) (zpow_pos two_pos e)

theorem neg_magnitude_lt {m' : Nat} (hm : 0 < m) (e : Int) (hm' : 0 < m') (e' : Int) :
    -((m : Rat) * 2 ^ e) < m' * 2 ^ e' :=
  (neg_neg_of_pos (magnitude_pos hm e)).trans (magnitude_pos hm' e')

theorem compare_unpack (x y : Float) :
    x.toModel.compare y.toModel = x.toModel.unpack.compare y.toModel.unpack := rfl

-- The order of two numbers is the order of their values.
theorem compare_eq (hx : HasValue x p) (hy : HasValue y q) :
    x.toModel.compare y.toModel = some (compare p q) := by
  have swap_eq {m₁ m₂ : Nat} {e₁ e₂ : Int} (h₁ : IsCanonical m₁ e₁) (h₂ : IsCanonical m₂ e₂) :
      ((compare e₁ e₂).then (compare m₁ m₂)).swap =
        compare (-((m₁ : Rat) * 2 ^ e₁)) (-(m₂ * 2 ^ e₂)) := by
    have hn : StrictAnti fun p : Rat => -p := fun _ _ => neg_lt_neg
    rw [compare_magnitudes h₁ h₂, ← cmp_eq_compare, ← cmp_eq_compare, cmp_swap]
    exact (hn.cmp_map_eq ..).symm
  have lt_eq {p q : Rat} (h : p < q) : some .lt = some (compare p q) :=
    congrArg some (compare_lt_iff_lt.mpr h).symm
  have gt_eq {p q : Rat} (h : q < p) : some .gt = some (compare p q) :=
    congrArg some (compare_gt_iff_gt.mpr h).symm
  rw [compare_unpack]
  rcases hx with hx | @⟨_ | _, m, e, hm, hc, -, hx⟩ <;>
    rcases hy with hy | @⟨_ | _, m', e', hm', hc', -, hy⟩
  case zero.zero =>
    rw [hx, hy, compare_eq_iff_eq.mpr rfl]
    rfl
  all_goals
    rw [hx, hy]
    simp only [Sign.apply, Int.cast_neg, Int.cast_natCast, neg_mul]
  case finite.positive.finite.positive =>
    rw [← compare_magnitudes hc hc']
    rfl
  case finite.negative.finite.negative =>
    rw [← swap_eq hc hc']
    rfl
  case zero.finite.positive => exact lt_eq (magnitude_pos hm' e')
  case finite.negative.zero => exact lt_eq (neg_neg_of_pos (magnitude_pos hm e))
  case finite.negative.finite.positive => exact lt_eq (neg_magnitude_lt hm e hm' e')
  case zero.finite.negative => exact gt_eq (neg_neg_of_pos (magnitude_pos hm' e'))
  case finite.positive.zero => exact gt_eq (magnitude_pos hm e)
  case finite.positive.finite.negative => exact gt_eq (neg_magnitude_lt hm' e' hm e)

theorem lt_iff_of_hasValue (hx : HasValue x p) (hy : HasValue y q) : x < y ↔ p < q := by
  rw [lt_iff, compare_eq hx hy, Option.some.injEq, compare_lt_iff_lt]

theorem le_iff : x ≤ y ↔ (x.toModel.compare y.toModel).any (·.isLE) := decide_eq_true_iff

theorem le_iff_of_hasValue (hx : HasValue x p) (hy : HasValue y q) : x ≤ y ↔ p ≤ q := by
  rw [le_iff, compare_eq hx hy, Option.any_some, Ordering.isLE_iff_ne_gt]
  exact compare_le_iff_le

theorem not_le_of_lt (h : x < y) : ¬y ≤ x := by
  have hs : y.toModel.compare x.toModel = (x.toModel.compare y.toModel).map .swap :=
    compare_swap ..
  rw [le_iff, hs, lt_iff.mp h]
  decide

theorem compare_of_isNaN (h : x.isNaN || y.isNaN) : x.toModel.compare y.toModel = none :=
  Option.isNone_iff_eq_none.mp ((isNone_compare ..).trans h)

theorem not_lt_of_isNaN (h : x.isNaN || y.isNaN) : ¬x < y := by
  rw [lt_iff, compare_of_isNaN h]
  decide

theorem not_le_of_isNaN (h : x.isNaN || y.isNaN) : ¬x ≤ y := by
  rw [le_iff, compare_of_isNaN h]
  decide

theorem infinity_or_hasValue (h : ¬x.isNaN) :
    (∃ s, x.toModel.unpack = .infinity s) ∨ ∃ p, HasValue x p := by
  have hn : ¬x.toModel.unpack.isNaN := h
  match hx : x.toModel.unpack with
  | .notANumber     => exact absurd rfl (hx ▸ hn)
  | .infinity s     => exact .inl ⟨s, rfl⟩
  | .zero _         => exact .inr ⟨0, .zero hx⟩
  | .finite _ _ _ _ => exact .inr ⟨_, .of_unpack hx rfl⟩

end Ordo.Number
