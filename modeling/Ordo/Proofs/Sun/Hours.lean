import Mathlib
import Ordo.Proofs.Number.Rounding
import Ordo.Sun.Times

namespace Ordo.Sun

namespace Hours

open Number
open Float.Model.UnpackedFloat (Sign)

-- The most hours, 2 ^ 58 of them, that are not the same with a day taken away from them.
def reach : Hours := 288230376151711744.0

variable {x r : Float} {p z : Rat} {t : Int}

theorem hasValue_zero : HasValue 0.0 0 := .zero (s := .positive) rfl

theorem hasValue_day : HasValue 24.0 24 :=
  .of_unpack (s := .positive) (m := 3 * 2 ^ 51) (e := -48) (h := by decide) rfl
    (by norm_num [Sign.apply])

theorem hasValue_reach : HasValue reach (2 ^ 58) :=
  .of_unpack (s := .positive) (m := 2 ^ 52) (e := 6) (h := by decide) rfl
    (by norm_num [Sign.apply])

theorem hasValue_neg_reach : HasValue (-reach) (-2 ^ 58) :=
  .of_unpack (s := .negative) (m := 2 ^ 52) (e := 6) (h := by decide) rfl
    (by norm_num [Sign.apply])

-- Within the reach, a sum or difference is rounded by 16 at most.
theorem close_of_lt {q : Rat} (h : IsRounded q z t) (hq : |q| < 2 ^ 58) :
    |z - q| ≤ 16 ∧ |z| < 2 ^ (1024 : Int) := by
  have hc : |z - q| ≤ 16 := by
    have := h.close_of_lt (n := 58) (by decide) (by exact_mod_cast hq)
    norm_num at this ⊢
    exact this
  refine ⟨hc, ?_⟩
  calc
    |z| ≤ |q| + |z - q| := by
      have := abs_add_le q (z - q)
      rwa [add_sub_cancel] at this
    _ < 2 ^ 58 + 2 ^ 58 := by linarith
    _ = 2 ^ (59 : Int) := by norm_num
    _ ≤ 2 ^ (1024 : Int) := zpow_le_zpow_right₀ one_le_two (by decide)

theorem exists_addDay (h : HasValue x p) (hl : -2 ^ 58 ≤ p) (hp : p < 0) :
    ∃ q, HasValue (x + 24.0) q ∧ p + 8 ≤ q ∧ q ≤ p + 40 := by
  obtain ⟨z, t, hr, hz⟩ := approximates_add h hasValue_day hp.ne (by decide)
  obtain ⟨hc, hb⟩ := close_of_lt hr (by rw [abs_lt]; constructor <;> linarith)
  rw [abs_le] at hc
  exact ⟨z, hz hb, by linarith, by linarith⟩

theorem exists_subtractDay (h : HasValue x p) (hp : 24 ≤ p) (hu : p ≤ 2 ^ 58) :
    ∃ q, HasValue (x - 24.0) q ∧ 0 ≤ q ∧ q ≤ p - 8 := by
  obtain ⟨z, t, hr, hz⟩ := approximates_sub h hasValue_day (by linarith) (by decide)
  obtain ⟨hc, hb⟩ := close_of_lt hr (by rw [abs_lt]; constructor <;> linarith)
  rw [abs_le] at hc
  exact ⟨z, hz hb, hr.nonneg (by linarith), by linarith⟩

-- Beyond the reach, a day is less than half of the last place.
theorem absorbed {d : Rat} (h : HasValue x p) (hp : 2 ^ 58 < |p|) (hd : |d| = 24)
    (hle : |p + d| ≤ |p|) (hr : IsRounded (p + d) z t) : z = p := by
  have hge : 2 ^ 58 ≤ |p + d| := by
    obtain ⟨k, hk⟩ := h.exists_multiple (t := 6) (.inr (by norm_num at hp ⊢; exact hp.le))
    have hk : |p| = (|k| : Int) * 64 := by
      rw [hk, abs_mul]
      norm_num
    have hk' : 2 ^ 52 < |k| := by
      have : (2 : Rat) ^ 52 * 64 < (|k| : Int) * 64 := by rw [← hk]; norm_num at hp ⊢; exact hp
      exact_mod_cast lt_of_mul_lt_mul_right this (by norm_num)
    have hk' : (2 : Rat) ^ 52 + 1 ≤ (|k| : Int) := by exact_mod_cast hk'
    have := abs_sub_abs_le_abs_sub p (-d)
    rw [abs_neg, hd, sub_neg_eq_add] at this
    linarith
  have ht : 6 ≤ t := hr.le_place (n := 58) (by exact_mod_cast hge)
  obtain ⟨k, hk⟩ := h.exists_multiple (hr.above.imp_right hle.trans')
  refine hr.eq_of_multiple hk ?_
  rw [add_sub_cancel_left, hd]
  have := zpow_le_zpow_right₀ (one_le_two (α := Rat)) ht
  norm_num at this
  linarith

theorem addDay_eq (h : HasValue x p) (hp : p < -2 ^ 58) : HasValue (x + 24.0) p := by
  obtain ⟨z, t, hr, hz⟩ := approximates_add h hasValue_day (by linarith) (by decide)
  have ha : |p| = -p := abs_of_neg (by linarith)
  have hs : |p + 24| = -(p + 24) := abs_of_neg (by linarith)
  have : z = p := absorbed h (by linarith) (by decide) (by linarith) hr
  rw [this] at hz
  exact hz h.abs_lt

theorem subtractDay_eq (h : HasValue x p) (hp : 2 ^ 58 < p) : HasValue (x - 24.0) p := by
  obtain ⟨z, t, hr, hz⟩ := approximates_sub h hasValue_day (by linarith) (by decide)
  rw [sub_eq_add_neg] at hr
  have ha : |p| = p := abs_of_pos (by linarith)
  have hs : |p + -24| = p + -24 := abs_of_pos (by linarith)
  have : z = p := absorbed h (by linarith) (by decide) (by linarith) hr
  rw [this] at hz
  exact hz h.abs_lt

theorem raise?_of_lt (h : x < 0.0) : raise? x = raise? (x + 24.0) := by
  rw [raise?, if_pos h]

theorem raise?_of_not_lt (h : ¬x < 0.0) : raise? x = some x := by
  rw [raise?, if_neg h]

theorem lower?_of_le (h : 24.0 ≤ x) : lower? x = lower? (x - 24.0) := by
  rw [lower?, if_pos h]

theorem lower?_of_not_le (h : ¬24.0 ≤ x) : lower? x = some x := by
  rw [lower?, if_neg h]

-- A day more is at least 8 hours more, so the induction is on a bound for the eighth part.
theorem exists_raise (n : Nat) (h : HasValue x p) (hl : -2 ^ 58 ≤ p) (hn : -(8 * n) ≤ p) :
    ∃ r q, raise? x = some r ∧ HasValue r q ∧ 0 ≤ q ∧ q ≤ max p 40 := by
  induction n generalizing x p
  all_goals have hx := lt_iff_of_hasValue h hasValue_zero
  case zero =>
    have hp : 0 ≤ p := by simpa using hn
    exact ⟨x, p, raise?_of_not_lt (mt hx.mp hp.not_gt), h, hp, le_max_left ..⟩
  case succ n hi =>
    by_cases hp : p < 0
    case neg => exact ⟨x, p, raise?_of_not_lt (mt hx.mp hp), h, le_of_not_gt hp, le_max_left ..⟩
    case pos =>
      rw [raise?_of_lt (hx.mpr hp)]
      obtain ⟨q, hq, hql, hqu⟩ := exists_addDay h hl hp
      push_cast at hn
      obtain ⟨r, q', hr, hq', h₀, hm⟩ := hi hq (by linarith) (by linarith)
      have hq₄₀ : q ≤ max p 40 := le_max_of_le_right (by linarith)
      exact ⟨r, q', hr, hq', h₀, hm.trans (max_le hq₄₀ (le_max_right ..))⟩

theorem exists_lower (n : Nat) (h : HasValue x p) (h₀ : 0 ≤ p) (hu : p ≤ 2 ^ 58)
    (hn : p ≤ 8 * n) :
    ∃ r q, lower? x = some r ∧ HasValue r q ∧ 0 ≤ q ∧ q < 24 := by
  induction n generalizing x p
  all_goals have hx := le_iff_of_hasValue hasValue_day h
  case zero =>
    rw [Nat.cast_zero, mul_zero] at hn
    have hp : p < 24 := by linarith
    exact ⟨x, p, lower?_of_not_le (mt hx.mp hp.not_ge), h, h₀, hp⟩
  case succ n hi =>
    by_cases hp : 24 ≤ p
    case neg => exact ⟨x, p, lower?_of_not_le (mt hx.mp hp), h, h₀, lt_of_not_ge hp⟩
    case pos =>
      rw [lower?_of_le (hx.mpr hp)]
      obtain ⟨q, hq, hql, hqu⟩ := exists_subtractDay h hp hu
      push_cast at hn
      exact hi hq hql (by linarith) (by linarith)

theorem exists_wrap (h : HasValue x p) (hl : -2 ^ 58 ≤ p) (hu : p ≤ 2 ^ 58) :
    ∃ r q, wrap? x = some r ∧ HasValue r q ∧ 0 ≤ q ∧ q < 24 := by
  obtain ⟨n, hn⟩ := exists_nat_ge (-p / 8)
  obtain ⟨y, q, hy, hq, h₀, hm⟩ := exists_raise n h hl (by linarith)
  have hqu : q ≤ 2 ^ 58 := hm.trans (max_le hu (by norm_num))
  obtain ⟨k, hk⟩ := exists_nat_ge (q / 8)
  obtain ⟨r, q', hr, hq'⟩ := exists_lower k hq h₀ hqu (by linarith)
  exact ⟨r, q', by rw [wrap?, hy]; exact hr, hq'⟩

theorem wrap?_of_isNaN (h : x.isNaN) : wrap? x = some x := by
  have h₀ : ¬x < 0.0 := not_lt_of_isNaN (by rw [h, Bool.true_or])
  have h₂₄ : ¬24.0 ≤ x := not_le_of_isNaN (by rw [h, Bool.or_true])
  rw [wrap?, raise?_of_not_lt h₀]
  exact lower?_of_not_le h₂₄

-- The numbers from `-reach` to `reach`, and those on both sides of them.
theorem reach_cases (hn : ¬x.isNaN) :
    x < -reach ∨ reach < x ∨ ∃ p, HasValue x p ∧ -2 ^ 58 ≤ p ∧ p ≤ 2 ^ 58 := by
  rcases infinity_or_hasValue hn with ⟨_ | _, hx⟩ | ⟨p, hx⟩
  case inl.negative => exact .inl (by rw [lt_iff, compare_unpack, hx]; rfl)
  case inl.positive => exact .inr (.inl (by rw [lt_iff, compare_unpack, hx]; rfl))
  case inr =>
    rw [lt_iff_of_hasValue hx hasValue_neg_reach, lt_iff_of_hasValue hasValue_reach hx]
    by_cases hl : p < -2 ^ 58
    case pos => exact .inl hl
    case neg =>
      by_cases hu : 2 ^ 58 < p
      case pos => exact .inr (.inl hu)
      case neg => exact .inr (.inr ⟨p, hx, not_lt.mp hl, not_lt.mp hu⟩)

-- Below the reach a day has to be added, and adding it changes nothing.
theorem below_addDay (h : x < -reach) : x < 0.0 ∧ x + 24.0 < -reach := by
  have hn : ¬x.isNaN := fun hn => not_lt_of_isNaN (by rw [hn, Bool.true_or]) h
  rcases infinity_or_hasValue hn with ⟨_ | _, hx⟩ | ⟨p, hx⟩
  case inl.negative =>
    rw [lt_iff, compare_unpack, lt_iff, compare_unpack, toModel_add, hx]
    exact ⟨rfl, rfl⟩
  case inl.positive =>
    rw [lt_iff, compare_unpack, hx] at h
    exact absurd h (by decide +kernel)
  case inr =>
    rw [lt_iff_of_hasValue hx hasValue_neg_reach] at h
    exact ⟨(lt_iff_of_hasValue hx hasValue_zero).mpr (by linarith),
      (lt_iff_of_hasValue (addDay_eq hx h) hasValue_neg_reach).mpr h⟩

-- Above the reach a day has to be taken away, and taking it away changes nothing.
theorem above_subtractDay (h : reach < x) : ¬x < 0.0 ∧ 24.0 ≤ x ∧ reach < x - 24.0 := by
  have hn : ¬x.isNaN := fun hn => not_lt_of_isNaN (by rw [hn, Bool.or_true]) h
  rcases infinity_or_hasValue hn with ⟨_ | _, hx⟩ | ⟨p, hx⟩
  case inl.negative =>
    rw [lt_iff, compare_unpack, hx] at h
    exact absurd h (by decide +kernel)
  case inl.positive =>
    rw [lt_iff, compare_unpack, le_iff, compare_unpack, lt_iff, compare_unpack, toModel_sub, hx]
    exact ⟨by decide +kernel, rfl, rfl⟩
  case inr =>
    rw [lt_iff_of_hasValue hasValue_reach hx] at h
    rw [lt_iff_of_hasValue hx hasValue_zero, le_iff_of_hasValue hasValue_day hx,
      lt_iff_of_hasValue hasValue_reach (subtractDay_eq hx h)]
    exact ⟨by linarith, by linarith, h⟩

theorem raise?_of_lt_reach (h : x < -reach) : raise? x = none := by
  rw [Option.eq_none_iff_forall_ne_some]
  intro r hr
  refine raise?.partial_correctness (fun x _ => ¬x < -reach) ?_ x r hr h
  intro raise hi x r hr hx
  obtain ⟨h₀, hs⟩ := below_addDay hx
  rw [if_pos h₀] at hr
  exact hi _ r hr hs

theorem lower?_of_reach_lt (h : reach < x) : lower? x = none := by
  rw [Option.eq_none_iff_forall_ne_some]
  intro r hr
  refine lower?.partial_correctness (fun x _ => ¬reach < x) ?_ x r hr h
  intro lower hi x r hr hx
  obtain ⟨-, h₂₄, hs⟩ := above_subtractDay hx
  rw [if_pos h₂₄] at hr
  exact hi _ r hr hs

theorem wrap?_of_beyond (h : x < -reach ∨ reach < x) : wrap? x = none := by
  rcases h with h | h
  case inl => rw [wrap?, raise?_of_lt_reach h]; rfl
  case inr =>
    rw [wrap?, raise?_of_not_lt (above_subtractDay h).1]
    exact lower?_of_reach_lt h

-- The hours that the wrapping ends for.
def IsWithinReach (hours : Hours) : Prop :=
  hours.isNaN ∨ -reach ≤ hours ∧ hours ≤ reach

instance (hours : Hours) : Decidable (IsWithinReach hours) :=
  inferInstanceAs (Decidable (_ ∨ _))

theorem isSome_wrap_iff (hours : Hours) : (wrap? hours).isSome ↔ IsWithinReach hours := by
  rw [IsWithinReach]
  by_cases hn : hours.isNaN
  case pos => exact iff_of_true (by rw [wrap?_of_isNaN hn]; rfl) (.inl hn)
  case neg =>
    rw [or_iff_right hn]
    rcases reach_cases hn with h | h | ⟨p, hp, hl, hu⟩
    case inl =>
      rw [wrap?_of_beyond (.inl h)]
      exact iff_of_false (by decide) fun hr => not_le_of_lt h hr.1
    case inr.inl =>
      rw [wrap?_of_beyond (.inr h)]
      exact iff_of_false (by decide) fun hr => not_le_of_lt h hr.2
    case inr.inr =>
      obtain ⟨r, q, hr, -⟩ := exists_wrap hp hl hu
      rw [hr, le_iff_of_hasValue hasValue_neg_reach hp, le_iff_of_hasValue hp hasValue_reach]
      exact iff_of_true rfl ⟨hl, hu⟩

theorem mem_day_of_wrap (h : wrap? x = some r) (hn : ¬x.isNaN) : 0.0 ≤ r ∧ r < 24.0 := by
  rcases reach_cases hn with hx | hx | ⟨p, hp, hl, hu⟩
  case inl => rw [wrap?_of_beyond (.inl hx)] at h; cases h
  case inr.inl => rw [wrap?_of_beyond (.inr hx)] at h; cases h
  case inr.inr =>
    obtain ⟨r', q, hr, hq, h₀, h₂₄⟩ := exists_wrap hp hl hu
    obtain rfl : r' = r := Option.some.inj (hr.symm.trans h)
    rw [le_iff_of_hasValue hasValue_zero hq, lt_iff_of_hasValue hq hasValue_day]
    exact ⟨h₀, h₂₄⟩

-- The wrapping of hours ends just within the reach, and there it leaves an hour of the day.
theorem wrap?_ends (hours : Hours) :
    ((wrap? hours).isSome ↔ IsWithinReach hours) ∧
    ∀ r, wrap? hours = some r → ¬hours.isNaN → 0.0 ≤ r ∧ r < 24.0 :=
  ⟨isSome_wrap_iff hours, fun _ => mem_day_of_wrap⟩

theorem wrap?_ends_after_midnight :
    IsWithinReach 25.25 ∧ wrap? 25.25 = some 1.25 ∧ (0.0 : Float) ≤ 1.25 ∧
      (1.25 : Float) < 24.0 := by
  have h : wrap? 25.25 = some 1.25 := by
    rw [wrap?, raise?_of_not_lt (by decide +kernel)]
    change lower? 25.25 = some 1.25
    rw [lower?_of_le (by decide +kernel), lower?_of_not_le (by decide +kernel)]
    rfl
  obtain ⟨-, hd⟩ := wrap?_ends 25.25
  exact ⟨by decide +kernel, h, hd 1.25 h (by decide +kernel)⟩

-- A day is nothing to infinitely many hours, and nothing to 10 ^ 18 of them.
theorem wrap?_endless :
    (infinity.isNaN = false ∧ wrap? infinity = none) ∧
      (1e18 : Float).isNaN = false ∧ wrap? 1e18 = none ∧ wrap? (-1e18) = none := by
  have hi : reach < infinity := by decide +kernel
  have hu : reach < 1e18 := by decide +kernel
  have hl : -1e18 < -reach := by decide +kernel
  exact ⟨⟨by decide +kernel, wrap?_of_beyond (.inr hi)⟩, by decide +kernel,
    wrap?_of_beyond (.inr hu), wrap?_of_beyond (.inl hl)⟩

end Hours

theorem ClockTime.isSome_ofHours_iff (hours : Hours) :
    (ofHours? hours).isSome ↔ hours.IsWithinReach := by
  rw [← Hours.isSome_wrap_iff, ofHours?]
  cases hours.wrap?
  all_goals rfl

-- The times of rise and set are found just where both are wrapped.
theorem isSome_times_iff (date : Date) (longitude latitude : Float) (horizon : Horizon)
    (zone : Float) :
    let d := .ofInt date.number - epoch + 0.5 - longitude / 360.0
    let hours := (riseAndSet d longitude latitude horizon).1
    (times date longitude latitude horizon zone).1.isSome ↔
      Hours.IsWithinReach (hours.1 + zone) ∧ Hours.IsWithinReach (hours.2 + zone) := by
  intro d hours
  rw [← ClockTime.isSome_ofHours_iff, ← ClockTime.isSome_ofHours_iff]
  change ((ClockTime.ofHours? (hours.1 + zone)).bind fun rise =>
    (ClockTime.ofHours? (hours.2 + zone)).bind fun set => some (Times.mk rise set)).isSome ↔ _
  cases ClockTime.ofHours? (hours.1 + zone) <;> cases ClockTime.ofHours? (hours.2 + zone)
  all_goals simp

end Ordo.Sun
