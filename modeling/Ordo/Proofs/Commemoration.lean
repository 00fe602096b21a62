import Ordo.Day.Basic

namespace Ordo

variable {cs cs' : List Commemoration}

theorem toneOf_ne_zero (cs : List Commemoration) : toneOf cs ≠ 0 := by
  rw [toneOf]
  split
  case isTrue    => decide
  case isFalse h => exact h

theorem foldl_wrapTone (ns : List Int) (m : Int) :
    ns.foldl (fun sum n => wrapTone (sum + n)) (wrapTone m) =
      wrapTone (m + ns.foldr (· + ·) 0) := by
  induction ns generalizing m
  case nil => rw [List.foldl_nil, List.foldr_nil, Int.add_zero]
  case cons n ns hi =>
    rw [List.foldl_cons, List.foldr_cons, ← Int.add_assoc, ← hi]
    exact congrArg (ns.foldl _) Int.bmod_add_bmod

-- It does not matter whether each step of the sum is wrapped, or the whole of it at its end.
theorem toneOf_eq_foldl (cs : List Commemoration) :
    toneOf cs =
      let add := fun sum n => wrapTone (sum + n)
      let sum := (cs.filterMap Commemoration.rankNumber?).foldl add 0
      if sum = 0 then lastTone else sum := by
  have h := foldl_wrapTone (cs.filterMap Commemoration.rankNumber?) 0
  rw [Int.zero_add] at h
  rw [toneOf, ← h]
  rfl

-- A sum that fits is not changed.
theorem toneOf_eq_sum {sum : Int}
    (hs : (cs.filterMap Commemoration.rankNumber?).foldr (· + ·) 0 = sum)
    (h : -0x8000000000000000 ≤ sum) (h' : sum < 0x8000000000000000) :
    toneOf cs = if sum = 0 then lastTone else sum := by
  rw [toneOf, hs, wrapTone, Int.bmod_eq_of_le (by omega) (by omega)]

theorem le_foldl_max (m : Int) (ns : List Int) : m ≤ ns.foldl max m := by
  induction ns generalizing m
  case nil          => exact Int.le_refl m
  case cons n ns hi => exact Int.le_trans (Int.le_max_left m n) (hi (max m n))

theorem neg_one_le_dayRankOf (cs : List Commemoration) : -1 ≤ dayRankOf cs :=
  le_foldl_max _ _

theorem toneOf_perm (h : cs.Perm cs') : toneOf cs = toneOf cs' := by
  have hs := (h.filterMap Commemoration.rankNumber?).foldr_eq'
    (fun m _ n _ sum => Int.add_left_comm n m sum) 0
  simp only [toneOf, hs]

theorem dayRankOf_perm (h : cs.Perm cs') : dayRankOf cs = dayRankOf cs' :=
  ((h.filter _).filterMap _).foldl_eq' (fun m _ n _ most => by omega) (-1)

theorem hasLiturgy_perm (h : cs.Perm cs') : hasLiturgy cs = hasLiturgy cs' :=
  h.any_eq

-- The ranks of the fixed commemorations that have one.
def fixedRanks (cs : List Commemoration) : List Int :=
  (cs.filter (·.cycle = .fixed)).filterMap Commemoration.rankNumber?

theorem dayRankOf_eq_neg_one (h : (fixedRanks cs).max? = none) : dayRankOf cs = -1 := by
  change (fixedRanks cs).foldl max (-1) = -1
  rw [List.max?_eq_none_iff.mp h, List.foldl_nil]

theorem dayRankOf_eq_max {highest : Int} (h : (fixedRanks cs).max? = some highest) :
    dayRankOf cs = max highest (-1) := by
  change (fixedRanks cs).foldl max (-1) = max highest (-1)
  rw [List.foldl_max, h, Option.getD_some, Int.max_comm]

-- The rank of a day is the highest rank of its fixed commemorations, and -1 if none has one, unless
-- all of their ranks are below -1. It is -1 in that case, too.
theorem dayRankOf_eq_highest_iff (cs : List Commemoration) :
    (dayRankOf cs = (fixedRanks cs).max?.getD (-1) ↔
      fixedRanks cs = [] ∨ ∃ rank ∈ fixedRanks cs, -1 ≤ rank) ∧
    (∀ highest, (fixedRanks cs).max? = some highest → dayRankOf cs = max highest (-1)) ∧
    (dayRankOf cs = -1 ↔ ∀ rank ∈ fixedRanks cs, rank ≤ -1) := by
  rcases hm : (fixedRanks cs).max? with _ | highest
  case none =>
    have hn := List.max?_eq_none_iff.mp hm
    refine ⟨?_, nofun, ?_⟩
    · simp [dayRankOf_eq_neg_one hm, hn]
    · simp [dayRankOf_eq_neg_one hm, hn]
  case some =>
    obtain ⟨hh, hle⟩ := List.max?_eq_some_iff.mp hm
    rw [dayRankOf_eq_max hm, Option.getD_some]
    refine ⟨⟨fun h => ?_, ?_⟩, fun _ h => Option.some.inj h ▸ rfl, fun h rank hr => ?_, fun h => ?_⟩
    · exact .inr ⟨highest, hh, by omega⟩
    · rintro (hn | ⟨rank, hr, hl⟩)
      · exact absurd hh (hn ▸ List.not_mem_nil)
      · have := hle rank hr
        omega
    · have := hle rank hr
      omega
    · have := h highest hh
      omega

def ranked (rank : Float) : Commemoration where
  cid   := "1"
  cycle := .fixed
  rank  := some (.number rank)

theorem dayRankOf_ranked :
    let cs := [ranked (-3), ranked 2]
    (fixedRanks cs).max? = some 2 ∧ dayRankOf cs = max 2 (-1) := by
  intro cs
  have h : (fixedRanks cs).max? = some 2 := by decide +kernel
  exact ⟨h, (dayRankOf_eq_highest_iff cs).2.1 2 h⟩

theorem dayRankOf_ne_highest :
    let cs := [ranked (-3)]
    fixedRanks cs = [-3] ∧ dayRankOf cs = -1 ∧ dayRankOf cs ≠ (fixedRanks cs).max?.getD (-1) := by
  decide +kernel

end Ordo
