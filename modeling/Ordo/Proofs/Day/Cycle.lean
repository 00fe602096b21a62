import Ordo.Day.Facts
import Ordo.Proofs.Pascha

namespace Ordo

namespace MovablePlace

def InCycle : MovablePlace → Prop
  | triodion k       => 1 ≤ k ∧ k ≤ 70
  | pentecostarion n => 1 ≤ n ∧ n ≤ 315

-- The Triodion is counted down to Pascha, and the days from Pascha on are counted up until the
-- Triodion begins again. There are only four places at which it can begin again.
def Next : MovablePlace → MovablePlace → Prop
  | triodion k,       triodion k'       => 1 < k ∧ k' = k - 1
  | triodion k,       pentecostarion n  => k = 1 ∧ n = 1
  | pentecostarion n, pentecostarion n' => n' = n + 1
  | pentecostarion n, triodion k        => n ∈ [280, 287, 308, 315] ∧ k = 70

end MovablePlace

namespace DayFacts

open Calendar

theorem daysSince_pascha_mod (d : Date) (year : Int) :
    d.daysSince (Pascha.ofYear year) % 7 = d.weekday := by
  have := Pascha.weekday_ofYear year
  simp only [Date.daysSince, Date.weekday] at *
  omega

variable {d : Date}

-- The time from one Pascha to the next one.
theorem previous_sub_nday (d : Date) :
    (ofDate d).previous - (ofDate d).nday ∈ [350, 357, 378, 385] := by
  have h := Pascha.number_ofYear_succ (d.year - 1)
  rw [Int.sub_add_cancel] at h
  have : (ofDate d).previous - (ofDate d).nday =
      (Pascha.ofYear d.year).number - (Pascha.ofYear (d.year - 1)).number := by
    simp only [ofDate, Date.daysSince]
    omega
  exact this ▸ h

theorem ofDate_bounds (h : d.HasNeighbourYears) :
    (ofDate d).nday < 290 ∧ 0 < (ofDate d).previous ∧ (ofDate d).next < 0 := by
  obtain ⟨_, _, h₁, h₂⟩ := h.year_bounds
  have hp  := Pascha.number_ofYear_bounds d.year
  have hp₁ := Pascha.number_ofYear_bounds (d.year - 1)
  have hp₂ := Pascha.number_ofYear_bounds (d.year + 1)
  have hy := yearStart_eq d.year
  have hy' := yearStart_eq (d.year + 1)
  rw [Int.sub_add_cancel] at hp₁
  simp only [ofDate, Date.daysSince]
  omega

-- On the next day the same Paschas are counted from, or it is the first day of a year, which lies
-- so far before its Pascha that the Triodion has not begun.
theorem ofDate_addDays_one (h : d.HasNeighbourYears) :
    let f := ofDate d
    let f' := ofDate (d.addDays 1)
    f'.nday = f.nday + 1 ∧ f'.previous = f.previous + 1 ∨
      0 ≤ f.nday ∧ f'.nday < -triodionSpan ∧ f'.previous = f.nday + 1 := by
  have ha : (d.addDays 1).number = d.number + 1 := rfl
  rcases h.year_addDays_one with hy | ⟨hy, hn⟩
  case inl =>
    simp only [ofDate, Date.daysSince, hy, ha]
    omega
  case inr =>
    have hp := Pascha.number_ofYear_bounds d.year
    have hp' := Pascha.number_ofYear_bounds (d.year + 1)
    simp only [ofDate, Date.daysSince, hy, ha, triodionSpan, Int.add_sub_cancel]
    omega

section

variable {f f' : DayFacts}

theorem place_of_winter (h : f.nday < -triodionSpan) : f.place = .pentecostarion (f.previous + 1) :=
  if_pos h

theorem place_of_triodion (h : -triodionSpan ≤ f.nday) (h' : f.nday < 0) :
    f.place = .triodion (-f.nday) := by
  rw [place, if_neg (by omega), if_pos h']

theorem place_of_pascha (h : 0 ≤ f.nday) : f.place = .pentecostarion (f.nday + 1) := by
  rw [place, if_neg (by simp [triodionSpan]; omega), if_neg (by omega)]

theorem place_inCycle (hn : f.nday < 290) (hp : 0 < f.previous)
    (hg : f.previous - f.nday ∈ [350, 357, 378, 385]) : f.place.InCycle := by
  have ht : triodionSpan = 70 := rfl
  simp only [List.mem_cons, List.not_mem_nil, or_false] at hg
  rcases Int.lt_or_le f.nday (-triodionSpan) with h | h
  case inl =>
    rw [place_of_winter h]
    exact ⟨by omega, by omega⟩
  rcases Int.lt_or_le f.nday 0 with h' | h'
  case inl =>
    rw [place_of_triodion h h']
    exact ⟨by omega, by omega⟩
  case inr =>
    rw [place_of_pascha h']
    exact ⟨by omega, by omega⟩

theorem next_of_same_pascha (hn : f'.nday = f.nday + 1) (hp : f'.previous = f.previous + 1)
    (hg : f.previous - f.nday ∈ [350, 357, 378, 385]) : f.place.Next f'.place := by
  have ht : triodionSpan = 70 := rfl
  simp only [List.mem_cons, List.not_mem_nil, or_false] at hg
  rcases Int.lt_or_le f.nday (-triodionSpan) with h | h
  case inl =>
    rw [place_of_winter h]
    rcases Int.lt_or_le f'.nday (-triodionSpan) with h' | h'
    case inl =>
      rw [place_of_winter h']
      exact congrArg (· + 1) hp
    case inr =>
      rw [place_of_triodion h' (by omega)]
      simp only [MovablePlace.Next, List.mem_cons, List.not_mem_nil, or_false]
      omega
  rcases Int.lt_or_le f.nday 0 with h₀ | h₀
  case inl =>
    rw [place_of_triodion h h₀]
    rcases Int.lt_or_le f'.nday 0 with h' | h'
    case inl =>
      rw [place_of_triodion (by omega) h']
      exact ⟨by omega, by omega⟩
    case inr =>
      rw [place_of_pascha h']
      exact ⟨by omega, by omega⟩
  case inr =>
    rw [place_of_pascha h₀, place_of_pascha (by omega)]
    exact congrArg (· + 1) hn

theorem next_of_new_year (hn : 0 ≤ f.nday) (hn' : f'.nday < -triodionSpan)
    (hp : f'.previous = f.nday + 1) : f.place.Next f'.place := by
  rw [place_of_pascha hn, place_of_winter hn']
  exact congrArg (· + 1) hp

end

-- The year of the movable cycle has no gaps, and no place comes twice in it.
theorem place_follows (h : d.HasNeighbourYears) :
    let f := ofDate d
    f.place.InCycle ∧ f.place.Next (ofDate (d.addDays 1)).place ∧ 0 < f.previous ∧ f.next < 0 ∧
      f.nday % 7 = f.weekday ∧ f.previous % 7 = f.weekday ∧ f.next % 7 = f.weekday := by
  obtain ⟨hn, hp, hf⟩ := ofDate_bounds h
  have hg := previous_sub_nday d
  refine ⟨place_inCycle hn hp hg, ?_, hp, hf, ?_, ?_, ?_⟩
  · rcases ofDate_addDays_one h with ⟨hn, hp⟩ | ⟨hn, hn', hp⟩
    case inl => exact next_of_same_pascha hn hp hg
    case inr => exact next_of_new_year hn hn' hp
  all_goals exact daysSince_pascha_mod ..

-- The Triodion of 2019 begins behind the last day of the Pentecostarion of 2018.
theorem place_follows_triodion :
    let d : Date := ⟨2458531⟩
    d.HasNeighbourYears ∧ (ofDate d).place = .pentecostarion 315 ∧
      (ofDate (d.addDays 1)).place = .triodion 70 ∧
      (ofDate d).place.InCycle ∧ (ofDate d).place.Next (ofDate (d.addDays 1)).place := by
  have h : Date.HasNeighbourYears ⟨2458531⟩ := by decide
  obtain ⟨hc, hn, _⟩ := place_follows h
  exact ⟨h, by decide, by decide, hc, hn⟩

end DayFacts

end Ordo
