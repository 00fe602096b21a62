import Ordo.Number.Literal

namespace Ordo

theorem Text.prefix_takeWhile {p : Char → Bool} {cs ds : List Char} (hd : ∀ c ∈ ds, p c)
    (h : ds <+: cs) : ds <+: cs.takeWhile p := by
  obtain ⟨rest, rfl⟩ := h
  rw [List.takeWhile_append_of_pos hd]
  exact List.prefix_append _ _

namespace Number

def AreDigits (cs : List Char) : Prop :=
  ∀ c ∈ cs, c.isDigit

-- Digits without a point, or with one behind, inside or in front of them.
inductive IsMantissa : List Char → Prop
  | whole {ds} :
    AreDigits ds → ds ≠ [] → IsMantissa ds
  | pointed {ds fs} :
    AreDigits ds → AreDigits fs → ds ++ fs ≠ [] → IsMantissa (ds ++ '.' :: fs)

inductive IsSign : List Char → Prop
  | none  : IsSign []
  | plus  : IsSign ['+']
  | minus : IsSign ['-']

inductive IsExponent : List Char → Prop
  | marked {mark sign ds} :
    mark = 'e' ∨ mark = 'E' → IsSign sign → AreDigits ds → ds ≠ [] →
    IsExponent (mark :: (sign ++ ds))

inductive IsNumeral : List Char → Prop
  | plain {m} :
    IsMantissa m → IsNumeral m
  | scaled {m e} :
    IsMantissa m → IsExponent e → IsNumeral (m ++ e)

variable {cs ds fs l l' m m' e after rest : List Char} {c : Char}

section Digits

theorem areDigits_takeWhile (cs : List Char) : AreDigits (cs.takeWhile Char.isDigit) :=
  List.all_eq_true.mp List.all_takeWhile

-- Digits in front of a character that is none are all that can be taken.
theorem AreDigits.takeWhile_append (hd : AreDigits ds) (after : List Char)
    (ha : ∀ c ∈ after.head?, ¬ c.isDigit) :
    (ds ++ after).takeWhile Char.isDigit = ds ∧ (ds ++ after).dropWhile Char.isDigit = after := by
  rw [List.takeWhile_append_of_pos hd, List.dropWhile_append_of_pos hd]
  cases after
  case nil => simp
  case cons c after => simp [ha c rfl]

end Digits

section Mantissa

theorem IsMantissa.ne_nil (h : IsMantissa m) : m ≠ [] := by
  cases h
  case whole hn => exact hn
  case pointed  => simp

theorem IsMantissa.isDigit_or (h : IsMantissa m) : ∀ c ∈ m, c.isDigit ∨ c = '.' := by
  intro c hc
  cases h
  case whole hd _ => exact .inl (hd c hc)
  case pointed ds fs hd hf _ =>
    rcases List.mem_append.mp hc with hc | hc
    case inl => exact .inl (hd c hc)
    case inr => exact (List.mem_cons.mp hc).elim .inr fun hc => .inl (hf c hc)

-- Every text begins with digits, behind which there is a point or something else.
theorem exists_digits (cs : List Char) :
    ∃ ds after, AreDigits ds ∧
      (cs = ds ++ '.' :: after ∨ cs = ds ++ after ∧ ∀ c ∈ after.head?, ¬ c.isDigit ∧ c ≠ '.') := by
  have hd := areDigits_takeWhile cs
  have hc := List.takeWhile_append_dropWhile (p := Char.isDigit) (l := cs)
  have hr := List.head?_dropWhile_not Char.isDigit cs
  generalize cs.dropWhile Char.isDigit = after at hc hr
  cases after
  case nil => exact ⟨_, [], hd, .inr ⟨hc.symm, nofun⟩⟩
  case cons c after =>
    by_cases h : c = '.'
    case pos =>
      subst h
      exact ⟨_, after, hd, .inl hc.symm⟩
    case neg =>
      refine ⟨_, c :: after, hd, .inr ⟨hc.symm, ?_⟩⟩
      rintro d ⟨⟩
      exact ⟨by simpa using hr, h⟩

-- A mantissa in front of digits and a point ends in these digits or behind the point.
theorem IsMantissa.of_prefix_pointed (h : IsMantissa m) (hd : AreDigits ds)
    (hp : m <+: ds ++ '.' :: after) :
    m ≠ [] ∧ m <+: ds ∨
      ∃ fs, fs <+: after.takeWhile Char.isDigit ∧ ds ++ fs ≠ [] ∧ m = ds ++ '.' :: fs := by
  obtain ⟨ht, hr⟩ := hd.takeWhile_append ('.' :: after) (by simp)
  cases h
  case whole hm hn => exact .inl ⟨hn, ht ▸ Text.prefix_takeWhile hm hp⟩
  case pointed ds' fs hd' hf hn =>
    obtain ⟨rest, hp⟩ := hp
    rw [List.append_assoc, List.cons_append] at hp
    obtain ⟨ht', hr'⟩ := hd'.takeWhile_append ('.' :: (fs ++ rest)) (by simp)
    rw [hp, ht] at ht'
    rw [hp, hr] at hr'
    subst ht'
    obtain rfl := List.tail_eq_of_cons_eq hr'
    exact .inr ⟨fs, Text.prefix_takeWhile hf (List.prefix_append _ _), hn, rfl⟩

theorem IsMantissa.of_prefix_whole (h : IsMantissa m) (hd : AreDigits ds)
    (ha : ∀ c ∈ after.head?, ¬ c.isDigit ∧ c ≠ '.') (hp : m <+: ds ++ after) : m <+: ds := by
  obtain ⟨ht, hr⟩ := hd.takeWhile_append after fun c hc => (ha c hc).1
  cases h
  case whole hm _ => exact ht ▸ Text.prefix_takeWhile hm hp
  case pointed ds' fs hd' hf _ =>
    obtain ⟨rest, hp⟩ := hp
    rw [List.append_assoc, List.cons_append] at hp
    obtain ⟨-, hr'⟩ := hd'.takeWhile_append ('.' :: (fs ++ rest)) (by simp)
    rw [hp, hr] at hr'
    exact absurd rfl (ha '.' (by rw [hr']; rfl)).2

end Mantissa

section Exponent

theorem exists_sign (cs : List Char) : ∃ sign, IsSign sign ∧ cs = sign ++ (splitSign cs).2 := by
  unfold splitSign
  split
  case h_1 => exact ⟨['+'], .plus, rfl⟩
  case h_2 => exact ⟨['-'], .minus, rfl⟩
  case h_3 => exact ⟨[], .none, rfl⟩

theorem splitSign_of_ne (hp : c ≠ '+') (hm : c ≠ '-') (cs : List Char) :
    splitSign (c :: cs) = (false, c :: cs) := by
  unfold splitSign
  split
  case h_1 h => exact absurd (List.cons.inj h).1 hp
  case h_2 h => exact absurd (List.cons.inj h).1 hm
  case h_3   => rfl

-- What stands behind a sign is what begins with a digit.
theorem splitSign_append (hs : IsSign sign) (hc : c.isDigit) (rest : List Char) :
    (splitSign (sign ++ c :: rest)).2 = c :: rest := by
  cases hs
  case plus  => rfl
  case minus => rfl
  case none =>
    have hp : c ≠ '+' := by rintro rfl; simp at hc
    have hm : c ≠ '-' := by rintro rfl; simp at hc
    exact congrArg Prod.snd (splitSign_of_ne hp hm rest)

theorem IsExponent.of_prefix (h : IsExponent e) (hp : e <+: c :: rest) :
    (c = 'e' ∨ c = 'E') ∧ ∃ sign ds, e = c :: (sign ++ ds) ∧ ds ≠ [] ∧
      rest = sign ++ (splitSign rest).2 ∧ ds <+: (splitSign rest).2.takeWhile Char.isDigit := by
  rcases h with @⟨mark, sign, ds, hm, hs, hd, hn⟩
  obtain ⟨rfl, ⟨after, rfl⟩⟩ := List.cons_prefix_cons.mp hp
  obtain ⟨c, ds, rfl⟩ := List.exists_cons_of_ne_nil hn
  have hr := splitSign_append hs (hd c List.mem_cons_self) (ds ++ after)
  rw [List.append_assoc, List.cons_append, hr]
  exact ⟨hm, _, _, rfl, hn, rfl, Text.prefix_takeWhile hd (List.prefix_append (c :: ds) after)⟩

-- The longest exponent that a text begins with, if any, is the one that is read.
theorem exists_exponent (cs : List Char) :
    ∃ e, cs = e ++ (Literal.exponentOf cs).2 ∧ (e = [] ∨ IsExponent e) ∧
      ∀ e', IsExponent e' → e' <+: cs → e' <+: e := by
  cases cs
  case nil => exact ⟨[], rfl, .inl rfl, fun e' _ hp => hp⟩
  case cons c rest =>
    by_cases hm : c = 'e' ∨ c = 'E'
    case neg => exact ⟨[], by simp [Literal.exponentOf, hm], .inl rfl,
        fun e' he hp => absurd (he.of_prefix hp).1 hm⟩
    case pos =>
      obtain ⟨sign, hs, hr⟩ := exists_sign rest
      have hd := areDigits_takeWhile (splitSign rest).2
      have hw := List.takeWhile_append_dropWhile (p := Char.isDigit) (l := (splitSign rest).2)
      cases ht : (splitSign rest).2.takeWhile Char.isDigit
      case nil =>
        refine ⟨[], by simp [Literal.exponentOf, Literal.exponentAfterMark, hm, ht], .inl rfl, ?_⟩
        intro e' he hp
        obtain ⟨-, sign', ds', -, hn, -, hp⟩ := he.of_prefix hp
        rw [ht] at hp
        exact absurd (List.prefix_nil.mp hp) hn
      case cons d ds =>
        have he : IsExponent (c :: (sign ++ d :: ds)) :=
          .marked hm hs (ht ▸ hd) (List.cons_ne_nil d ds)
        refine ⟨_, ?_, .inr he, ?_⟩
        case refine_1 =>
          simp only [Literal.exponentOf, Literal.exponentAfterMark, hm, ht, ↓reduceIte]
          rw [Option.getD_some, ← ht, List.cons_append, List.append_assoc, hw, ← hr]
        case refine_2 =>
          intro e' he hp
          obtain ⟨-, sign', ds', rfl, -, hr', hp⟩ := he.of_prefix hp
          obtain rfl := List.append_cancel_right (hr'.symm.trans hr)
          rw [← ht, ← List.cons_append, ← List.cons_append]
          exact (List.prefix_append_right_inj _).mpr hp

end Exponent

section Numeral

theorem IsNumeral.exists_mantissa (h : IsNumeral l) : ∃ m, IsMantissa m ∧ m <+: l := by
  cases h
  case plain hm    => exact ⟨l, hm, List.prefix_refl l⟩
  case scaled hm _ => exact ⟨_, hm, List.prefix_append _ _⟩

namespace Literal

theorem read?_pointed (hd : AreDigits ds) (after : List Char) :
    read? (ds ++ '.' :: after) =
      if ds ++ after.takeWhile Char.isDigit = [] then none
      else
        let (exponent, rest) := exponentOf (after.dropWhile Char.isDigit)
        some (⟨ds, after.takeWhile Char.isDigit, exponent⟩, rest) := by
  obtain ⟨ht, hr⟩ := hd.takeWhile_append ('.' :: after) (by simp)
  simp [read?, ht, hr, fractionOf, List.append_eq_nil_iff]

theorem read?_whole (hd : AreDigits ds) (ha : ∀ c ∈ after.head?, ¬ c.isDigit ∧ c ≠ '.') :
    read? (ds ++ after) =
      if ds = [] then none
      else
        let (exponent, rest) := exponentOf after
        some (⟨ds, [], exponent⟩, rest) := by
  obtain ⟨ht, hr⟩ := hd.takeWhile_append after fun c hc => (ha c hc).1
  have hf : fractionOf after = ([], after) := by
    unfold fractionOf
    split
    case h_1 => exact absurd rfl (ha '.' rfl).2
    case h_2 => rfl
  simp [read?, ht, hr, hf]

-- Reading takes the longest mantissa and then an exponent.
theorem read?_cases (cs : List Char) :
    (read? cs = none ∧ ∀ m, IsMantissa m → ¬ m <+: cs) ∨
      ∃ x m after, read? cs = some (x, (exponentOf after).2) ∧ cs = m ++ after ∧ IsMantissa m ∧
        ∀ m', IsMantissa m' → m' <+: cs → m' <+: m := by
  obtain ⟨ds, after, hd, rfl | ⟨rfl, ha⟩⟩ := exists_digits cs
  case inl =>
    rw [read?_pointed hd]
    have hf := areDigits_takeWhile after
    have hw := List.takeWhile_append_dropWhile (p := Char.isDigit) (l := after)
    split
    case isTrue hn =>
      refine .inl ⟨rfl, fun m hm hp => ?_⟩
      obtain ⟨rfl, hf⟩ := List.append_eq_nil_iff.mp hn
      rcases hm.of_prefix_pointed hd hp with ⟨hn, hp⟩ | ⟨fs, hp, hn, -⟩
      · exact hn (List.prefix_nil.mp hp)
      · rw [hf] at hp
        exact hn (List.prefix_nil.mp hp)
    case isFalse hn =>
      refine .inr ⟨_, ds ++ '.' :: after.takeWhile Char.isDigit, after.dropWhile Char.isDigit, rfl,
        ?_, .pointed hd hf hn, fun m hm hp => ?_⟩
      case refine_1 => rw [List.append_assoc, List.cons_append, hw]
      case refine_2 =>
        rcases hm.of_prefix_pointed hd hp with ⟨-, hp⟩ | ⟨fs, hfs, -, rfl⟩
        · exact hp.trans (List.prefix_append _ _)
        · exact (List.prefix_append_right_inj _).mpr (List.cons_prefix_cons.mpr ⟨rfl, hfs⟩)
  case inr =>
    rw [read?_whole hd ha]
    split
    case isTrue hn =>
      subst hn
      exact .inl ⟨rfl, fun m hm hp => hm.ne_nil (List.prefix_nil.mp (hm.of_prefix_whole hd ha hp))⟩
    case isFalse hn =>
      exact .inr ⟨_, ds, after, rfl, rfl, .whole hd hn, fun m hm hp => hm.of_prefix_whole hd ha hp⟩

theorem not_prefix_of_read?_eq_none (h : read? cs = none) (hl : IsNumeral l) : ¬ l <+: cs := by
  rcases read?_cases cs with ⟨-, hm⟩ | ⟨_, _, _, hr, -⟩
  case inr => simp [h] at hr
  case inl =>
    obtain ⟨m, hml, hp⟩ := hl.exists_mantissa
    exact fun hl => hm m hml (hp.trans hl)

-- A mantissa in front of an exponent is the longest one, as no exponent begins within a mantissa.
theorem read?_eq_some {x : Literal} (h : read? cs = some (x, rest)) :
    ∃ l, cs = l ++ rest ∧ IsNumeral l ∧ ∀ l', IsNumeral l' → l' <+: cs → l' <+: l := by
  rcases read?_cases cs with ⟨hn, -⟩ | ⟨_, m, after, hr, rfl, hm, hl⟩
  case inl => simp [hn] at h
  case inr =>
    obtain ⟨rfl, rfl⟩ := Prod.mk.inj (Option.some.inj (h.symm.trans hr))
    obtain ⟨e, ha, he, hle⟩ := exists_exponent after
    have hne : IsNumeral (m ++ e) := by
      rcases he with rfl | he
      · exact (List.append_nil m).symm ▸ .plain hm
      · exact .scaled hm he
    refine ⟨m ++ e, by rw [List.append_assoc, ← ha], hne, fun l' hl' hp => ?_⟩
    cases hl'
    case plain hm' => exact (hl l' hm' hp).trans (List.prefix_append _ _)
    case scaled m' e' hm' he' =>
      obtain ⟨k, rfl⟩ := hl m' hm' ((List.prefix_append _ _).trans hp)
      rw [List.append_assoc, List.prefix_append_right_inj] at hp
      cases k
      case nil =>
        rw [List.append_nil]
        exact (List.prefix_append_right_inj _).mpr (hle e' he' hp)
      case cons d k =>
        have hd := hm.isDigit_or d (by simp)
        rcases (he'.of_prefix hp).1 with rfl | rfl <;> simp at hd

end Literal

theorem IsNumeral.mem (h : IsNumeral l) : ∀ c ∈ l, c.isDigit ∨ c ∈ ['.', 'e', 'E', '+', '-'] := by
  have hmantissa : ∀ {m}, IsMantissa m → ∀ c ∈ m, c.isDigit ∨ c ∈ ['.', 'e', 'E', '+', '-'] :=
    fun hm c hc => (hm.isDigit_or c hc).imp_right fun h => by simp [h]
  cases h
  case plain hm => exact hmantissa hm
  case scaled hm he =>
    intro c hc
    rcases List.mem_append.mp hc with hc | hc
    case inl => exact hmantissa hm c hc
    case inr =>
      obtain ⟨hmark, hs, hd, -⟩ := he
      rcases List.mem_cons.mp hc with rfl | hc
      case inl => rcases hmark with rfl | rfl <;> simp
      case inr =>
        rcases List.mem_append.mp hc with hc | hc
        case inl => cases hs <;> simp_all
        case inr => exact .inl (hd c hc)

theorem IsNumeral.exists_cons (h : IsNumeral l) :
    ∃ c cs, l = c :: cs ∧ (c.isDigit ∨ c = '.') := by
  obtain ⟨m, hm, ⟨rest, rfl⟩⟩ := h.exists_mantissa
  obtain ⟨c, cs, rfl⟩ := List.exists_cons_of_ne_nil hm.ne_nil
  exact ⟨c, cs ++ rest, rfl, hm.isDigit_or c List.mem_cons_self⟩

-- Every numeral can be read as a number.
theorem IsNumeral.exists_ofText? (h : IsNumeral l) :
    ∃ x, ofText? (String.ofList l) = some x := by
  have hs : splitSign l = (false, l) := by
    obtain ⟨c, cs, rfl, hc⟩ := h.exists_cons
    have hp : c ≠ '+' := by rintro rfl; simp at hc
    have hm : c ≠ '-' := by rintro rfl; simp at hc
    exact splitSign_of_ne hp hm cs
  cases hr : Literal.read? l
  case none =>
    exact absurd (List.prefix_refl l) (Literal.not_prefix_of_read?_eq_none hr h)
  case some x =>
    obtain ⟨x, rest⟩ := x
    obtain ⟨k, hk, -, hl⟩ := Literal.read?_eq_some hr
    obtain ⟨after, rfl⟩ := hl l h (List.prefix_refl l)
    simp only [List.append_assoc, List.self_eq_append_right, List.append_eq_nil_iff] at hk
    obtain ⟨-, rfl⟩ := hk
    exact ⟨x.toFloat, by simp [ofText?, hs, unsigned?, hr]⟩

end Numeral

end Number

end Ordo
