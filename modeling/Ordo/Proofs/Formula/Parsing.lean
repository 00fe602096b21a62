import Ordo.Proofs.Formula.Reading

namespace Ordo.Formula

-- Whatever the parser reads from the start of `us` is derived from the tokens that it has read.
def Sound (n : Nonterminal) (us : List Located) : Prop :=
  ∀ t vs, read n us = .ok (t, vs) → ∃ ts, us = ts ++ vs ∧ Derives n (ts.map (·.token)) t

section

variable {us : List Located} {l : Level}

theorem sound_primary (hi : ∀ vs, vs.length < us.length → Sound .conditional vs) :
    Sound .primary us := by
  intro t vs h
  rw [read_primary] at h
  rcases us with _ | ⟨⟨k, o⟩, us⟩
  case nil => cases h
  cases k
  case cons.symbol s =>
    cases s
    case opening =>
      obtain ⟨⟨x, r⟩, hx, h⟩ := bind_eq_ok_iff.mp h
      dsimp only at h
      split at h
      case h_1 => cases h
      case h_2 hr =>
        cases h
        obtain ⟨o', hr⟩ := after?_eq_some_iff.mp hr
        obtain ⟨ts, hts, hd⟩ := hi us (Nat.lt_add_one _) _ _ hx
        refine ⟨⟨.symbol .opening, o⟩ :: (ts ++ [⟨.symbol .closing, o'⟩]), ?_, ?_⟩
        · simp [hts, hr]
        · simpa using .enclosed hd
    all_goals cases h
  all_goals
    cases h
    exact ⟨[_], rfl, .single (by constructor)⟩

theorem sound_unary (hi : ∀ vs, vs.length < us.length → Sound .unary vs)
    (hp : Sound .primary us) : Sound .unary us := by
  intro t vs h
  rw [read_unary] at h
  split at h
  case h_1 =>
    obtain ⟨ts, hts, hd⟩ := hp t vs h
    exact ⟨ts, hts, .primary hd⟩
  case h_2 op r hr hs =>
    obtain ⟨s, o, hs, hop⟩ := symbolAt?_eq_some_iff.mp hs
    obtain ⟨⟨x, r⟩, hx, h⟩ := bind_eq_ok_iff.mp h
    cases h
    obtain ⟨ts, hts, hd⟩ := hi _ hr _ _ hx
    refine ⟨⟨.symbol s, o⟩ :: ts, ?_, ?_⟩
    · simp [hs, hts]
    · exact .unary (unaryOperator?_eq_some_iff.mp hop) hd

-- By induction on the tokens that are left. The left operand has been read from the tokens `xs`.
theorem derives_of_readLinks {xs : List Token} {x t : Tree} {vs : List Located}
    (hi : ∀ vs, vs.length < us.length → Sound l.operands vs) (hx : Derives (.chain l) xs x)
    (h : readLinks l x us = .ok (t, vs)) :
    ∃ ts, us = ts ++ vs ∧ Derives (.chain l) (xs ++ ts.map (·.token)) t := by
  induction hn : us.length using Nat.strongRecOn generalizing us xs x
  case ind n hn' =>
    rw [readLinks_eq] at h
    split at h
    case h_1 =>
      cases h
      exact ⟨[], rfl, by simpa using hx⟩
    case h_2 f r hr hs =>
      obtain ⟨s, o, hs, hf⟩ := symbolAt?_eq_some_iff.mp hs
      obtain ⟨⟨y, r'⟩, hy, h⟩ := bind_eq_ok_iff.mp h
      have hr' := Nat.lt_trans (length_lt_of_read hy) hr
      obtain ⟨ys, hys, hd⟩ := hi r hr _ _ hy
      have hx := Derives.link (Level.operator?_eq_some_iff.mp hf) hx hd
      have hi : ∀ vs, vs.length < r'.length → Sound l.operands vs :=
        fun vs hv => hi vs (Nat.lt_trans hv hr')
      obtain ⟨ts, hts, hd⟩ := hn' _ (hn ▸ hr') hi hx h rfl
      refine ⟨⟨.symbol s, o⟩ :: (ys ++ ts), ?_, ?_⟩
      · simp [hs, hys, hts]
      · simpa using hd

theorem sound_chain (hi : ∀ vs, vs.length < us.length → Sound l.operands vs)
    (ho : Sound l.operands us) : Sound (.chain l) us := by
  intro t vs h
  rw [read_chain] at h
  obtain ⟨⟨x, r⟩, hx, h⟩ := bind_eq_ok_iff.mp h
  have hr := length_lt_of_read hx
  obtain ⟨xs, hxs, hd⟩ := ho _ _ hx
  have hi : ∀ vs, vs.length < r.length → Sound l.operands vs := fun vs hv => hi vs (by omega)
  obtain ⟨ts, hts, hd⟩ := derives_of_readLinks hi (.operand hd) h
  refine ⟨xs ++ ts, ?_, ?_⟩
  · simp [hxs, hts]
  · simpa using hd

theorem sound_conditional (hi : ∀ vs, vs.length < us.length → Sound .conditional vs)
    (hc : Sound (.chain .or) us) : Sound .conditional us := by
  intro t vs h
  rw [read_conditional] at h
  obtain ⟨⟨c, r⟩, hr, h⟩ := bind_eq_ok_iff.mp h
  have hl := length_lt_of_read hr
  obtain ⟨cs, hcs, hd⟩ := hc _ _ hr
  dsimp only at h
  split at h
  case h_1 =>
    cases h
    exact ⟨cs, hcs, .plain hd⟩
  case h_2 r₁ hl₁ hq =>
    obtain ⟨o₁, hq⟩ := after?_eq_some_iff.mp hq
    obtain ⟨⟨x, r₂⟩, hx, h⟩ := bind_eq_ok_iff.mp h
    have hl₂ := length_lt_of_read hx
    obtain ⟨xs, hxs, hdx⟩ := hi r₁ (Nat.lt_trans hl₁ hl) _ _ hx
    dsimp only at h
    split at h
    case h_1 => cases h
    case h_2 r₃ hl₃ hk =>
      obtain ⟨o₂, hk⟩ := after?_eq_some_iff.mp hk
      obtain ⟨⟨y, r₄⟩, hy, h⟩ := bind_eq_ok_iff.mp h
      cases h
      obtain ⟨ys, hys, hdy⟩ := hi r₃ (by omega) _ _ hy
      refine ⟨cs ++ ⟨.symbol .question, o₁⟩ :: (xs ++ ⟨.symbol .colon, o₂⟩ :: ys), ?_, ?_⟩
      · simp [hcs, hq, hxs, hk, hys]
      · simpa using .conditional hd hdx hdy

end

theorem sound (n : Nonterminal) (us : List Located) : Sound n us := by
  induction n, us using read_induction
  case primary hi        => exact sound_primary (hi .conditional)
  case unary hi hp       => exact sound_unary (hi .unary) hp
  case chain hi ho       => exact sound_chain (hi _) ho
  case conditional hi hc => exact sound_conditional (hi .conditional) hc

-- The tokens `vs` do not begin with an operator of a level of a height below `h`.
def Stops (h : Nat) (vs : List Located) : Prop :=
  ∀ l : Level, l.height < h → symbolAt? l.operator? vs = none

-- Nothing that stands behind an operand of a chain is read with it but the operators of its level
-- and their operands.
def Complete : Nonterminal → List Located → Tree → Prop
  | .conditional, us, t => ∀ vs, Stops 7 vs → after? .question vs = none →
    read .conditional (us ++ vs) = .ok (t, vs)
  | .chain l, us, t => ∀ vs, Stops l.height vs → read (.chain l) (us ++ vs) = readLinks l t vs
  | n, us, t => ∀ vs, read n (us ++ vs) = .ok (t, vs)

section

variable {us vs : List Located} {l : Level} {s : Symbol} {o h : Nat} {t : Tree}

theorem stops_nil : Stops h [] :=
  fun _ _ => rfl

theorem stops_cons (hs : ∀ {l f}, Level.Joins l s f → h ≤ l.height) :
    Stops h (⟨.symbol s, o⟩ :: vs) := by
  intro l hl
  cases hf : l.operator? s
  case none   => simp [symbolAt?, hf]
  case some f => exact absurd hl (Nat.not_lt.mpr (hs (Level.operator?_eq_some_iff.mp hf)))

theorem readLinks_of_stops (hs : Stops h vs) (hl : l.height < h) :
    readLinks l t vs = .ok (t, vs) := by
  rw [readLinks_eq, hs l hl]
  rfl

theorem read_operands (hc : Complete l.operands us t) (hs : Stops l.height vs) :
    read l.operands (us ++ vs) = .ok (t, vs) := by
  cases l
  case product => exact hc vs
  all_goals
    have hs' := hc vs fun l hl => hs l (Nat.lt_succ_of_lt hl)
    exact hs'.trans (readLinks_of_stops hs (Nat.lt_succ_self _))

theorem complete_operand (hc : Complete l.operands us t) : Complete (.chain l) us t := by
  intro vs hs
  rw [read_chain, read_operands hc hs]
  rfl

theorem complete_link {f : Tree → Tree → Tree} {us' : List Located} {x y : Tree}
    (hf : l.Joins s f) (hx : Complete (.chain l) us x) (hy : Complete l.operands us' y) :
    Complete (.chain l) (us ++ ⟨.symbol s, o⟩ :: us') (f x y) := by
  intro vs hs
  have hf' := symbolAt?_cons (Level.operator?_eq_some_iff.mpr hf) o (us' ++ vs)
  have hs' : Stops l.height (⟨.symbol s, o⟩ :: (us' ++ vs)) :=
    stops_cons fun h => hf.level_unique h ▸ Nat.le_refl _
  rw [List.append_assoc, List.cons_append, hx _ hs', readLinks_eq, hf']
  dsimp only
  rw [read_operands hy hs]
  rfl

theorem complete_plain (hc : Complete (.chain .or) us t) : Complete .conditional us t := by
  intro vs hs hq
  rw [read_conditional, hc vs fun l hl => hs l (Nat.lt_succ_of_lt hl),
    readLinks_of_stops hs (Nat.lt_succ_self _)]
  simp [bind, Except.bind, hq, pure, Except.pure]

theorem complete_conditional {us₁ us₂ us₃ : List Located} {o₁ o₂ : Nat} {c x y : Tree}
    (hc : Complete (.chain .or) us₁ c) (hx : Complete .conditional us₂ x)
    (hy : Complete .conditional us₃ y) :
    Complete .conditional (us₁ ++ ⟨.symbol .question, o₁⟩ :: (us₂ ++ ⟨.symbol .colon, o₂⟩ :: us₃))
      (.conditional c x y) := by
  intro vs hs hq
  let vs₂ : List Located := ⟨.symbol .colon, o₂⟩ :: (us₃ ++ vs)
  let vs₁ : List Located := ⟨.symbol .question, o₁⟩ :: (us₂ ++ vs₂)
  have hs₁ : Stops 7 vs₁ := stops_cons nofun
  have hc := hc vs₁ (stops_cons nofun)
  rw [readLinks_of_stops hs₁ (Nat.lt_succ_self _)] at hc
  have hx := hx vs₂ (stops_cons nofun) (after?_cons_of_ne nofun)
  have hy := hy vs hs hq
  have he : us₁ ++ ⟨.symbol .question, o₁⟩ :: (us₂ ++ ⟨.symbol .colon, o₂⟩ :: us₃) ++ vs =
    us₁ ++ vs₁ := by simp [vs₁, vs₂]
  rw [he, read_conditional]
  refine bind_eq_ok_iff.mpr ⟨_, hc, ?_⟩
  simp only [vs₁, after?_cons]
  refine bind_eq_ok_iff.mpr ⟨_, hx, ?_⟩
  simp only [vs₂, after?_cons]
  exact bind_eq_ok_iff.mpr ⟨_, hy, rfl⟩

-- No value begins with the symbol of a unary operator.
theorem complete_primary {ts : List Token} (hd : Derives .primary ts t)
    (hu : us.map (·.token) = ts) (hp : Complete .primary us t) : Complete .unary us t := by
  intro vs
  have hn : symbolAt? unaryOperator? (us ++ vs) = none := by
    cases hd
    case single hk =>
      obtain ⟨⟨_, _⟩, h, hu⟩ := List.map_eq_singleton_iff.mp hu
      cases h
      cases hu
      cases hk <;> rfl
    case enclosed =>
      obtain ⟨⟨_, _⟩, _, h, hu, _⟩ := List.map_eq_cons_iff.mp hu
      cases hu
      rw [h]
      rfl
  rw [read_unary, hn]
  exact hp vs

theorem complete_unary {op : UnaryOp} (hs : Precedes s op) (hx : Complete .unary us t) :
    Complete .unary (⟨.symbol s, o⟩ :: us) (.unary op t) := by
  intro vs
  have hs := symbolAt?_cons (unaryOperator?_eq_some_iff.mpr hs) o (us ++ vs)
  rw [List.cons_append, read_unary, hs]
  exact bind_eq_ok_iff.mpr ⟨_, hx vs, rfl⟩

theorem complete_single {k : Token} (hk : Denotes k t) : Complete .primary [⟨k, o⟩] t := by
  intro vs
  rw [read_primary]
  cases hk <;> rfl

theorem complete_enclosed {o' : Nat} (hc : Complete .conditional us t) :
    Complete .primary (⟨.symbol .opening, o⟩ :: (us ++ [⟨.symbol .closing, o'⟩])) t := by
  intro vs
  let vs' : List Located := ⟨.symbol .closing, o'⟩ :: vs
  have hc := hc vs' (stops_cons nofun) (after?_cons_of_ne nofun)
  have he : ⟨.symbol .opening, o⟩ :: (us ++ [⟨.symbol .closing, o'⟩]) ++ vs =
    ⟨.symbol .opening, o⟩ :: (us ++ vs') := by simp [vs']
  rw [he, read_primary]
  refine bind_eq_ok_iff.mpr ⟨_, hc, ?_⟩
  simp only [vs', after?_cons]
  rfl

end

theorem exists_of_map_eq {us : List Located} {xs ys : List Token} {k : Token}
    (h : us.map (·.token) = xs ++ k :: ys) :
    ∃ us₁ o us₂, us = us₁ ++ ⟨k, o⟩ :: us₂ ∧ us₁.map (·.token) = xs ∧
      us₂.map (·.token) = ys := by
  obtain ⟨us₁, us', hu, h₁, h'⟩ := List.map_eq_append_iff.mp h
  obtain ⟨⟨_, o⟩, us₂, hu', hk, h₂⟩ := List.map_eq_cons_iff.mp h'
  cases hk
  exact ⟨us₁, o, us₂, hu' ▸ hu, h₁, h₂⟩

theorem complete {n : Nonterminal} {ts : List Token} {t : Tree} (hd : Derives n ts t)
    {us : List Located} (hu : us.map (·.token) = ts) : Complete n us t := by
  induction hd generalizing us
  case plain hc      => exact complete_plain (hc hu)
  case operand ho    => exact complete_operand (ho hu)
  case primary hd hp => exact complete_primary hd hu (hp hu)
  case conditional hc hx hy =>
    obtain ⟨us₁, o₁, us', h, h₁, h'⟩ := exists_of_map_eq hu
    obtain ⟨us₂, o₂, us₃, h', h₂, h₃⟩ := exists_of_map_eq h'
    exact h ▸ h' ▸ complete_conditional (hc h₁) (hx h₂) (hy h₃)
  case link hf _ _ hx hy =>
    obtain ⟨us₁, o, us₂, h, h₁, h₂⟩ := exists_of_map_eq hu
    exact h ▸ complete_link hf (hx h₁) (hy h₂)
  case unary hs _ hx =>
    obtain ⟨⟨_, o⟩, us, h, hk, h'⟩ := List.map_eq_cons_iff.mp hu
    cases hk
    exact h ▸ complete_unary hs (hx h')
  case single hk =>
    obtain ⟨⟨_, o⟩, h, h'⟩ := List.map_eq_singleton_iff.mp hu
    cases h'
    exact h ▸ complete_single hk
  case enclosed hc =>
    obtain ⟨⟨_, o⟩, us', h, hk, h'⟩ := List.map_eq_cons_iff.mp hu
    obtain ⟨us₁, o', us₂, h', h₁, h₂⟩ := exists_of_map_eq h'
    cases hk
    cases List.map_eq_nil_iff.mp h₂
    exact h ▸ h' ▸ complete_enclosed (hc h₁)

theorem read_of_derives {n : Nonterminal} {us : List Located} {t : Tree}
    (hd : Derives n (us.map (·.token)) t) : read n us = .ok (t, []) := by
  have hc := complete hd rfl
  rw [← List.append_nil us]
  cases n
  case conditional => exact hc [] stops_nil rfl
  case unary       => exact hc []
  case primary     => exact hc []
  case chain l =>
    rw [hc [] stops_nil]
    exact readLinks_of_stops stops_nil (Nat.lt_succ_self _)

theorem derives_of_read {n : Nonterminal} {us : List Located} {t : Tree}
    (h : read n us = .ok (t, [])) : Derives n (us.map (·.token)) t := by
  obtain ⟨ts, hts, hd⟩ := sound n us t [] h
  rw [hts, List.append_nil]
  exact hd

-- The parser accepts the tokens that are derivable, and no others; and there is no other tree than
-- the one which it returns.
theorem ofTokens_derives (us : List Located) :
    (∀ t, Tree.ofTokens us = .ok t ↔ Derives .conditional (us.map (·.token)) t) ∧
      ∀ n t t', Derives n (us.map (·.token)) t → Derives n (us.map (·.token)) t' → t = t' := by
  refine ⟨fun t => ?_, fun n t t' h h' => ?_⟩
  · rw [ofTokens_eq_ok_iff]
    exact ⟨derives_of_read, read_of_derives⟩
  · cases (read_of_derives h).symm.trans (read_of_derives h')
    rfl

-- The tokens of `a - b - c ? d : -(e)`.
def difference : List Located := [
  ⟨.name "a", 0⟩, ⟨.symbol .minus, 2⟩, ⟨.name "b", 4⟩, ⟨.symbol .minus, 6⟩, ⟨.name "c", 8⟩,
  ⟨.symbol .question, 10⟩, ⟨.name "d", 12⟩, ⟨.symbol .colon, 14⟩, ⟨.symbol .minus, 16⟩,
  ⟨.symbol .opening, 17⟩, ⟨.name "e", 18⟩, ⟨.symbol .closing, 19⟩
]

theorem ofTokens_derives_difference :
    let ts := difference.map (·.token)
    let t : Tree := .conditional
      (.binary .subtract (.binary .subtract (.name "a") (.name "b")) (.name "c")) (.name "d")
      (.unary .negate (.name "e"))
    Tree.ofTokens difference = .ok t ∧ Derives .conditional ts t ∧
      ∀ t', Derives .conditional ts t' → t = t' := by
  intro ts t
  obtain ⟨hd, hu⟩ := ofTokens_derives difference
  have ht : Tree.ofTokens difference = .ok t := toOption_eq_some_iff.mp (by decide +kernel)
  have hd := (hd t).mp ht
  exact ⟨ht, hd, fun t' => hu .conditional t t' hd⟩

end Ordo.Formula
