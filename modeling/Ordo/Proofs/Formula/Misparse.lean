import Ordo.Formula.Basic
import Ordo.Proofs.Formula.Parsing

namespace Ordo.Formula

section

variable {us : List Located} {l : Level}

-- What is in front of the place at which the parser fails can be completed.
def Viable (n : Nonterminal) (us : List Located) : Prop :=
  ∀ m, read n us = .error m →
    ∃ ps qs t, us = ps ++ m.rest ∧ Derives n (ps.map (·.token) ++ qs) t

theorem exists_derives (n : Nonterminal) : ∃ ts t, Derives n ts t := by
  have primary : Derives .primary [.truth true] (.literal (.truth true)) := .single .truth
  have unary := Derives.primary primary
  have product := Derives.operand (l := .product) unary
  have sum := Derives.operand (l := .sum) product
  have relation := Derives.operand (l := .relation) sum
  have equality := Derives.operand (l := .equality) relation
  have and := Derives.operand (l := .and) equality
  have or := Derives.operand (l := .or) and
  cases n
  case conditional => exact ⟨_, _, .plain or⟩
  case chain l     => cases l <;> exact ⟨_, _, ‹_›⟩
  case unary       => exact ⟨_, _, unary⟩
  case primary     => exact ⟨_, _, primary⟩

theorem viable_primary (hi : ∀ vs, vs.length < us.length → Viable .conditional vs) :
    Viable .primary us := by
  intro m h
  rw [read_primary] at h
  obtain ⟨qs₀, t₀, hd₀⟩ := exists_derives .primary
  rcases us with _ | ⟨⟨k, o⟩, us⟩
  case nil =>
    cases h
    exact ⟨[], qs₀, t₀, rfl, hd₀⟩
  cases k
  case cons.symbol s =>
    cases s
    case opening =>
      rcases bind_eq_error_iff.mp h with h | ⟨⟨x, r⟩, hx, h⟩
      case inl =>
        obtain ⟨ps, qs, t, hps, hd⟩ := hi us (Nat.lt_add_one _) m h
        refine ⟨⟨.symbol .opening, o⟩ :: ps, qs ++ [.symbol .closing], t, ?_, ?_⟩
        · rw [List.cons_append, hps]
        · simpa using Derives.enclosed hd
      case inr =>
        obtain ⟨xs, hxs, hd⟩ := sound _ _ _ _ hx
        dsimp only at h
        split at h
        case h_2 => cases h
        case h_1 =>
          cases h
          refine ⟨⟨.symbol .opening, o⟩ :: xs, [.symbol .closing], x, ?_, ?_⟩
          · rw [List.cons_append, hxs]
          · simpa using .enclosed hd
    all_goals
      cases h
      exact ⟨[], qs₀, t₀, rfl, hd₀⟩
  all_goals cases h

theorem viable_unary (hi : ∀ vs, vs.length < us.length → Viable .unary vs)
    (hp : Viable .primary us) : Viable .unary us := by
  intro m h
  rw [read_unary] at h
  split at h
  case h_1 =>
    obtain ⟨ps, qs, t, hps, hd⟩ := hp m h
    exact ⟨ps, qs, t, hps, .primary hd⟩
  case h_2 op r hr hs =>
    obtain ⟨s, o, hs, hop⟩ := symbolAt?_eq_some_iff.mp hs
    rcases bind_eq_error_iff.mp h with h | ⟨_, _, h⟩
    case inr => cases h
    case inl =>
      obtain ⟨ps, qs, t, hps, hd⟩ := hi r hr m h
      refine ⟨⟨.symbol s, o⟩ :: ps, qs, .unary op t, ?_, ?_⟩
      · simp [hs, hps]
      · exact .unary (unaryOperator?_eq_some_iff.mp hop) hd

-- By induction on the tokens that are left. The left operand has been read from the tokens `xs`.
theorem viable_links {xs : List Token} {x : Tree} {m : Misparse}
    (hi : ∀ vs, vs.length < us.length → Viable l.operands vs) (hx : Derives (.chain l) xs x)
    (h : readLinks l x us = .error m) :
    ∃ ps qs t, us = ps ++ m.rest ∧ Derives (.chain l) (xs ++ ps.map (·.token) ++ qs) t := by
  induction hn : us.length using Nat.strongRecOn generalizing us xs x
  case ind n hn' =>
    rw [readLinks_eq] at h
    split at h
    case h_1 => cases h
    case h_2 f r hr hs =>
      obtain ⟨s, o, hs, hf⟩ := symbolAt?_eq_some_iff.mp hs
      have hf := Level.operator?_eq_some_iff.mp hf
      rcases bind_eq_error_iff.mp h with h | ⟨⟨y, r'⟩, hy, h⟩
      case inl =>
        obtain ⟨ps, qs, y, hps, hd⟩ := hi r hr m h
        refine ⟨⟨.symbol s, o⟩ :: ps, qs, f x y, ?_, ?_⟩
        · simp [hs, hps]
        · simpa using Derives.link hf hx hd
      case inr =>
        have hr' := Nat.lt_trans (length_lt_of_read hy) hr
        obtain ⟨ys, hys, hd⟩ := sound _ _ _ _ hy
        have hi : ∀ vs, vs.length < r'.length → Viable l.operands vs :=
          fun vs hv => hi vs (Nat.lt_trans hv hr')
        obtain ⟨ps, qs, t, hps, hd⟩ := hn' _ (hn ▸ hr') hi (.link hf hx hd) h rfl
        refine ⟨⟨.symbol s, o⟩ :: (ys ++ ps), qs, t, ?_, ?_⟩
        · simp [hs, hys, hps]
        · simpa using hd

theorem viable_chain (hi : ∀ vs, vs.length < us.length → Viable l.operands vs)
    (ho : Viable l.operands us) : Viable (.chain l) us := by
  intro m h
  rw [read_chain] at h
  rcases bind_eq_error_iff.mp h with h | ⟨⟨x, r⟩, hx, h⟩
  case inl =>
    obtain ⟨ps, qs, t, hps, hd⟩ := ho m h
    exact ⟨ps, qs, t, hps, .operand hd⟩
  case inr =>
    have hr := length_lt_of_read hx
    obtain ⟨xs, hxs, hd⟩ := sound _ _ _ _ hx
    have hi : ∀ vs, vs.length < r.length → Viable l.operands vs :=
      fun vs hv => hi vs (Nat.lt_trans hv hr)
    obtain ⟨ps, qs, t, hps, hd⟩ := viable_links hi (.operand hd) h
    refine ⟨xs ++ ps, qs, t, ?_, ?_⟩
    · rw [hxs, hps, List.append_assoc]
    · rwa [List.map_append]

theorem viable_conditional (hi : ∀ vs, vs.length < us.length → Viable .conditional vs)
    (hc : Viable (.chain .or) us) : Viable .conditional us := by
  intro m h
  rw [read_conditional] at h
  obtain ⟨zs, z, hdz⟩ := exists_derives .conditional
  rcases bind_eq_error_iff.mp h with h | ⟨⟨c, r⟩, hr, h⟩
  case inl =>
    obtain ⟨ps, qs, t, hps, hd⟩ := hc m h
    exact ⟨ps, qs, t, hps, .plain hd⟩
  have hl := length_lt_of_read hr
  obtain ⟨cs, hcs, hd⟩ := sound _ _ _ _ hr
  dsimp only at h
  split at h
  case h_1 => cases h
  case h_2 r₁ hl₁ hq =>
    obtain ⟨o₁, hq⟩ := after?_eq_some_iff.mp hq
    rcases bind_eq_error_iff.mp h with h | ⟨⟨x, r₂⟩, hx, h⟩
    case inl =>
      obtain ⟨ps, qs, x, hps, hdx⟩ := hi r₁ (Nat.lt_trans hl₁ hl) m h
      refine ⟨cs ++ ⟨.symbol .question, o₁⟩ :: ps, qs ++ .symbol .colon :: zs,
        .conditional c x z, ?_, ?_⟩
      · simp [hcs, hq, hps]
      · simpa using Derives.conditional hd hdx hdz
    have hl₂ := length_lt_of_read hx
    obtain ⟨xs, hxs, hdx⟩ := sound _ _ _ _ hx
    dsimp only at h
    split at h
    case h_1 =>
      cases h
      refine ⟨cs ++ ⟨.symbol .question, o₁⟩ :: xs, .symbol .colon :: zs, .conditional c x z, ?_, ?_⟩
      · simp [hcs, hq, hxs]
      · simpa using Derives.conditional hd hdx hdz
    case h_2 r₃ hl₃ hk =>
      obtain ⟨o₂, hk⟩ := after?_eq_some_iff.mp hk
      rcases bind_eq_error_iff.mp h with h | ⟨_, _, h⟩
      case inr => cases h
      case inl =>
        obtain ⟨ps, qs, y, hps, hdy⟩ := hi r₃ (by omega) m h
        refine ⟨cs ++ ⟨.symbol .question, o₁⟩ :: (xs ++ ⟨.symbol .colon, o₂⟩ :: ps), qs,
          .conditional c x y, ?_, ?_⟩
        · simp [hcs, hq, hxs, hk, hps]
        · simpa using Derives.conditional hd hdx hdy

end

theorem viable (n : Nonterminal) (us : List Located) : Viable n us := by
  induction n, us using read_induction
  case primary hi        => exact viable_primary (hi .conditional)
  case unary hi hp       => exact viable_unary (hi .unary) hp
  case chain hi ho       => exact viable_chain (hi _) ho
  case conditional hi hc => exact viable_conditional (hi .conditional) hc

section Lookahead

-- The tokens from the first one that is not read, whether it is a fault there or not.
def ahead : Except Misparse (Tree × List Located) → List Located
  | .ok (_, rest) => rest
  | .error m      => m.rest

-- The same result in front of other tokens.
def inFrontOf (rest : List Located) :
    Except Misparse (Tree × List Located) → Except Misparse (Tree × List Located)
  | .ok (t, _) => .ok (t, rest)
  | .error m   => .error { m with rest := rest }

-- The result does not depend on anything behind the first token that is not read.
def Settled (f : List Located → Except Misparse (Tree × List Located)) (us : List Located) : Prop :=
  ∀ k rest, ahead (f us) = k :: rest →
    ∃ ps, us = ps ++ k :: rest ∧ ∀ rest', f (ps ++ k :: rest') = inFrontOf (k :: rest') (f us)

variable {us : List Located} {l : Level}
  {f g : List Located → Except Misparse (Tree × List Located)}

theorem settled_ok (t : Tree) (us : List Located) : Settled (fun us => .ok (t, us)) us :=
  fun _ _ h => ⟨[], h, fun _ => rfl⟩

theorem settled_error (cause : MisparseCause) (us : List Located) :
    Settled (fun us => .error ⟨cause, us⟩) us :=
  fun _ _ h => ⟨[], h, fun _ => rfl⟩

theorem settled_bind {h : Tree → List Located → Except Misparse (Tree × List Located)}
    (hf : Settled f us) (hh : ∀ t vs, f us = .ok (t, vs) → Settled (h t) vs) :
    Settled (fun us => f us >>= fun (t, vs) => h t vs) us := by
  intro k rest hr
  dsimp only at hr ⊢
  rcases hx : f us with m | ⟨t, vs⟩
  case error =>
    rw [hx] at hr
    obtain ⟨ps, hps, hf⟩ := hf k rest (hx ▸ hr)
    refine ⟨ps, hps, fun rest' => ?_⟩
    rw [hf, hx]
    rfl
  case ok =>
    rw [hx] at hr
    obtain ⟨qs, rfl, hh⟩ := hh t vs hx k rest hr
    -- The first token that `f` leaves is the first one of `qs`, or `k` itself.
    have hf (rest' : List Located) : ∃ ps, us = ps ++ (qs ++ k :: rest) ∧
        f (ps ++ (qs ++ k :: rest')) = .ok (t, qs ++ k :: rest') := by
      cases qs
      case nil =>
        obtain ⟨ps, hps, hf⟩ := hf k rest (hx ▸ rfl)
        exact ⟨ps, hps, by rw [List.nil_append, hf, hx]; rfl⟩
      case cons q qs =>
        obtain ⟨ps, hps, hf⟩ := hf q (qs ++ k :: rest) (hx ▸ rfl)
        exact ⟨ps, hps, by rw [List.cons_append, hf, hx]; rfl⟩
    obtain ⟨ps, hps, -⟩ := hf rest
    refine ⟨ps ++ qs, by rw [hps, List.append_assoc], fun rest' => ?_⟩
    obtain ⟨ps', hps', hf⟩ := hf rest'
    cases List.append_cancel_right (hps.symm.trans hps')
    rw [List.append_assoc, hf]
    exact hh rest'

theorem Settled.of_head (hf : Settled f us) (h : ∀ vs, vs.head? = us.head? → g vs = f vs) :
    Settled g us := by
  intro k rest hr
  rw [h us rfl] at hr ⊢
  obtain ⟨ps, rfl, hf⟩ := hf k rest hr
  refine ⟨ps, rfl, fun rest' => ?_⟩
  rw [h _ (by simp [List.head?_append]), hf]

theorem Settled.cons {k : Located} (hf : Settled f us) (h : ∀ vs, g (k :: vs) = f vs) :
    Settled g (k :: us) := by
  intro k' rest hr
  rw [h] at hr ⊢
  obtain ⟨ps, rfl, hf⟩ := hf k' rest hr
  exact ⟨k :: ps, rfl, fun rest' => (h _).trans (hf rest')⟩

theorem symbolAt?_congr {α : Type} (f : Symbol → Option α) {ts us : List Located}
    (h : ts.head? = us.head?) : symbolAt? f ts = none ↔ symbolAt? f us = none := by
  have hh (ts : List Located) :
      symbolAt? f ts = none ↔ ∀ s o, ts.head? = some ⟨.symbol s, o⟩ → f s = none := by
    unfold symbolAt?
    split
    case h_1 => simp
    case h_2 hn =>
      refine iff_of_true rfl fun s o hs => ?_
      obtain ⟨r, rfl⟩ := List.head?_eq_some_iff.mp hs
      exact (hn s o r rfl).elim
  rw [hh, hh, h]

theorem after?_congr (s : Symbol) {ts us : List Located} (h : ts.head? = us.head?) :
    after? s ts = none ↔ after? s us = none := by
  simp only [after?, Option.map_eq_none_iff, symbolAt?_congr _ h]

theorem settled_symbolAt? {α : Type} {h : Symbol → Option α}
    {g : α → List Located → Except Misparse (Tree × List Located)}
    (hf : Settled f us) (hg : ∀ a vs, vs.length < us.length → Settled (g a) vs) :
    Settled (fun us => match symbolAt? h us with
      | none             => f us
      | some (a, ⟨r, _⟩) => g a r) us := by
  rcases hs : symbolAt? h us with _ | ⟨a, r, hr⟩
  case none =>
    refine hf.of_head fun vs hv => ?_
    rw [(symbolAt?_congr h hv).mpr hs]
  case some =>
    obtain ⟨s, o, hu, ha⟩ := symbolAt?_eq_some_iff.mp hs
    have hv := hg a r hr
    dsimp only at hu
    subst hu
    refine hv.cons fun vs => ?_
    rw [symbolAt?_cons ha]

theorem settled_after? {s : Symbol} (hf : Settled f us)
    (hg : ∀ vs, vs.length < us.length → Settled g vs) :
    Settled (fun us => match after? s us with
      | none        => f us
      | some ⟨r, _⟩ => g r) us := by
  rcases hs : after? s us with _ | ⟨r, hr⟩
  case none =>
    refine hf.of_head fun vs hv => ?_
    rw [(after?_congr s hv).mpr hs]
  case some =>
    obtain ⟨o, hu⟩ := after?_eq_some_iff.mp hs
    have hv := hg r hr
    dsimp only at hu
    subst hu
    refine hv.cons fun vs => ?_
    rw [after?_cons]

theorem settled_primary (hi : ∀ vs, vs.length < us.length → Settled (read .conditional) vs) :
    Settled (read .primary) us := by
  rcases us with _ | ⟨⟨k, o⟩, us⟩
  case nil =>
    intro k rest h
    rw [read_primary] at h
    cases h
  cases k
  case cons.symbol s =>
    cases s
    case opening =>
      have closing (t : Tree) (vs : List Located) :=
        settled_after? (s := .closing) (settled_error .missingParenthesis vs)
          fun vs _ => settled_ok t vs
      have enclosed := settled_bind (hi us (Nat.lt_add_one _)) fun t vs _ => closing t vs
      exact enclosed.cons fun _ => read_primary
    all_goals
      refine (settled_error .noValue _).of_head fun vs hv => ?_
      obtain ⟨r, rfl⟩ := List.head?_eq_some_iff.mp hv
      exact read_primary
  all_goals exact (settled_ok _ us).cons fun _ => read_primary

theorem settled_unary (hi : ∀ vs, vs.length < us.length → Settled (read .unary) vs)
    (hp : Settled (read .primary) us) : Settled (read .unary) us := by
  have operand (op : UnaryOp) (vs : List Located) (hv : vs.length < us.length) :=
    settled_bind (hi vs hv) fun t vs _ => settled_ok (.unary op t) vs
  refine (settled_symbolAt? (h := unaryOperator?) hp operand).of_head fun vs _ => ?_
  rw [read_unary]
  rcases symbolAt? unaryOperator? vs with _ | ⟨_, _, _⟩
  all_goals rfl

-- By induction on the tokens that are left.
theorem settled_links (x : Tree)
    (hi : ∀ vs, vs.length < us.length → Settled (read l.operands) vs) :
    Settled (readLinks l x) us := by
  induction hn : us.length using Nat.strongRecOn generalizing us x
  case ind n hn' =>
    have link (f : Tree → Tree → Tree) (vs : List Located) (hv : vs.length < us.length) :=
      settled_bind (hi vs hv) fun y ws hy => by
        have hw := Nat.lt_trans (length_lt_of_read hy) hv
        exact hn' _ (hn ▸ hw) (f x y) (fun ws' hw' => hi ws' (Nat.lt_trans hw' hw)) rfl
    refine (settled_symbolAt? (h := l.operator?) (settled_ok x us) link).of_head fun vs _ => ?_
    rw [readLinks_eq]
    rcases symbolAt? l.operator? vs with _ | ⟨_, _, _⟩
    all_goals rfl

theorem settled_chain (hi : ∀ vs, vs.length < us.length → Settled (read l.operands) vs)
    (ho : Settled (read l.operands) us) : Settled (read (.chain l)) us := by
  have chain := settled_bind ho fun x vs hx =>
    settled_links x fun ws hw => hi ws (Nat.lt_trans hw (length_lt_of_read hx))
  exact chain.of_head fun _ _ => read_chain

theorem settled_conditional (hi : ∀ vs, vs.length < us.length → Settled (read .conditional) vs)
    (hc : Settled (read (.chain .or)) us) : Settled (read .conditional) us := by
  have second (c x : Tree) (vs : List Located) (hv : vs.length < us.length) :=
    settled_bind (hi vs hv) fun y ws _ => settled_ok (.conditional c x y) ws
  have colon (c x : Tree) (vs : List Located) (hv : vs.length < us.length) :=
    settled_after? (s := .colon) (settled_error .missingColon vs) fun ws hw =>
      second c x ws (Nat.lt_trans hw hv)
  have first (c : Tree) (vs : List Located) (hv : vs.length < us.length) :=
    settled_bind (hi vs hv) fun x ws hw => colon c x ws (Nat.lt_trans (length_lt_of_read hw) hv)
  have question (c : Tree) (vs : List Located) (hv : vs.length < us.length) :=
    settled_after? (s := .question) (settled_ok c vs) fun ws hw => first c ws (Nat.lt_trans hw hv)
  have whole := settled_bind hc fun c vs hv => question c vs (length_lt_of_read hv)
  exact whole.of_head fun _ _ => read_conditional

theorem settled (n : Nonterminal) (us : List Located) : Settled (read n) us := by
  induction n, us using read_induction
  case primary hi        => exact settled_primary (hi .conditional)
  case unary hi hp       => exact settled_unary (hi .unary) hp
  case chain hi ho       => exact settled_chain (hi _) ho
  case conditional hi hc => exact settled_conditional (hi .conditional) hc

end Lookahead

variable {us : List Located} {m : Misparse}

theorem read_of_ofTokens_eq_error (h : Tree.ofTokens us = .error m) :
    read .conditional us = .error m ∨ ∃ t, read .conditional us = .ok (t, m.rest) := by
  rw [Tree.ofTokens] at h
  rw [read]
  rcases hc : conditional us with _ | ⟨t, _ | ⟨k, r⟩, _⟩
  all_goals
    rw [hc] at h
    cases h
  case error   => exact .inl rfl
  case ok.cons => exact .inr ⟨t, rfl⟩

-- The tokens in front of a fault begin a formula.
theorem exists_completion (h : Tree.ofTokens us = .error m) :
    ∃ ps qs t, us = ps ++ m.rest ∧ Tree.ofTokens (ps ++ qs) = .ok t := by
  have hd : ∃ ps qs t, us = ps ++ m.rest ∧ Derives .conditional (ps.map (·.token) ++ qs) t := by
    rcases read_of_ofTokens_eq_error h with h | ⟨t, h⟩
    case inl => exact viable _ _ m h
    case inr =>
      obtain ⟨ps, hps, hd⟩ := sound _ _ _ _ h
      exact ⟨ps, [], t, hps, by rwa [List.append_nil]⟩
  obtain ⟨ps, qs, t, hps, hd⟩ := hd
  refine ⟨ps, qs.map (⟨·, 0⟩), t, hps, ofTokens_eq_ok_iff.mpr (read_of_derives ?_)⟩
  simpa [Function.comp_def] using hd

-- No formula begins with these tokens and the one at the fault.
theorem ofTokens_ne_ok {k : Located} {rest : List Located} (h : Tree.ofTokens us = .error m)
    (hk : m.rest = k :: rest) :
    ∃ ps, us = ps ++ k :: rest ∧ ∀ rest' t, Tree.ofTokens (ps ++ k :: rest') ≠ .ok t := by
  have ha : ahead (read .conditional us) = k :: rest := by
    rw [← hk]
    rcases read_of_ofTokens_eq_error h with h | ⟨t, h⟩
    all_goals
      rw [h]
      rfl
  obtain ⟨ps, hps, hs⟩ := settled .conditional us k rest ha
  refine ⟨ps, hps, fun rest' t ht => ?_⟩
  have ht := ofTokens_eq_ok_iff.mp ht
  rw [hs] at ht
  rcases hx : read .conditional us with _ | ⟨_, _⟩
  all_goals
    rw [hx] at ht
    cases ht

theorem offsetOf_eq (source : String) (rest : List Located) :
    offsetOf source rest = (rest.head?.map (·.offset)).getD source.utf8ByteSize := by
  cases rest <;> rfl

-- A source that is read into tokens but not into a tree fails at the first token that no formula
-- has behind the tokens in front of it, or at the end if there is no such token.
theorem exists_place_of_misparse {source : String} {ts : List Located} (hs : tokens source = .ok ts)
    (hf : ∀ f, parse source ≠ .ok f) :
    ∃ i cause, i ≤ ts.length ∧
      parse source = .error (.malformed source
        ((ts[i]?.map (·.offset)).getD source.utf8ByteSize) (.grammatical cause)) ∧
      (∃ us t, Tree.ofTokens (ts.take i ++ us) = .ok t) ∧
      (i < ts.length → ∀ us t, Tree.ofTokens (ts.take (i + 1) ++ us) ≠ .ok t) := by
  rcases ht : Tree.ofTokens ts with m | t
  case ok => exact absurd (by simp [parse, hs, ht]) (hf ⟨source, t⟩)
  have hp : parse source =
      .error (.malformed source (offsetOf source m.rest) (.grammatical m.cause)) := by
    simp [parse, hs, ht]
  obtain ⟨ps, us, t, rfl, hc⟩ := exists_completion ht
  have hi : (ps ++ m.rest)[ps.length]? = m.rest.head? := by
    rw [List.getElem?_append_right (Nat.le_refl _), Nat.sub_self, List.head?_eq_getElem?]
  refine ⟨ps.length, m.cause, by simp, ?_, ⟨us, t, by simpa using hc⟩, fun hl us t hu => ?_⟩
  · rw [hp, hi, ← offsetOf_eq]
  · obtain ⟨k, rest, hk⟩ := List.exists_cons_of_ne_nil (l := m.rest) fun h => by simp [h] at hl
    obtain ⟨ps', hps, hn⟩ := ofTokens_ne_ok ht hk
    rw [hk] at hps hu
    cases List.append_cancel_right hps
    rw [List.take_length_add_append] at hu
    exact hn us t (by simpa using hu)

-- The colon belongs to the question mark, but the parenthesis is still open.
def misplacedColon : String :=
  "a ? (-b : c"

theorem exists_place_of_misplacedColon :
    ∃ ts, tokens misplacedColon = .ok ts ∧ (∀ f, parse misplacedColon ≠ .ok f) ∧
      parse misplacedColon =
        .error (.malformed misplacedColon 8 (.grammatical .missingParenthesis)) ∧
      (∃ us t, Tree.ofTokens (ts.take 5 ++ us) = .ok t) ∧
      ∀ us t, Tree.ofTokens (ts.take 6 ++ us) ≠ .ok t := by
  let ts : List Located := [
    ⟨.name "a", 0⟩, ⟨.symbol .question, 2⟩, ⟨.symbol .opening, 4⟩, ⟨.symbol .minus, 5⟩,
    ⟨.name "b", 6⟩, ⟨.symbol .colon, 8⟩, ⟨.name "c", 10⟩
  ]
  have hs : tokens misplacedColon = .ok ts := toOption_eq_some_iff.mp (by decide +kernel)
  have hp : parse misplacedColon =
      .error (.malformed misplacedColon 8 (.grammatical .missingParenthesis)) :=
    errorOf?_eq_some_iff.mp (by decide +kernel)
  have hf : ∀ f, parse misplacedColon ≠ .ok f := by simp [hp]
  obtain ⟨i, cause, hl, he, hv, hn⟩ := exists_place_of_misparse hs hf
  have ho : (ts[i]?.map (·.offset)).getD misplacedColon.utf8ByteSize = 8 := by
    injection he.symm.trans hp with he
    injection he
  have hi : ∀ i ≤ ts.length,
      (ts[i]?.map (·.offset)).getD misplacedColon.utf8ByteSize = 8 → i = 5 := by
    decide +kernel
  cases hi i hl ho
  exact ⟨ts, hs, hf, hp, hv, hn (by decide)⟩

end Ordo.Formula
