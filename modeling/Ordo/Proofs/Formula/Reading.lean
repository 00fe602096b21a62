import Ordo.Proofs.Formula.Grammar
import Ordo.Proofs.Result

namespace Ordo.Formula

section

variable {s : Symbol} {o : Nat} {ts rest : List Located}

theorem symbolAt?_eq_some_iff {α : Type} {f : Symbol → Option α} {a : α} {r : Behind ts} :
    symbolAt? f ts = some (a, r) ↔ ∃ s o, ts = ⟨.symbol s, o⟩ :: r.val ∧ f s = some a := by
  obtain ⟨r, _⟩ := r
  unfold symbolAt?
  split
  case h_1 s o rest _ =>
    simp only [Option.map_eq_some_iff, Prod.mk.injEq, Subtype.mk.injEq, List.cons.injEq,
      Located.mk.injEq, Token.symbol.injEq]
    constructor
    case mp =>
      rintro ⟨_, h, h', h''⟩
      exact ⟨s, o, ⟨⟨rfl, rfl⟩, h''⟩, h' ▸ h⟩
    case mpr =>
      rintro ⟨_, _, ⟨⟨h, _⟩, h'⟩, h''⟩
      exact ⟨a, h ▸ h'', rfl, h'⟩
  case h_2 hn =>
    constructor
    case mp  => nofun
    case mpr =>
      rintro ⟨s, o, h, _⟩
      exact (hn s o r h).elim

theorem symbolAt?_cons {α : Type} {f : Symbol → Option α} {a : α} (h : f s = some a) (o : Nat)
    (ts : List Located) :
    symbolAt? f (⟨.symbol s, o⟩ :: ts) = some (a, ⟨ts, Nat.lt_succ_self _⟩) :=
  symbolAt?_eq_some_iff.mpr ⟨s, o, rfl, h⟩

theorem after?_eq_some_iff {r : Behind ts} :
    after? s ts = some r ↔ ∃ o, ts = ⟨.symbol s, o⟩ :: r.val := by
  simp only [after?, Option.map_eq_some_iff]
  constructor
  case mp =>
    rintro ⟨_, h, hr⟩
    obtain ⟨s', o, h, hs⟩ := symbolAt?_eq_some_iff.mp h
    split at hs
    case isTrue e  => exact ⟨o, e ▸ hr ▸ h⟩
    case isFalse e => cases hs
  case mpr =>
    rintro ⟨o, h⟩
    exact ⟨((), r), symbolAt?_eq_some_iff.mpr ⟨s, o, h, if_pos rfl⟩, rfl⟩

theorem after?_cons : after? s (⟨.symbol s, o⟩ :: ts) = some ⟨ts, Nat.lt_succ_self _⟩ :=
  after?_eq_some_iff.mpr ⟨o, rfl⟩

theorem after?_cons_of_ne {s' : Symbol} (h : s' ≠ s) : after? s (⟨.symbol s', o⟩ :: ts) = none := by
  simp [after?, symbolAt?, h]

end

section

variable {p q : List Located → Prop}

def bare (x : Except Misparse (Tree × { rest // p rest })) :
    Except Misparse (Tree × List Located) :=
  x.map fun (t, rest) => (t, rest.val)

theorem bare_eq_ok_iff {x : Except Misparse (Tree × { rest // p rest })} {t : Tree}
    {rest : List Located} : bare x = .ok (t, rest) ↔ ∃ h, x = .ok (t, ⟨rest, h⟩) := by
  rcases x with _ | ⟨_, _, h⟩
  case error => simp [bare, Except.map]
  case ok =>
    simp only [bare, Except.map, Except.ok.injEq, Prod.mk.injEq, Subtype.mk.injEq]
    constructor
    case mp =>
      rintro ⟨h₁, h₂⟩
      exact ⟨h₂ ▸ h, h₁, h₂⟩
    case mpr =>
      rintro ⟨_, h⟩
      exact h

theorem bare_bind {x : Except Misparse (Tree × { rest // p rest })}
    {f : Tree × { rest // p rest } → Except Misparse (Tree × { rest // q rest })}
    {g : Tree × List Located → Except Misparse (Tree × List Located)}
    (h : ∀ t rest hr, bare (f (t, ⟨rest, hr⟩)) = g (t, rest)) :
    bare (x >>= f) = bare x >>= g := by
  cases x
  case error => rfl
  case ok    => exact h ..

end

def read : Nonterminal → List Located → Except Misparse (Tree × List Located)
  | .conditional, ts => bare (conditional ts)
  | .chain l,     ts => bare (chain l ts)
  | .unary,       ts => bare (unary ts)
  | .primary,     ts => bare (primary ts)

def readLinks (l : Level) (x : Tree) (ts : List Located) : Except Misparse (Tree × List Located) :=
  bare (links l x ts)

variable {ts rest : List Located} {l : Level} {x t : Tree}

theorem length_lt_of_read {n : Nonterminal} (h : read n ts = .ok (t, rest)) :
    rest.length < ts.length := by
  cases n
  all_goals
    obtain ⟨h, _⟩ := bare_eq_ok_iff.mp h
    exact h

theorem read_conditional : read .conditional ts = do
    let (c, r) ← read (.chain .or) ts
    match after? .question r with
    | none => return (c, r)
    | some ⟨r, _⟩ =>
      let (x, r) ← read .conditional r
      match after? .colon r with
      | none => throw ⟨.missingColon, r⟩
      | some ⟨r, _⟩ =>
        let (y, r) ← read .conditional r
        return (.conditional c x y, r) := by
  simp only [read]
  rw [conditional]
  refine bare_bind fun c r _ => ?_
  dsimp only
  rcases after? .question r with _ | ⟨r, _⟩
  case none => rfl
  refine bare_bind fun x r _ => ?_
  dsimp only
  rcases after? .colon r with _ | ⟨r, _⟩
  case none => rfl
  exact bare_bind fun y r _ => rfl

theorem bare_operand : bare (operand l ts) = read l.operands ts := by
  rw [operand]
  cases l <;> rfl

theorem read_chain :
    read (.chain l) ts = read l.operands ts >>= fun (x, r) => readLinks l x r := by
  rw [← bare_operand, read, chain]
  refine bare_bind fun x r _ => ?_
  dsimp only [readLinks]
  cases links l x r <;> rfl

theorem readLinks_eq : readLinks l x ts =
    match symbolAt? l.operator? ts with
    | none => return (x, ts)
    | some (f, ⟨r, _⟩) => read l.operands r >>= fun (y, r) => readLinks l (f x y) r := by
  simp only [readLinks, ← bare_operand]
  rw [links]
  rcases symbolAt? l.operator? ts with _ | ⟨f, r, _⟩
  case none => rfl
  refine bare_bind fun y r _ => ?_
  dsimp only
  cases links l (f x y) r <;> rfl

theorem read_unary : read .unary ts =
    match symbolAt? unaryOperator? ts with
    | none => read .primary ts
    | some (op, ⟨r, _⟩) => do
      let (x, r) ← read .unary r
      return (.unary op x, r) := by
  simp only [read]
  rw [unary]
  rcases symbolAt? unaryOperator? ts with _ | ⟨op, r, _⟩
  case none => rfl
  exact bare_bind fun x r _ => rfl

theorem read_primary : read .primary ts =
    match ts with
    | [] => throw ⟨.endOfInput, []⟩
    | k :: r =>
      match k.token with
      | .number x => return (.literal (.number x), r)
      | .text s   => return (.literal (.text s), r)
      | .truth b  => return (.literal (.truth b), r)
      | .name n   => return (.name n, r)
      | .symbol .opening => do
        let (x, r) ← read .conditional r
        match after? .closing r with
        | none        => throw ⟨.missingParenthesis, r⟩
        | some ⟨r, _⟩ => return (x, r)
      | .symbol _ => throw ⟨.noValue, ts⟩ := by
  simp only [read]
  unfold primary
  rcases ts with _ | ⟨⟨k, o⟩, r⟩
  case nil => rfl
  rcases k with _ | _ | _ | _ | s
  case cons.symbol =>
    cases s
    case opening =>
      refine bare_bind fun x r _ => ?_
      dsimp only
      rcases after? .closing r with _ | ⟨r, _⟩
      case none => rfl
      case some => rfl
    all_goals rfl
  all_goals rfl

theorem ofTokens_eq_ok_iff :
    Tree.ofTokens ts = .ok t ↔ read .conditional ts = .ok (t, []) := by
  simp only [Tree.ofTokens, read]
  rcases conditional ts with _ | ⟨x, _ | ⟨k, r⟩, _⟩
  case error   => simp [bare, bind, Except.bind, Except.map]
  case ok.nil  => simp [bare, bind, Except.bind, Except.map, pure, Except.pure]
  case ok.cons => simp [bare, bind, Except.bind, Except.map, throw, throwThe,
    MonadExceptOf.throw]

-- What is read for a nonterminal depends on what is read for the next one from the same tokens, and
-- on what is read of fewer tokens.
theorem read_induction {P : Nonterminal → List Located → Prop}
    (primary : ∀ us, (∀ n vs, vs.length < us.length → P n vs) → P .primary us)
    (unary : ∀ us, (∀ n vs, vs.length < us.length → P n vs) → P .primary us → P .unary us)
    (chain : ∀ l us, (∀ n vs, vs.length < us.length → P n vs) → P l.operands us → P (.chain l) us)
    (conditional : ∀ us, (∀ n vs, vs.length < us.length → P n vs) → P (.chain .or) us →
      P .conditional us)
    (n : Nonterminal) (us : List Located) : P n us := by
  induction h : us.length using Nat.strongRecOn generalizing n us
  case ind k hi =>
    have hi : ∀ n vs, vs.length < us.length → P n vs := fun n vs hv => hi _ (h ▸ hv) n vs rfl
    have primary  := primary us hi
    have unary    := unary us hi primary
    have product  := chain .product us hi unary
    have sum      := chain .sum us hi product
    have relation := chain .relation us hi sum
    have equality := chain .equality us hi relation
    have and      := chain .and us hi equality
    have or       := chain .or us hi and
    cases n
    case conditional => exact conditional us hi or
    case chain l     => cases l <;> assumption
    case unary       => exact unary
    case primary     => exact primary

end Ordo.Formula
