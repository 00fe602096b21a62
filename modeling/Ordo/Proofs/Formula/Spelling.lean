import Ordo.Formula.Token
import Ordo.Proofs.Number.Numeral

namespace Ordo.Formula

open Text (isBlank)
open Number (IsNumeral)

section Quoted

def IsQuote (c : Char) : Prop :=
  c = '"' ∨ c = '\''

instance (c : Char) : Decidable (IsQuote c) :=
  inferInstanceAs (Decidable (_ ∨ _))

-- What stands behind an opening quote up to the closing one, and the text that it stands for.
inductive Quoted (quote : Char) : List Char → List Char → Prop
  | closed :
    Quoted quote [quote] []
  | escape {e l s} :
    Quoted quote l s → Quoted quote ('\\' :: e :: l) (escaped e :: s)
  | plain {c l s} :
    c ≠ '\\' → c ≠ quote → Quoted quote l s → Quoted quote (c :: l) (c :: s)

variable {quote : Char} {cs l l' rest s : List Char}

theorem IsQuote.ne_backslash (h : IsQuote quote) : quote ≠ '\\' := by
  rcases h with rfl | rfl <;> decide

theorem quoted?_closed (hq : quote ≠ '\\') (cs : List Char) :
    quoted? quote (quote :: cs) = some ([], ⟨cs, Nat.le_succ _⟩) := by
  cases cs <;> exact (if_neg hq).trans (if_pos rfl)

theorem quoted?_escape (quote e : Char) (cs : List Char) :
    quoted? quote ('\\' :: e :: cs) =
      (quoted? quote cs).map fun x =>
        (escaped e :: x.1, ⟨x.2.1, Nat.le_succ_of_le (Nat.le_succ_of_le x.2.2)⟩) := by
  refine (if_pos rfl).trans ?_
  cases quoted? quote cs <;> rfl

theorem quoted?_plain {c : Char} (hb : c ≠ '\\') (hc : c ≠ quote) (cs : List Char) :
    quoted? quote (c :: cs) =
      (quoted? quote cs).map fun x => (c :: x.1, ⟨x.2.1, Nat.le_succ_of_le x.2.2⟩) := by
  cases cs
  case nil => exact (if_neg hb).trans (if_neg hc)
  case cons d cs =>
    refine ((if_neg hb).trans (if_neg hc)).trans ?_
    cases quoted? quote (d :: cs) <;> rfl

theorem Quoted.read (hq : IsQuote quote) (h : Quoted quote l s) (hc : cs = l ++ rest) :
    ∃ r : Text.Rest cs, quoted? quote cs = some (s, r) ∧ r.1 = rest := by
  induction h generalizing cs
  case closed =>
    subst hc
    exact ⟨_, quoted?_closed hq.ne_backslash rest, rfl⟩
  case escape e l _ _ hi =>
    subst hc
    obtain ⟨r, hi, hr⟩ := hi rfl
    exact ⟨_, (quoted?_escape quote e (l ++ rest)).trans (congrArg _ hi), hr⟩
  case plain c l _ hb hc' _ hi =>
    subst hc
    obtain ⟨r, hi, hr⟩ := hi rfl
    exact ⟨_, (quoted?_plain hb hc' (l ++ rest)).trans (congrArg _ hi), hr⟩

theorem exists_quoted {r : Text.Rest cs} (h : quoted? quote cs = some (s, r)) :
    ∃ l, cs = l ++ r.1 ∧ Quoted quote l s := by
  induction cs using quoted?.induct quote generalizing s
  case case1 => cases h
  case case2 => cases h
  case case3 e cs hi =>
    rw [quoted?_escape] at h
    obtain ⟨⟨s', r'⟩, hr, hs⟩ := Option.map_eq_some_iff.mp h
    obtain ⟨rfl, rfl⟩ := Prod.mk.inj hs
    obtain ⟨l, hl, hq⟩ := hi hr
    exact ⟨'\\' :: e :: l, congrArg ('\\' :: e :: ·) hl, .escape hq⟩
  case case4 cs hb =>
    rw [quoted?_closed hb] at h
    obtain ⟨rfl, rfl⟩ := Prod.mk.inj (Option.some.inj h)
    exact ⟨[quote], rfl, .closed⟩
  case case5 c cs hb hc hi =>
    rw [quoted?_plain hb hc] at h
    obtain ⟨⟨s', r'⟩, hr, hs⟩ := Option.map_eq_some_iff.mp h
    obtain ⟨rfl, rfl⟩ := Prod.mk.inj hs
    obtain ⟨l, hl, hq⟩ := hi hr
    exact ⟨c :: l, congrArg (c :: ·) hl, .plain hb hc hq⟩

-- The closing quote of a text is the first one that no backslash stands in front of.
theorem Quoted.unique {l' s' : List Char} (hq : IsQuote quote) (h : Quoted quote l s)
    (h' : Quoted quote l' s') (hp : l <+: l') : l = l' ∧ s = s' := by
  obtain ⟨rest, rfl⟩ := hp
  obtain ⟨r, hl, hr⟩ := h.read hq rfl
  obtain ⟨r', hl', hr'⟩ := h'.read hq (List.append_nil _).symm
  obtain ⟨rfl, rfl⟩ := Prod.mk.inj (Option.some.inj (hl.symm.trans hl'))
  rw [← hr, hr', List.append_nil]
  exact ⟨rfl, rfl⟩

end Quoted

section Symbol

namespace Symbol

theorem mem_all (s : Symbol) : s ∈ all := by
  cases s <;> decide

theorem spelling_injective {s s' : Symbol} (h : s.spelling = s'.spelling) : s = s' := by
  have hall : ∀ s ∈ all, ∀ s' ∈ all, s.spelling = s'.spelling → s = s' := by decide
  exact hall s s.mem_all s' s'.mem_all h

theorem exists_cons (s : Symbol) : ∃ c cs, s.spelling.toList = c :: cs := by
  cases s <;> exact ⟨_, _, rfl⟩

theorem pairwise_all : all.Pairwise fun s s' => s'.spelling.length ≤ s.spelling.length := by
  decide

end Symbol

theorem symbol?_eq_some {c : Char} {s : Symbol} {r : Text.Rest cs}
    (h : symbol? c cs = some (s, r)) :
    c :: cs = s.spelling.toList ++ r.1 ∧
      ∀ s' : Symbol, s'.spelling.toList <+: c :: cs → s'.spelling.length ≤ s.spelling.length := by
  obtain ⟨s, hs, hr⟩ := Option.map_eq_some_iff.mp h
  obtain ⟨rfl, rfl⟩ := Prod.mk.inj hr
  obtain ⟨hp, before, behind, hall, hb⟩ := List.find?_eq_some_iff_append.mp hs
  obtain ⟨rest, hp⟩ := List.isPrefixOf_iff_prefix.mp hp
  refine ⟨?_, fun s' hp' => ?_⟩
  case refine_1 =>
    obtain ⟨d, ds, hs⟩ := s.exists_cons
    change c :: cs = s.spelling.toList ++ cs.drop (s.spelling.length - 1)
    rw [← String.length_toList, hs, List.length_cons, Nat.add_sub_cancel]
    rw [hs, List.cons_append] at hp
    obtain ⟨rfl, rfl⟩ := List.cons.inj hp
    rw [List.drop_left, List.cons_append]
  case refine_2 =>
    have hm := s'.mem_all
    have ho := Symbol.pairwise_all
    rw [hall] at hm ho
    rcases List.mem_append.mp hm with hm | hm
    case inl =>
      have hb := hb s' hm
      rw [List.isPrefixOf_iff_prefix.mpr hp'] at hb
      contradiction
    case inr =>
      rcases List.mem_cons.mp hm with rfl | hm
      case inl => exact Nat.le_refl _
      case inr => exact List.rel_of_pairwise_cons (List.pairwise_append.mp ho).2.1 hm

theorem symbol?_eq_none {c : Char} (h : symbol? c cs = none) (s : Symbol) :
    ¬ s.spelling.toList <+: c :: cs := by
  have h := List.find?_eq_none.mp (Option.map_eq_none_iff.mp h) s s.mem_all
  rwa [List.isPrefixOf_iff_prefix] at h

end Symbol

section Characters

variable {c : Char}

theorem bounds_of_isDigit (h : c.isDigit) : 0x30 ≤ c.toNat ∧ c.toNat ≤ 0x39 := by
  simpa [Char.isDigit, UInt32.le_iff_toNat_le] using h

theorem bounds_of_isAlpha (h : c.isAlpha) : 0x41 ≤ c.toNat ∧ c.toNat ≤ 0x7A := by
  rcases Bool.or_eq_true_iff.mp h with h | h
  case inl =>
    obtain ⟨hl, hu⟩ := of_decide_eq_true h
    have hu := UInt32.le_iff_toNat_le.mp hu
    exact ⟨UInt32.le_iff_toNat_le.mp hl, Nat.le_trans hu (by decide)⟩
  case inr =>
    obtain ⟨hl, hu⟩ := Bool.and_eq_true_iff.mp h
    have hl := UInt32.le_iff_toNat_le.mp (of_decide_eq_true hl)
    exact ⟨Nat.le_trans (by decide) hl, UInt32.le_iff_toNat_le.mp (of_decide_eq_true hu)⟩

theorem bounds_of_startsName (h : startsName c) :
    c.toNat = 0x24 ∨ 0x41 ≤ c.toNat ∧ c.toNat ≤ 0x7A := by
  simp only [startsName, Bool.or_eq_true, decide_eq_true_eq] at h
  rcases h with (h | rfl) | rfl
  case inl.inl => exact .inr (bounds_of_isAlpha h)
  case inl.inr => exact .inr (by decide)
  case inr     => exact .inl rfl

theorem isBlank_eq_false (h : 0x20 < c.toNat) (h' : c.toNat < 0x85) : isBlank c = false := by
  simp [isBlank, Text.blankRanges]
  omega

theorem isBlank_of_continuesName (h : continuesName c) : isBlank c = false := by
  rcases Bool.or_eq_true_iff.mp h with h | h
  case inl =>
    have hb := bounds_of_startsName h
    exact isBlank_eq_false (by omega) (by omega)
  case inr =>
    have hb := bounds_of_isDigit h
    exact isBlank_eq_false (by omega) (by omega)

end Characters

section Spells

-- How a token may be spelled.
inductive Spells : List Char → Token → Prop
  | number {l x} :
    IsNumeral l → Number.ofText? (String.ofList l) = some x → Spells l (.number x)
  | name {c cs} :
    startsName c → (∀ d ∈ cs, continuesName d) → Spells (c :: cs) (nameOrTruth (c :: cs))
  | text {quote l s} :
    IsQuote quote → Quoted quote l s → Spells (quote :: l) (.text (String.ofList s))
  | symbol (s : Symbol) :
    Spells s.spelling.toList (.symbol s)

-- The kinds of spellings, which are told apart by their first characters.
inductive Kind
  | numeral
  | name
  | text
  | symbol

def Kind.of (c : Char) : Kind :=
  if c.isDigit ∨ c = '.' then numeral
  else if startsName c then name
  else if IsQuote c then text
  else symbol

variable {c : Char} {t t' : Token}

theorem Kind.of_numeral (h : c.isDigit ∨ c = '.') : of c = numeral :=
  if_pos h

theorem Kind.of_name (h : startsName c) : of c = name := by
  have hb := bounds_of_startsName h
  have hn : ¬ (c.isDigit ∨ c = '.') := by
    rintro (hd | rfl)
    case inl =>
      have hb' := bounds_of_isDigit hd
      omega
    case inr => contradiction
  rw [of, if_neg hn, if_pos h]

theorem Kind.of_quote (h : IsQuote c) : of c = text := by
  rcases h with rfl | rfl <;> rfl

theorem Kind.of_symbol {s : Symbol} (h : s.spelling.toList = c :: cs) : of c = symbol := by
  cases s <;> cases (List.cons.inj h).1 <;> rfl

-- What the spellings of each kind are.
def Kind.Spells (c : Char) (cs : List Char) (t : Token) : Kind → Prop
  | numeral => IsNumeral (c :: cs) ∧
    ∃ x, Number.ofText? (String.ofList (c :: cs)) = some x ∧ t = .number x
  | name    => (∀ d ∈ cs, continuesName d) ∧ t = nameOrTruth (c :: cs)
  | text    => IsQuote c ∧ ∃ s, Quoted c cs s ∧ t = .text (String.ofList s)
  | symbol  => ∃ s : Symbol, c :: cs = s.spelling.toList ∧ t = .symbol s

theorem Spells.of_cons (h : Spells (c :: cs) t) : (Kind.of c).Spells c cs t := by
  generalize hl : c :: cs = l at h
  cases h
  case number x hn hx =>
    obtain ⟨d, ds, hd, hk⟩ := hn.exists_cons
    obtain ⟨rfl, rfl⟩ := List.cons.inj (hl.trans hd)
    rw [Kind.of_numeral hk]
    exact ⟨hl ▸ hn, x, hl ▸ hx, rfl⟩
  case name hs hc =>
    obtain ⟨rfl, rfl⟩ := List.cons.inj hl
    rw [Kind.of_name hs]
    exact ⟨hc, rfl⟩
  case text hq ht =>
    obtain ⟨rfl, rfl⟩ := List.cons.inj hl
    rw [Kind.of_quote hq]
    exact ⟨hq, _, ht, rfl⟩
  case symbol s =>
    rw [Kind.of_symbol hl.symm]
    exact ⟨s, hl, rfl⟩

theorem Spells.exists_cons (h : Spells l t) : ∃ c cs, l = c :: cs := by
  cases h
  case number hn _ =>
    obtain ⟨c, cs, rfl, -⟩ := hn.exists_cons
    exact ⟨c, cs, rfl⟩
  case name     => exact ⟨_, _, rfl⟩
  case text     => exact ⟨_, _, rfl⟩
  case symbol s => exact s.exists_cons

-- Only between quotes does a spelling contain blanks.
theorem Spells.quoted_or (h : Spells l t) :
    (∃ quote q s, l = quote :: q ∧ IsQuote quote ∧ Quoted quote q s) ∨
      ∀ b ∈ l, isBlank b = false := by
  cases h
  case number hn _ =>
    refine .inr fun b hb => ?_
    rcases hn.mem b hb with hd | hm
    case inl => exact isBlank_of_continuesName (Bool.or_eq_true_iff.mpr (.inr hd))
    case inr =>
      have hall : ['.', 'e', 'E', '+', '-'].all (!isBlank ·) = true := by decide
      simpa using List.all_eq_true.mp hall b hm
  case name c cs hc hcs =>
    refine .inr fun b hb => isBlank_of_continuesName ?_
    rcases List.mem_cons.mp hb with rfl | hb
    case inl => exact Bool.or_eq_true_iff.mpr (.inl hc)
    case inr => exact hcs b hb
  case text hq hs => exact .inl ⟨_, _, _, rfl, hq, hs⟩
  case symbol s =>
    have hall : s.spelling.toList.all (!isBlank ·) = true := by cases s <;> rfl
    exact .inr fun b hb => by simpa using List.all_eq_true.mp hall b hb

theorem Spells.isBlank_eq_false (h : Spells (c :: cs) t) : isBlank c = false := by
  rcases h.quoted_or with ⟨quote, q, s, hc, hq, -⟩ | hb
  case inl =>
    obtain ⟨rfl, -⟩ := List.cons.inj hc
    rcases hq with rfl | rfl <;> rfl
  case inr => exact hb c List.mem_cons_self

-- A spelling is the spelling of one token only.
theorem Spells.deterministic (h : Spells l t) (h' : Spells l t') : t = t' := by
  obtain ⟨c, cs, rfl⟩ := h.exists_cons
  have h := h.of_cons
  have h' := h'.of_cons
  generalize Kind.of c = k at h h'
  cases k
  case numeral =>
    obtain ⟨-, x, hx, rfl⟩ := h
    obtain ⟨-, x', hx', rfl⟩ := h'
    rw [Option.some.inj (hx.symm.trans hx')]
  case name => exact h.2.trans h'.2.symm
  case text =>
    obtain ⟨hq, s, hs, rfl⟩ := h
    obtain ⟨-, s', hs', rfl⟩ := h'
    rw [(hs.unique hq hs' (List.prefix_refl _)).2]
  case symbol =>
    obtain ⟨s, hs, rfl⟩ := h
    obtain ⟨s', hs', rfl⟩ := h'
    rw [Symbol.spelling_injective (String.toList_inj.mp (hs.symm.trans hs'))]

end Spells

section Reading

variable {c : Char} {t t' : Token} {f : LexicalFault}

-- Whether no spelling reaches from `l` into what stands behind it.
def Ends (l rest : List Char) : Prop :=
  ∀ l' t', Spells l' t' → l' <+: l ++ rest → l'.length ≤ l.length

theorem ends_nil (l : List Char) : Ends l [] :=
  fun _ _ _ hp => (List.append_nil l ▸ hp).length_le

theorem Ends.of_append {behind : List Char} (h : Ends l (rest ++ behind)) : Ends l rest :=
  fun l' t' h' hp => h l' t' h' (hp.trans ⟨behind, List.append_assoc _ _ _⟩)

-- Why no token can be read at the character `c`.
inductive Unreadable (c : Char) (cs : List Char) : LexicalFault → Prop
  | stray :
    (∀ l t, Spells l t → ¬ l <+: c :: cs) → Unreadable c cs (.strayCharacter c)
  | openText :
    IsQuote c → (∀ l s, Quoted c l s → ¬ l <+: cs) → Unreadable c cs .openText

theorem Spells.of_prefix (h : Spells l t) (hp : l <+: c :: cs) :
    ∃ ds, l = c :: ds ∧ ds <+: cs ∧ (Kind.of c).Spells c ds t := by
  obtain ⟨d, ds, rfl⟩ := h.exists_cons
  obtain ⟨rfl, hds⟩ := List.cons_prefix_cons.mp hp
  exact ⟨ds, rfl, hds, h.of_cons⟩

theorem Unreadable.not_prefix (h : Unreadable c cs f) (hl : Spells l t) : ¬ l <+: c :: cs := by
  cases h
  case stray hs => exact hs l t hl
  case openText hq ho =>
    intro hp
    obtain ⟨ds, rfl, hp, hk⟩ := hl.of_prefix hp
    rw [Kind.of_quote hq] at hk
    obtain ⟨-, s, hs, -⟩ := hk
    exact ho ds s hs hp

-- What `Token.read` makes of a text that begins with `c`.
def Token.ReadSpec (c : Char) (cs : List Char) :
    Except LexicalFault (Token × Text.Rest cs) → Prop
  | .ok (t, rest) => ∃ l, c :: cs = l ++ rest.1 ∧ Spells l t ∧ Ends l rest
  | .error f      => Unreadable c cs f

theorem read_numeral {x : Number.Literal}
    (h : Number.Literal.read? (c :: cs) = some (x, rest)) :
    ∃ l y, c :: cs = l ++ rest ∧ Number.ofText? (String.ofList l) = some y ∧
      Spells l (.number y) ∧ Ends l rest := by
  obtain ⟨l, hc, hn, hl⟩ := Number.Literal.read?_eq_some h
  obtain ⟨y, hy⟩ := hn.exists_ofText?
  refine ⟨l, y, hc, hy, .number hn hy, fun l' t' h' hp => ?_⟩
  obtain ⟨d, ds, rfl, hd⟩ := hn.exists_cons
  obtain ⟨ds', rfl, -, hk⟩ := h'.of_prefix hp
  rw [Kind.of_numeral hd] at hk
  exact (hl _ hk.1 (hc ▸ hp)).length_le

theorem read_name (h : startsName c) (cs : List Char) :
    Spells (c :: cs.takeWhile continuesName) (nameOrTruth (c :: cs.takeWhile continuesName)) ∧
      Ends (c :: cs.takeWhile continuesName) (cs.dropWhile continuesName) := by
  refine ⟨.name h (List.all_eq_true.mp List.all_takeWhile), fun l' t' h' hp => ?_⟩
  rw [List.cons_append, List.takeWhile_append_dropWhile] at hp
  obtain ⟨ds, rfl, hp, hk⟩ := h'.of_prefix hp
  rw [Kind.of_name h] at hk
  exact Nat.succ_le_succ (Text.prefix_takeWhile hk.1 hp).length_le

theorem ends_quoted {quote : Char} (hq : IsQuote quote) (h : Quoted quote l s)
    (rest : List Char) : Ends (quote :: l) rest := by
  intro l' t' h' hp
  obtain ⟨ds, rfl, hp, hk⟩ := h'.of_prefix hp
  rw [Kind.of_quote hq] at hk
  obtain ⟨-, s', hs', -⟩ := hk
  rcases List.prefix_or_prefix_of_prefix hp (List.prefix_append l rest) with hp | hp
  case inl => exact Nat.succ_le_succ hp.length_le
  case inr =>
    obtain ⟨rfl, -⟩ := h.unique hq hs' hp
    exact Nat.le_refl _

theorem Spells.ends_blank (h : Spells l t) (hc : isBlank c) (rest : List Char) :
    Ends l (c :: rest) := by
  intro l' t' h' hp
  obtain ⟨d, ds, rfl⟩ := h'.exists_cons
  obtain ⟨e, es, rfl⟩ := h.exists_cons
  obtain ⟨rfl, -⟩ := List.cons_prefix_cons.mp hp
  rcases h'.quoted_or with ⟨quote, q, s, hq, hquote, -⟩ | hb
  case inl =>
    obtain ⟨rfl, rfl⟩ := List.cons.inj hq
    have hk := h.of_cons
    rw [Kind.of_quote hquote] at hk
    obtain ⟨-, s', hs', -⟩ := hk
    exact ends_quoted hquote hs' (c :: rest) _ _ h' hp
  case inr =>
    refine Nat.le_of_not_lt fun hlt => ?_
    have hp' : d :: es ++ [c] <+: d :: es ++ c :: rest :=
      (List.prefix_append_right_inj _).mpr ⟨rest, rfl⟩
    have hm := (List.prefix_of_prefix_length_le hp' hp (by simp at hlt ⊢; omega)).subset
    simp [hb c (hm (by simp))] at hc

theorem ends_symbol {s : Symbol} {r : Text.Rest cs} (h : symbol? c cs = some (s, r)) :
    Ends s.spelling.toList r := by
  obtain ⟨hc, hl⟩ := symbol?_eq_some h
  intro l' t' h' hp
  rw [← hc] at hp
  obtain ⟨ds, rfl, -, hk⟩ := h'.of_prefix hp
  obtain ⟨d, ds', hd⟩ := s.exists_cons
  rw [hd, List.cons_append] at hc
  rw [Kind.of_symbol ((List.cons.inj hc).1 ▸ hd)] at hk
  obtain ⟨s', hs', -⟩ := hk
  rw [hs'] at hp ⊢
  rw [String.length_toList, String.length_toList]
  exact hl s' hp

-- The token that is read has the longest spelling that stands there. No fault is that of a number.
theorem Token.readSpec_read (c : Char) (cs : List Char) : ReadSpec c cs (read c cs) := by
  unfold read
  split
  case h_1 x rest hn =>
    obtain ⟨l, y, hc, hy, hl⟩ := read_numeral hn
    have ht : (c :: cs).take ((c :: cs).length - rest.length) = l := by
      rw [hc, List.length_append, Nat.add_sub_cancel, List.take_left]
    simp only [ht, hy]
    exact ⟨l, hc, hl⟩
  case h_2 hn =>
    split
    case isTrue hs =>
      refine ⟨c :: cs.takeWhile continuesName, ?_, read_name hs cs⟩
      rw [List.cons_append, List.takeWhile_append_dropWhile]
    case isFalse hs =>
      split
      case isTrue hq =>
        split
        case h_1 s r hr =>
          obtain ⟨l, hc, hl⟩ := exists_quoted hr
          exact ⟨c :: l, congrArg (c :: ·) hc, .text hq hl, ends_quoted hq hl r⟩
        case h_2 hr =>
          refine .openText hq fun l s hl ⟨rest, hc⟩ => ?_
          obtain ⟨r, hr', -⟩ := hl.read hq hc.symm
          simp [hr] at hr'
      case isFalse hq =>
        split
        case h_1 s r hr =>
          exact ⟨_, (symbol?_eq_some hr).1, .symbol s, ends_symbol hr⟩
        case h_2 hr =>
          refine .stray fun l t hl hp => ?_
          obtain ⟨ds, hc⟩ := hp
          cases hl
          case number hl _ => exact Number.Literal.not_prefix_of_read?_eq_none hn hl ⟨ds, hc⟩
          case name hd _   => exact hs ((List.cons.inj hc).1 ▸ hd)
          case text hd _   => exact hq ((List.cons.inj hc).1 ▸ hd)
          case symbol s    => exact symbol?_eq_none hr s ⟨ds, hc⟩

-- Conversely, what is spelled so that nothing longer stands there is read.
theorem Spells.read (h : Spells (c :: l) t) (he : Ends (c :: l) rest) (hc : cs = l ++ rest) :
    ∃ r : Text.Rest cs, Token.read c cs = .ok (t, r) ∧ r.1 = rest := by
  subst hc
  have hs := Token.readSpec_read c (l ++ rest)
  cases hr : Token.read c (l ++ rest)
  case error f =>
    rw [hr] at hs
    exact absurd (List.prefix_append (c :: l) rest) (hs.not_prefix h)
  case ok r =>
    obtain ⟨t', r⟩ := r
    rw [hr] at hs
    obtain ⟨l', hc, h', he'⟩ := hs
    have hp : l' <+: c :: l ++ rest := ⟨r, hc.symm⟩
    have hp' : c :: l <+: c :: l ++ rest := List.prefix_append _ _
    have hle : (c :: l).length ≤ l'.length := he' _ _ h (hc ▸ hp')
    obtain rfl := (List.prefix_of_prefix_length_le hp' hp hle).eq_of_length_le (he _ _ h' hp)
    obtain rfl := h.deterministic h'
    exact ⟨r, rfl, List.append_cancel_left hc.symm⟩

end Reading

end Ordo.Formula
