import Mathlib.Data.List.Forall2
import Ordo.Proofs.Formula.Spelling
import Ordo.Proofs.Result

namespace Ordo

theorem Text.byteLength_append (cs ds : List Char) :
    byteLength (cs ++ ds) = byteLength cs + byteLength ds := by
  induction cs
  case nil => simp [byteLength]
  case cons c cs hi => rw [List.cons_append, byteLength, hi, byteLength, Nat.add_assoc]

theorem Text.utf8ByteSize_ofList (cs : List Char) :
    (String.ofList cs).utf8ByteSize = byteLength cs := by
  induction cs
  case nil => rfl
  case cons c cs hi =>
    rw [String.ofList_cons, String.utf8ByteSize_append, hi, String.utf8ByteSize_singleton]
    rfl

namespace Formula

open Text (isBlank byteLength byteLength_append)

-- The reading of the tokens `ts` from the place `o` to the place `o'`, where `rest` stands.
inductive Lexes : Nat → List Char → List Located → Nat → List Char → Prop
  | done {o cs} :
    Lexes o cs [] o cs
  | blank {o c cs ts o' rest} :
    isBlank c → Lexes (o + c.utf8Size) cs ts o' rest → Lexes o (c :: cs) ts o' rest
  | token {o l t cs ts o' rest} :
    Spells l t → Ends l cs → Lexes (o + byteLength l) cs ts o' rest →
    Lexes o (l ++ cs) (⟨t, o⟩ :: ts) o' rest

-- A text that consists of blanks and of the lexemes `ls`, of which there is one for each token and
-- in its place. The text stands behind `o` bytes.
inductive Tiles : Nat → String → List Located → List String → Prop
  | done {o} :
    Tiles o "" [] []
  | blanks {o b s ts ls} :
    Text.isAllBlank b → Tiles (o + b.utf8ByteSize) s ts ls → Tiles o (b ++ s) ts ls
  | lexeme {o l t s ts ls} :
    l ≠ "" → Tiles (o + l.utf8ByteSize) s ts ls → Tiles o (l ++ s) (⟨t, o⟩ :: ts) (l :: ls)

variable {o o' k : Nat} {c : Char} {cs l rest : List Char} {t : Token} {ts : List Located}
  {ls : List String} {source s : String} {f : LexicalFault}

section Run

theorem tokensFrom_token (h : Spells l t) (he : Ends l rest) (o : Nat) :
    tokensFrom o (l ++ rest) = (⟨t, o⟩ :: ·) <$> tokensFrom (o + byteLength l) rest := by
  obtain ⟨c, cs, rfl⟩ := h.exists_cons
  obtain ⟨⟨r, hle⟩, hr, hrest⟩ := h.read he rfl
  obtain rfl : rest = r := hrest.symm
  have hw : byteLength (c :: (cs ++ rest)) - byteLength rest = byteLength (c :: cs) := by
    rw [← List.cons_append, byteLength_append, Nat.add_sub_cancel]
  rw [List.cons_append, tokensFrom, h.isBlank_eq_false, hr]
  simp only [hw]
  rfl

theorem Lexes.tokensFrom (h : Lexes o cs ts o' rest) :
    tokensFrom o cs = (ts ++ ·) <$> tokensFrom o' rest := by
  induction h
  case done => simp
  case blank hb _ hi =>
    rw [Formula.tokensFrom, if_pos hb, hi]
  case token hl he _ hi =>
    rw [tokensFrom_token hl he, hi]
    simp

-- The reading comes to the end or to a character where it fails.
theorem exists_lexes (o : Nat) (cs : List Char) :
    ∃ ts o' rest, Lexes o cs ts o' rest ∧
      (rest = [] ∨ ∃ c behind f, rest = c :: behind ∧ isBlank c = false ∧
        Token.read c behind = .error f) := by
  induction o, cs using tokensFrom.induct
  case case1 o => exact ⟨[], o, [], .done, .inl rfl⟩
  case case2 o c cs hb hi =>
    obtain ⟨ts, o', rest, hl, hr⟩ := hi
    exact ⟨ts, o', rest, .blank hb hl, hr⟩
  case case3 o c cs hb f hf =>
    exact ⟨[], o, c :: cs, .done, .inr ⟨c, cs, f, rfl, Bool.not_eq_true _ ▸ hb, hf⟩⟩
  case case4 o c cs hb t rest hr ht width hi =>
    obtain ⟨ts, o', rest', hl, hr'⟩ := hi
    have hs := Token.readSpec_read c cs
    rw [ht] at hs
    obtain ⟨l, hc, hl', he⟩ := hs
    have hw : width = byteLength l := by
      simp only [width, hc, byteLength_append, Nat.add_sub_cancel]
    rw [hw] at hl
    exact ⟨⟨t, o⟩ :: ts, o', rest', hc ▸ .token hl' he hl, hr'⟩

theorem tokensFrom_eq_error (h : isBlank c = false) (hf : Token.read c cs = .error f) (o : Nat) :
    tokensFrom o (c :: cs) = .error (o, f) := by
  rw [tokensFrom, h, hf]
  rfl

theorem tokens_eq_ok_iff : tokens source = .ok ts ↔ ∃ o, Lexes 0 source.toList ts o [] := by
  constructor
  case mp =>
    intro h
    obtain ⟨ts', o, rest, hl, rfl | ⟨c, behind, f, rfl, hb, hf⟩⟩ := exists_lexes 0 source.toList
    case inl =>
      rw [tokens, hl.tokensFrom, tokensFrom] at h
      obtain rfl : ts' ++ [] = ts := Except.ok.inj h
      exact ⟨o, (List.append_nil ts').symm ▸ hl⟩
    case inr =>
      rw [tokens, hl.tokensFrom, tokensFrom_eq_error hb hf] at h
      contradiction
  case mpr =>
    rintro ⟨o, h⟩
    rw [tokens, h.tokensFrom, tokensFrom]
    exact congrArg Except.ok (List.append_nil ts)

theorem tokens_eq_error_iff :
    tokens source = .error (k, f) ↔
      ∃ ts c behind, Lexes 0 source.toList ts k (c :: behind) ∧ isBlank c = false ∧
        Token.read c behind = .error f := by
  constructor
  case mp =>
    intro h
    obtain ⟨ts, o, rest, hl, rfl | ⟨c, behind, f', rfl, hb, hf⟩⟩ := exists_lexes 0 source.toList
    case inl =>
      rw [tokens, hl.tokensFrom, tokensFrom] at h
      contradiction
    case inr =>
      rw [tokens, hl.tokensFrom, tokensFrom_eq_error hb hf] at h
      obtain ⟨rfl, rfl⟩ := Prod.mk.inj (Except.error.inj h)
      exact ⟨ts, c, behind, hl, hb, hf⟩
  case mpr =>
    rintro ⟨ts, c, behind, hl, hb, hf⟩
    rw [tokens, hl.tokensFrom, tokensFrom_eq_error hb hf]
    rfl

-- What has been read can be read on its own.
theorem Lexes.exists_before (h : Lexes o cs ts o' rest) :
    ∃ before, cs = before ++ rest ∧ o' = o + byteLength before ∧ Lexes o before ts o' [] := by
  induction h
  case done => exact ⟨[], rfl, rfl, .done⟩
  case blank c cs ts o' rest hb _ hi =>
    obtain ⟨before, rfl, rfl, hl⟩ := hi
    exact ⟨c :: before, rfl, Nat.add_assoc _ _ _, .blank hb hl⟩
  case token l t cs ts o' rest hs he _ hi =>
    obtain ⟨before, rfl, rfl, hl⟩ := hi
    refine ⟨l ++ before, (List.append_assoc _ _ _).symm, ?_, .token hs he.of_append hl⟩
    rw [byteLength_append, Nat.add_assoc]

end Run

section Tiling

theorem Lexes.exists_tiles (h : Lexes o cs ts o' []) :
    ∃ ls, Tiles o (String.ofList cs) ts ls ∧
      List.Forall₂ (fun t l => Spells l.toList t.token) ts ls := by
  generalize hr : [] = rest at h
  induction h
  case done =>
    subst hr
    exact ⟨[], .done, .nil⟩
  case blank c cs ts o' rest hb _ hi =>
    obtain ⟨ls, ht, hf⟩ := hi hr
    refine ⟨ls, ?_, hf⟩
    rw [String.ofList_cons]
    refine .blanks ?_ (String.utf8ByteSize_singleton ▸ ht)
    simpa [Text.isAllBlank] using hb
  case token l t cs ts o' rest hs he _ hi =>
    obtain ⟨ls, ht, hf⟩ := hi hr
    refine ⟨String.ofList l :: ls, ?_, .cons (String.toList_ofList.symm ▸ hs) hf⟩
    rw [String.ofList_append]
    refine .lexeme ?_ (Text.utf8ByteSize_ofList l ▸ ht)
    obtain ⟨c, cs, rfl⟩ := hs.exists_cons
    simp

theorem Tiles.le_offset (h : Tiles o s ts ls) : ∀ t ∈ ts, o ≤ t.offset := by
  induction h
  case done => nofun
  case blanks hi =>
    exact fun t ht => Nat.le_of_add_right_le (hi t ht)
  case lexeme hi =>
    refine List.forall_mem_cons.mpr ⟨Nat.le_refl _, fun t ht => ?_⟩
    exact Nat.le_of_add_right_le (hi t ht)

theorem Tiles.pairwise_offset (h : Tiles o s ts ls) : ts.Pairwise (·.offset < ·.offset) := by
  induction h
  case done         => exact .nil
  case blanks hi    => exact hi
  case lexeme hn ht hi =>
    refine .cons (fun t h => Nat.lt_of_lt_of_le ?_ (ht.le_offset t h)) hi
    exact Nat.lt_add_of_pos_right
      (Nat.pos_of_ne_zero fun h => hn (String.utf8ByteSize_eq_zero_iff.mp h))

-- Whether `l` stands in `source` behind `o` bytes.
def StandsAt (source : String) (o : Nat) (l : String) : Prop :=
  ∃ before behind, source = before ++ l ++ behind ∧ before.utf8ByteSize = o

theorem Tiles.standsAt (h : Tiles o s ts ls) {before : String} (hs : source = before ++ s)
    (ho : before.utf8ByteSize = o) :
    List.Forall₂ (fun t l => StandsAt source t.offset l) ts ls := by
  induction h generalizing before
  case done => exact .nil
  case blanks b s _ _ _ _ hi =>
    rw [← String.append_assoc] at hs
    exact hi hs (by rw [String.utf8ByteSize_append, ho])
  case lexeme l t s _ _ _ _ hi =>
    rw [← String.append_assoc] at hs
    exact .cons ⟨before, s, hs, ho⟩ (hi hs (by rw [String.utf8ByteSize_append, ho]))

-- A lexeme alone is read as its token.
theorem Spells.lexes (h : Spells l t) (o : Nat) : Lexes o l [⟨t, o⟩] (o + byteLength l) [] := by
  have hl := Lexes.token h (ends_nil l) (.done (o := o + byteLength l))
  rwa [List.append_nil] at hl

theorem Lexes.blanks {b : List Char} (hb : ∀ c ∈ b, isBlank c)
    (h : Lexes (o + byteLength b) cs ts o' rest) : Lexes o (b ++ cs) ts o' rest := by
  induction b generalizing o
  case nil => exact h
  case cons c b hi =>
    obtain ⟨hc, hb⟩ := List.forall_mem_cons.mp hb
    refine .blank hc (hi hb ?_)
    rwa [byteLength, ← Nat.add_assoc] at h

-- Lexemes between blanks are read as their tokens.
theorem exists_lexes_intercalate {b : List Char} (hb : ∀ d ∈ c :: b, isBlank d)
    (h : List.Forall₂ (fun t l => Spells l.toList t.token) ts ls) (o : Nat) :
    ∃ ts' o', Lexes o ((c :: b).intercalate (ls.map String.toList)) ts' o' [] ∧
      ts'.map (·.token) = ts.map (·.token) := by
  induction h generalizing o
  case nil => exact ⟨[], o, .done, rfl⟩
  case cons t l ts ls hl hls hi =>
    obtain ⟨ts', o', h, ht⟩ := hi (o + byteLength l.toList + byteLength (c :: b))
    cases ls
    case nil =>
      obtain ⟨⟩ := hls
      refine ⟨[⟨t.token, o⟩], o + byteLength l.toList, ?_, rfl⟩
      rw [List.map_cons, List.map_nil, List.intercalate_singleton]
      exact hl.lexes o
    case cons l' ls =>
      refine ⟨⟨t.token, o⟩ :: ts', o', ?_, congrArg (t.token :: ·) ht⟩
      rw [List.map_cons, List.map_cons, List.intercalate_cons_cons, List.append_assoc]
      exact .token hl (hl.ends_blank (hb c List.mem_cons_self) _) (.blanks hb h)

theorem tokens_intercalate {sep : String} (hn : sep ≠ "") (hb : Text.isAllBlank sep)
    (h : List.Forall₂ (fun t l => Spells l.toList t.token) ts ls) :
    ∃ ts', tokens (sep.intercalate ls) = .ok ts' ∧ ts'.map (·.token) = ts.map (·.token) := by
  obtain ⟨c, b, hs⟩ := List.exists_cons_of_ne_nil (String.toList_eq_nil_iff.not.mpr hn)
  have hb' : ∀ d ∈ c :: b, isBlank d := hs ▸ List.all_eq_true.mp hb
  obtain ⟨ts', o', hl, ht⟩ := exists_lexes_intercalate hb' h 0
  refine ⟨ts', tokens_eq_ok_iff.mpr ⟨o', ?_⟩, ht⟩
  rwa [String.toList_intercalate, hs]

-- The lexemes of a text whose tokens are `ts`.
structure HasLexemes (source : String) (ts : List Located) (ls : List String) : Prop where
  tiles      : Tiles 0 source ts ls
  standing   : List.Forall₂ (fun t l => StandsAt source t.offset l) ts ls
  spelled    : List.Forall₂ (fun t l => Spells l.toList t.token) ts ls
  alone      : List.Forall₂ (fun t l => tokens l = .ok [⟨t.token, 0⟩]) ts ls
  increasing : ts.Pairwise (·.offset < ·.offset)
  respaced   : ∀ sep, sep ≠ "" → Text.isAllBlank sep →
    ∃ ts', tokens (sep.intercalate ls) = .ok ts' ∧ ts'.map (·.token) = ts.map (·.token)

-- A text is read into the tokens of its lexemes. Where it cannot be read, what stands in front of
-- that place is read into the tokens that have been found, and what stands there begins no token or
-- is a text without its closing quote.
theorem tokens_lexemes (source : String) :
    (∀ ts, tokens source = .ok ts → ∃ ls, HasLexemes source ts ls) ∧
      ∀ k f, tokens source = .error (k, f) → ∃ ts before c behind,
        source = before ++ String.ofList (c :: behind) ∧ before.utf8ByteSize = k ∧
        Lexes 0 source.toList ts k (c :: behind) ∧ tokens before = .ok ts ∧
        isBlank c = false ∧ Unreadable c behind f ∧ ∀ numeral, f ≠ .invalidNumber numeral := by
  constructor
  case left =>
    intro ts h
    obtain ⟨o, hl⟩ := tokens_eq_ok_iff.mp h
    obtain ⟨ls, ht, hs⟩ := hl.exists_tiles
    rw [String.ofList_toList] at ht
    refine ⟨ls, ht, ht.standsAt String.empty_append.symm rfl, hs, hs.imp fun t l hs => ?_,
      ht.pairwise_offset, fun sep hn hb => tokens_intercalate hn hb hs⟩
    exact tokens_eq_ok_iff.mpr ⟨_, hs.lexes 0⟩
  case right =>
    intro k f h
    obtain ⟨ts, c, behind, hl, hb, hf⟩ := tokens_eq_error_iff.mp h
    obtain ⟨before, hs, hk, hl'⟩ := hl.exists_before
    have hu := Token.readSpec_read c behind
    rw [hf] at hu
    refine ⟨ts, String.ofList before, c, behind, ?_, ?_, hl, tokens_eq_ok_iff.mpr ⟨k, ?_⟩, hb, hu,
      ?_⟩
    case refine_1 => rw [← String.ofList_append, ← hs, String.ofList_toList]
    case refine_2 => rw [Text.utf8ByteSize_ofList, hk, Nat.zero_add]
    case refine_3 => rwa [String.toList_ofList]
    case refine_4 => rintro numeral rfl; cases hu

theorem tokens_lexemes_conditional :
    (∃ ls, HasLexemes "day ?'a b':-.5"
      [⟨.name "day", 0⟩, ⟨.symbol .question, 4⟩, ⟨.text "a b", 5⟩, ⟨.symbol .colon, 10⟩,
        ⟨.symbol .minus, 11⟩, ⟨.number 0.5, 12⟩] ls) ∧
      ∃ ts before c behind, "tone == \"a" = before ++ String.ofList (c :: behind) ∧
        before.utf8ByteSize = 8 ∧ tokens before = .ok ts ∧ Unreadable c behind .openText := by
  refine ⟨(tokens_lexemes _).1 _ (toOption_eq_some_iff.mp (by decide +kernel)), ?_⟩
  obtain ⟨ts, before, c, behind, hs, hk, -, ht, -, hu, -⟩ :=
    (tokens_lexemes "tone == \"a").2 8 .openText (errorOf?_eq_some_iff.mp (by decide +kernel))
  exact ⟨ts, before, c, behind, hs, hk, ht, hu⟩

end Tiling

end Formula

end Ordo
