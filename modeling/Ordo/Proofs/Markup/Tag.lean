import Ordo.Markup.Piece
import Ordo.Proofs.Markup.Escaping

namespace Ordo.Markup

-- The names that are read as they stand, in a tag and as the key of an attribute.
structure IsName (s : String) : Prop where
  nonempty : s ≠ ""
  plain    : ∀ c ∈ s.toList, ¬isSpace c ∧ ¬IsMark c ∧ c ∉ ['/', '=', '&', '!', '?']

instance (s : String) : Decidable (IsName s) :=
  have : Decidable (∀ c ∈ s.toList, ¬isSpace c ∧ ¬IsMark c ∧ c ∉ ['/', '=', '&', '!', '?']) :=
    List.decidableBAll ..
  decidable_of_iff (s ≠ "" ∧ _) ⟨fun h => ⟨h.1, h.2⟩, fun h => ⟨h.1, h.2⟩⟩

def attributeText (e : String × String) : List Char :=
  ' ' :: (e.1.toList ++ '=' :: '"' :: (escape e.2 ++ ['"']))

-- The content of a tag with the attributes in the given order.
def tagText (tag : String) (as : List (String × String)) : List Char :=
  tag.toList ++ as.flatMap attributeText

variable {key tag value : String} {cs : List Char} {as : List (String × String)} {size : Nat}
  {seen : Dictionary Nat} {attributes : Attributes}

theorem IsName.exists_cons (h : IsName key) : ∃ c cs, key.toList = c :: cs :=
  List.exists_cons_of_ne_nil (mt String.toList_eq_nil_iff.mp h.nonempty)

theorem IsName.not_endsKey (h : IsName key) : ∀ c ∈ key.toList, ¬endsKey c := by
  intro c hc
  have h := h.plain c hc
  simp_all [endsKey]

theorem quotedValue_escape (place : List Char → Nat) (value : String) (cs : List Char) :
    ∃ h, quotedValue place ('"' :: (escape value ++ '"' :: cs)) = .ok (escape value, ⟨cs, h⟩) := by
  have hv : ∀ c ∈ escape value, decide (c ≠ '"') := by
    intro c hc
    simpa using fun h => not_isMark_of_mem_escape hc (.inr (.inr (.inr h)))
  have hd : (escape value ++ '"' :: cs).dropWhile (· ≠ '"') = '"' :: cs :=
    Text.dropWhile_append_cons hv (by decide)
  refine ⟨by simp; omega, ?_⟩
  rw [quotedValue, if_pos (.inl rfl)]
  split
  case h_1 h => cases hd.symm.trans h
  case h_2 h =>
    cases hd.symm.trans h
    rw [Text.takeWhile_append_cons hv (by decide)]

-- One attribute is read from its parts: the key `c :: k`, and what is between its quotes.
theorem attributesFrom_of_parts {c : Char} {k behind raw rest : List Char}
    (hc : cs.dropWhile isSpace = c :: (k ++ behind))
    (hk : (k ++ behind).takeWhile (!endsKey ·) = k)
    (hb : ((k ++ behind).dropWhile (!endsKey ·)).dropWhile isSpace = '=' :: raw)
    (hs : seen.get? (String.ofList (c :: k)) = none)
    (hq : ∀ place, ∃ cs h, quotedValue place (raw.dropWhile isSpace) = .ok (cs, ⟨rest, h⟩) ∧
      unescape cs = .ok value)
    (hr : ∀ place, attributesFrom size (seen.insert (String.ofList (c :: k)) place) rest =
      .ok attributes) :
    attributesFrom size seen cs = .ok (attributes.insert (String.ofList (c :: k)) value) := by
  rw [attributesFrom]
  split
  case h_1 h => cases hc.symm.trans h
  case h_2 h =>
    cases hc.symm.trans h
    split
    case h_2 h => exact absurd hb (h _)
    case h_1 h =>
      cases hb.symm.trans h
      obtain ⟨cs', hl, hv, hu⟩ := hq fun rest => size - Text.byteLength rest
      rw [hk]
      simp only [hs]
      refine bind_eq_ok_iff.mpr ⟨_, hv, bind_eq_ok_iff.mpr ⟨value, ?_, ?_⟩⟩
      · exact mapError_eq_ok_iff.mpr hu
      · exact bind_eq_ok_iff.mpr ⟨attributes, hr _, rfl⟩

theorem attributesFrom_attributeText (hk : IsName key) (hs : seen.get? key = none)
    (hr : ∀ place, attributesFrom size (seen.insert key place) cs = .ok attributes) :
    attributesFrom size seen (attributeText (key, value) ++ cs) =
      .ok (attributes.insert key value) := by
  obtain ⟨c, k, hc⟩ := hk.exists_cons
  have hb : ¬isSpace c := (hk.plain c (hc ▸ List.mem_cons_self)).1
  have he : ∀ c ∈ k, !endsKey c := by
    simpa using fun c hm => hk.not_endsKey c (hc ▸ List.mem_cons_of_mem _ hm)
  obtain rfl : String.ofList (c :: k) = key := hc ▸ String.ofList_toList
  let quoted := '"' :: (escape value ++ '"' :: cs)
  have hw : attributeText (String.ofList (c :: k), value) ++ cs =
      ' ' :: c :: (k ++ '=' :: quoted) := by simp [attributeText, quoted]
  have hd : (' ' :: c :: (k ++ '=' :: quoted)).dropWhile isSpace = c :: (k ++ '=' :: quoted) :=
    (List.dropWhile_cons_of_pos (by decide)).trans (List.dropWhile_cons_of_neg hb)
  have ht : (k ++ '=' :: quoted).takeWhile (!endsKey ·) = k :=
    Text.takeWhile_append_cons he (by decide)
  have hd' : ((k ++ '=' :: quoted).dropWhile (!endsKey ·)).dropWhile isSpace = '=' :: quoted := by
    rw [Text.dropWhile_append_cons he (by decide)]
    exact List.dropWhile_cons_of_neg (by decide)
  rw [hw]
  refine attributesFrom_of_parts hd ht hd' hs (fun place => ?_) hr
  obtain ⟨h, hv⟩ := quotedValue_escape place value cs
  exact ⟨_, h, hv, unescape_escape value⟩

-- The attributes before are noted in `seen`.
theorem attributesFrom_flatMap (ha : ∀ e ∈ as, IsName e.1) (hn : (as.map (·.1)).Nodup)
    (hs : ∀ e ∈ as, seen.get? e.1 = none) :
    attributesFrom size seen (as.flatMap attributeText) =
      .ok (as.foldr (fun e d => d.insert e.1 e.2) ∅) := by
  induction as generalizing seen
  case nil =>
    rw [List.flatMap_nil, attributesFrom]
    rfl
  case cons e as hi =>
    obtain ⟨key, value⟩ := e
    simp only [List.forall_mem_cons] at ha hs
    rw [List.map_cons, List.nodup_cons] at hn
    refine attributesFrom_attributeText ha.1 hs.1 fun place => hi ha.2 hn.2 fun e he => ?_
    rw [Dictionary.get?_insert, if_neg, hs.2 e he]
    exact fun hk => hn.1 (List.mem_map.mpr ⟨e, he, hk⟩)

theorem get?_foldr_insert (hn : (as.map (·.1)).Nodup) :
    (as.foldr (fun e (d : Attributes) => d.insert e.1 e.2) ∅).get? key = some value ↔
      (key, value) ∈ as := by
  induction as
  case nil => simp
  case cons e as hi =>
    rw [List.map_cons, List.nodup_cons] at hn
    rw [List.foldr_cons, Dictionary.get?_insert, List.mem_cons, Prod.ext_iff]
    split
    case isTrue h =>
      subst h
      have hm : (e.1, value) ∉ as := fun hm => hn.1 (List.mem_map.mpr ⟨_, hm, rfl⟩)
      simp [hm, eq_comm]
    case isFalse h => simp [h, hi hn.2]

theorem nodup_of_perm (h : as.Perm attributes.entries) : (as.map (·.1)).Nodup := by
  refine (h.map _).nodup_iff.mpr (List.pairwise_map.mpr ?_)
  exact attributes.sorted.imp fun h => String.ne_of_lt h

-- It does not matter in which order the attributes of an element are written.
theorem elementOf_tagText (ht : IsName tag) (ha : ∀ e ∈ as, IsName e.1)
    (h : as.Perm attributes.entries) : elementOf (tagText tag as) = .ok ⟨tag, attributes⟩ := by
  have hp : ∀ c ∈ tag.toList, !isSpace c := by simpa using fun c hc => (ht.plain c hc).1
  have hd : (tagText tag as).dropWhile (!isSpace ·) = as.flatMap attributeText := by
    rw [tagText, List.dropWhile_append_of_pos hp]
    cases as <;> rfl
  have hg : tagOf (tagText tag as) = tag := by
    rw [tagOf, tagText, List.takeWhile_append_of_pos hp]
    cases as <;> simp [attributeText, isSpace]
  have hn := nodup_of_perm h
  have hf : as.foldr (fun e d => d.insert e.1 e.2) ∅ = attributes :=
    Dictionary.eq_of_get?_eq fun key => Option.ext fun value => by
      rw [get?_foldr_insert hn, h.mem_iff, Dictionary.mem_entries_iff]
  refine bind_eq_ok_iff.mpr ⟨attributes, ?_, by rw [hg]; rfl⟩
  rw [hd, attributesFrom_flatMap ha hn (fun _ _ => rfl), hf]

-- The quote that is open behind a character, with `quote` open before it.
def quoteBehind (quote : Option Char) (c : Char) : Option Char :=
  match quote with
  | none   => if c = '"' ∨ c = '\'' then some c else none
  | some q => if c = q then none else some q

theorem openQuote_reverse (cs : List Char) : openQuote cs.reverse = cs.foldl quoteBehind none :=
  List.foldr_reverse

-- Nothing but a mark opens or closes a quote.
theorem foldl_quoteBehind {quote : Option Char} (hq : ∀ q ∈ quote, IsMark q)
    (h : ∀ c ∈ cs, ¬IsMark c) : cs.foldl quoteBehind quote = quote := by
  induction cs
  case nil => rfl
  case cons c cs hi =>
    obtain ⟨hc, h⟩ := List.forall_mem_cons.mp h
    have hb : quoteBehind quote c = quote := by
      cases quote
      case none =>
        refine if_neg fun h => hc ?_
        exact h.elim (fun h => .inr (.inr (.inr h))) (fun h => .inr (.inr (.inl h)))
      case some q =>
        refine if_neg ?_
        rintro rfl
        exact hc (hq c rfl)
    rw [List.foldl_cons, hb, hi h]

theorem foldl_quoteBehind_name (h : IsName key) : key.toList.foldl quoteBehind none = none :=
  foldl_quoteBehind (by simp) fun c hc => (h.plain c hc).2.1

theorem openQuote_tagText (ht : IsName tag) (ha : ∀ e ∈ as, IsName e.1) :
    openQuote (tagText tag as).reverse = none := by
  rw [openQuote_reverse, tagText, List.foldl_append, foldl_quoteBehind_name ht]
  induction as
  case nil => rfl
  case cons e as hi =>
    obtain ⟨he, ha⟩ := List.forall_mem_cons.mp ha
    have hv : (escape e.2).foldl quoteBehind (some '"') = some '"' :=
      foldl_quoteBehind (by simp [IsMark]) fun c hc => not_isMark_of_mem_escape hc
    have hk : (attributeText e).foldl quoteBehind none = none := by
      simp [attributeText, foldl_quoteBehind_name he, hv, quoteBehind]
    rw [List.flatMap_cons, List.foldl_append, hk, hi ha]

theorem not_mem_tagText (ht : IsName tag) (ha : ∀ e ∈ as, IsName e.1) : '>' ∉ tagText tag as := by
  have hn : ∀ {key}, IsName key → '>' ∉ key.toList :=
    fun h hm => (h.plain _ hm).2.1 (.inr (.inl rfl))
  have hv : ∀ value, '>' ∉ escape value := fun _ hm => not_isMark_of_mem_escape hm (.inr (.inl rfl))
  simp only [tagText, List.mem_append, List.mem_flatMap, attributeText]
  rintro (h | ⟨e, he, h⟩)
  case inl => exact hn ht h
  case inr => simp [hn (ha e he), hv] at h

theorem getLast?_tagText (ht : IsName tag) (as : List (String × String)) :
    (tagText tag as).getLast? ≠ some '/' := by
  intro h
  rcases List.eq_nil_or_concat as with rfl | ⟨as, e, rfl⟩
  case inl =>
    rw [tagText, List.flatMap_nil, List.append_nil] at h
    exact (ht.plain _ (List.mem_of_getLast? h)).2.2 (by decide)
  case inr =>
    have he : attributeText e = (' ' :: (e.1.toList ++ '=' :: '"' :: escape e.2)) ++ ['"'] := by
      simp [attributeText]
    rw [tagText, List.concat_eq_append, List.flatMap_append, List.flatMap_singleton, he,
      ← List.append_assoc, ← List.append_assoc, List.getLast?_concat] at h
    cases h

theorem cut?_append {isComplete : List Char → Bool} {before : List Char} (h : '>' ∉ cs)
    (hc : isComplete (cs.reverse ++ before)) (rest : List Char) :
    ∃ hl, cut? isComplete before (cs ++ '>' :: rest) = some (before.reverse ++ cs, ⟨rest, hl⟩) := by
  induction cs generalizing before
  case nil =>
    have hc : (decide ('>' = '>') && isComplete before) = true := by simpa using hc
    rw [List.append_nil]
    exact ⟨by simp, if_pos hc⟩
  case cons c cs hi =>
    rw [List.mem_cons, not_or] at h
    rw [List.reverse_cons, List.append_assoc, List.singleton_append] at hc
    obtain ⟨_, hi⟩ := hi h.2 hc
    have hn : ¬(decide (c = '>') && isComplete before) = true := by simp [Ne.symm h.1]
    refine ⟨by simp; omega, (if_neg hn).trans ((congrArg _ hi).trans ?_)⟩
    rw [List.reverse_cons, List.append_assoc]
    rfl

theorem tagPiece_append (h : '>' ∉ cs) (hq : openQuote cs.reverse = none) (rest : List Char) :
    ∃ hl, tagPiece (cs ++ '>' :: rest) =
      .ok (if cs.getLast? == some '/' then .empty cs.dropLast else .opening cs, ⟨rest, hl⟩) := by
  have hc : openQuote (cs.reverse ++ []) == none := by simp [hq]
  obtain ⟨hl, hc⟩ : ∃ hl, cut? (openQuote · == none) [] (cs ++ '>' :: rest) =
      some (cs, ⟨rest, hl⟩) := cut?_append h hc rest
  refine ⟨hl, ?_⟩
  rw [tagPiece, hc]
  split
  case h_1 h => cases h
  case h_2 h =>
    cases h
    split <;> simp_all

-- The first character of a name tells a tag from other markup.
theorem markup_eq_tagPiece (hc : ∀ c ∈ cs.head?, c ∉ ['/', '!', '?']) (hn : cs ≠ []) :
    markup cs = tagPiece cs := by
  unfold markup
  split
  case h_1 => exact absurd rfl hn
  case h_6 => rfl
  all_goals exact absurd (hc _ rfl) (by simp)

theorem read_eq_tagPiece (ht : IsName tag) (as : List (String × String)) (rest : List Char) :
    Piece.read '<' (tagText tag as ++ rest) = tagPiece (tagText tag as ++ rest) := by
  obtain ⟨c, k, hc⟩ := ht.exists_cons
  have hp := (ht.plain c (hc ▸ List.mem_cons_self)).2.2
  rw [Piece.read, if_pos rfl, tagText, hc]
  refine markup_eq_tagPiece ?_ nofun
  rintro _ ⟨⟩
  simp_all

theorem read_opening (ht : IsName tag) (ha : ∀ e ∈ as, IsName e.1) (rest : List Char) :
    ∃ hl, Piece.read '<' (tagText tag as ++ '>' :: rest) =
      .ok (.opening (tagText tag as), ⟨rest, hl⟩) := by
  obtain ⟨hl, h⟩ := tagPiece_append (not_mem_tagText ht ha) (openQuote_tagText ht ha) rest
  rw [if_neg (by simpa using getLast?_tagText ht as), ← read_eq_tagPiece ht] at h
  exact ⟨hl, h⟩

theorem read_empty (ht : IsName tag) (ha : ∀ e ∈ as, IsName e.1) (rest : List Char) :
    ∃ hl, Piece.read '<' (tagText tag as ++ '/' :: '>' :: rest) =
      .ok (.empty (tagText tag as), ⟨rest, hl⟩) := by
  have hm : '>' ∉ tagText tag as ++ ['/'] := by simpa using not_mem_tagText ht ha
  have hq : openQuote (tagText tag as ++ ['/']).reverse = none := by
    rw [openQuote_reverse, List.foldl_append, ← openQuote_reverse, openQuote_tagText ht ha]
    rfl
  have hr : tagText tag as ++ '/' :: '>' :: rest = tagText tag as ++ ['/'] ++ '>' :: rest := by simp
  obtain ⟨hl, h⟩ := tagPiece_append hm hq rest
  rw [if_pos (by simp), List.dropLast_concat] at h
  rw [read_eq_tagPiece ht, hr]
  exact ⟨hl, h⟩

end Ordo.Markup
