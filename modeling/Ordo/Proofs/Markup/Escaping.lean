import Mathlib.Data.List.TakeWhile
import Ordo.Markup.Entity
import Ordo.Proofs.Result

namespace Ordo

namespace Text

variable {p : Char → Bool} {c : Char} {cs behind : List Char}

-- A scan goes up to the first character that stops it.
theorem takeWhile_append_cons (h : ∀ c ∈ cs, p c) (hc : ¬p c) :
    (cs ++ c :: behind).takeWhile p = cs := by
  rw [List.takeWhile_append_of_pos h, List.takeWhile_cons_of_neg hc, List.append_nil]

theorem dropWhile_append_cons (h : ∀ c ∈ cs, p c) (hc : ¬p c) :
    (cs ++ c :: behind).dropWhile p = c :: behind := by
  rw [List.dropWhile_append_of_pos h, List.dropWhile_cons_of_neg hc]

end Text

namespace Markup

-- The name of the entity that is written for a character, if it does not stand for itself.
def entityName? (c : Char) : Option (List Char) :=
  match c with
  | '<'  => some ['l', 't']
  | '>'  => some ['g', 't']
  | '&'  => some ['a', 'm', 'p']
  | '\'' => some ['a', 'p', 'o', 's']
  | '"'  => some ['q', 'u', 'o', 't']
  | _    => none

def escapeChar (c : Char) : List Char :=
  match entityName? c with
  | some name => '&' :: (name ++ [';'])
  | none      => [c]

def escape (s : String) : List Char :=
  s.toList.flatMap escapeChar

-- The characters that have a meaning for the reader outside of entities.
def IsMark (c : Char) : Prop :=
  c = '<' ∨ c = '>' ∨ c = '\'' ∨ c = '"'

instance (c : Char) : Decidable (IsMark c) :=
  inferInstanceAs (Decidable (_ ∨ _))

variable {c : Char} {cs plain name : List Char} {s : String} {size : Nat}

theorem not_isMark_of_entityName?_eq_none (h : entityName? c = none) : ¬IsMark c := by
  rintro (rfl | rfl | rfl | rfl)
  all_goals cases h

-- An entity stands for its character again, its name ends before the `;`, and it is no number.
theorem entity_of_entityName? (h : entityName? c = some name) (start stop : Nat) :
    entity start stop name = .ok c ∧ ∀ c ∈ name, ¬endsName c ∧ ¬IsMark c := by
  unfold entityName? at h
  split at h
  all_goals
    cases h
  all_goals exact ⟨rfl, by simp [endsName, IsMark]⟩

theorem not_isMark_of_mem_escapeChar (c : Char) : ∀ c' ∈ escapeChar c, ¬IsMark c' := by
  unfold escapeChar
  split
  case h_1 name h =>
    have hn := (entity_of_entityName? h 0 0).2
    simp only [List.forall_mem_cons, List.forall_mem_append]
    exact ⟨by simp [IsMark], fun c' hc => (hn c' hc).2, by simp [IsMark]⟩
  case h_2 h =>
    rw [List.forall_mem_singleton]
    exact not_isMark_of_entityName?_eq_none h

theorem not_isMark_of_mem_escape (h : c ∈ escape s) : ¬IsMark c := by
  obtain ⟨c', _, h⟩ := List.mem_flatMap.mp h
  exact not_isMark_of_mem_escapeChar c' c h

theorem escape_ne_nil (h : s ≠ "") : escape s ≠ [] := by
  intro hs
  have hs := List.flatMap_eq_nil_iff.mp hs
  obtain ⟨c, cs, hc⟩ := List.exists_cons_of_ne_nil (mt String.toList_eq_nil_iff.mp h)
  have hs := hs c (hc ▸ List.mem_cons_self)
  unfold escapeChar at hs
  split at hs
  all_goals cases hs

theorem unescapeFrom_plain (h : ∀ c ∈ plain, c ≠ '&') : unescapeFrom size plain = .ok plain := by
  have hp : ∀ c ∈ plain, decide (c ≠ '&') := by simpa using h
  rw [unescapeFrom]
  split
  case h_1 => rw [List.takeWhile_eq_self_iff.mpr hp]
  case h_2 hd => cases (List.dropWhile_eq_nil_iff.mpr hp).symm.trans hd

theorem unescapeFrom_entity (h : ∀ c ∈ plain, c ≠ '&') (hn : ∀ c ∈ name, ¬endsName c)
    (hc : ∀ start stop, entity start stop name = .ok c) :
    unescapeFrom size (plain ++ '&' :: (name ++ ';' :: cs)) =
      (unescapeFrom size cs).map (plain ++ c :: ·) := by
  have hp : ∀ c ∈ plain, decide (c ≠ '&') := by simpa using h
  have hn : ∀ c ∈ name, !endsName c := by simpa using hn
  have hd : (plain ++ '&' :: (name ++ ';' :: cs)).dropWhile (· ≠ '&') =
      '&' :: (name ++ ';' :: cs) := Text.dropWhile_append_cons hp (by decide)
  have hd' : (name ++ ';' :: cs).dropWhile (!endsName ·) = ';' :: cs :=
    Text.dropWhile_append_cons hn (by decide)
  rw [unescapeFrom]
  split
  case h_1 h => cases hd.symm.trans h
  case h_2 h =>
    cases hd.symm.trans h
    split
    case h_1 h =>
      cases hd'.symm.trans h
      rw [Text.takeWhile_append_cons hp (by decide), Text.takeWhile_append_cons hn (by decide)]
      simp only [hc]
      cases unescapeFrom size cs <;> rfl
    case h_2 h => exact absurd hd' (h _)

-- The characters before the next entity are collected in `plain`.
theorem unescapeFrom_escaped (cs : List Char) (h : ∀ c ∈ plain, c ≠ '&') :
    unescapeFrom size (plain ++ cs.flatMap escapeChar) = .ok (plain ++ cs) := by
  induction cs generalizing plain
  case nil => exact unescapeFrom_plain (by simpa using h)
  case cons c cs hi =>
    rw [List.flatMap_cons, escapeChar]
    split
    case h_1 name hn =>
      have hc := entity_of_entityName? hn
      have hi : unescapeFrom size (cs.flatMap escapeChar) = .ok cs := @hi [] nofun
      rw [List.cons_append, List.append_assoc, List.singleton_append, unescapeFrom_entity h
        (fun c hm => ((hc 0 0).2 c hm).1) fun start stop => (hc start stop).1, hi]
      rfl
    case h_2 hn =>
      have hc : ∀ c' ∈ plain ++ [c], c' ≠ '&' := by
        rw [List.forall_mem_append, List.forall_mem_singleton]
        refine ⟨h, ?_⟩
        rintro rfl
        cases hn
      rw [← List.append_assoc, hi hc, List.append_assoc, List.singleton_append]

theorem unescape_escape (s : String) : unescape (escape s) = .ok s := by
  refine map_eq_ok_iff.mpr ⟨s.toList, ?_, String.ofList_toList⟩
  exact @unescapeFrom_escaped [] _ s.toList nofun

end Markup

end Ordo
