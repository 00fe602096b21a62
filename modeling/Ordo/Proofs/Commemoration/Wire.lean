import Ordo.Commemoration.Wire

namespace Ordo

theorem mapM_decode {α β : Type} {encode : α → β} {decode : β → Option α}
    (h : ∀ a, decode (encode a) = some a) (as : List α) :
    (as.map encode).mapM decode = some as := by
  induction as
  case nil => rfl
  case cons a as hi =>
    rw [List.map_cons, List.mapM_cons, h, hi]
    rfl

theorem Json.toTexts?_ofTexts (texts : Dictionary String) :
    (ofTexts texts).toTexts? = some texts := by
  calc (ofTexts texts).toTexts?
    _ = (some texts.entries).map Dictionary.ofList := by
      refine congrArg (Option.map Dictionary.ofList) (mapM_decode (fun _ => ?_) texts.entries)
      rfl
    _ = some texts := congrArg some texts.ofList_entries

namespace Wire

section

variable {α β : Type} {encode : α → Json}

-- A field that may be null is read back if each of its values is.
theorem optional_orNull {decode : Json → Option β} {read : α → Option β}
    (h : ∀ a, optional decode (some (encode a)) = some (read a)) (o : Option α) :
    optional decode (some (orNull encode o)) = some (o.bind read) := by
  cases o
  case none   => rfl
  case some a => exact h a

-- A list that is left out where it is none, so that an empty list stays one.
theorem optional_list {decode : Json → Option α} (h : ∀ a, decode (encode a) = some a)
    (o : Option (List α)) :
    optional (fun j => j.toList?.bind (·.mapM decode)) (o.map fun as => .list (as.map encode)) =
      some o := by
  cases o
  case none => rfl
  case some as =>
    change ((as.map encode).mapM decode).map some = _
    rw [mapM_decode h, Option.map_some]

theorem optional_text (o : Option String) :
    optional Json.toText? (some (orNull .text o)) = some o := by
  rw [optional_orNull fun _ => rfl, Option.bind_fun_some]

theorem optional_texts (o : Option (Dictionary String)) :
    optional Json.toTexts? (some (orNull .ofTexts o)) = some o := by
  have h (texts : Dictionary String) :
      optional Json.toTexts? (some (Json.ofTexts texts)) = some (some texts) :=
    congrArg (·.map some) (Json.toTexts?_ofTexts texts)
  rw [optional_orNull h, Option.bind_fun_some]

end

namespace Value

-- Whether a value has a form of its own.
def isKept : Ordo.Value → Bool
  | .number x => x.isFinite
  | _         => true

theorem optional_encode (v : Ordo.Value) :
    optional decode (some (encode v)) = some (Option.guard isKept v) := by
  cases v
  case truth => rfl
  case text  => rfl
  case number x =>
    rw [encode, Option.guard, isKept]
    split
    case isTrue  => rfl
    case isFalse => rfl

end Value

theorem Reading.decode_encode (r : Ordo.Reading) : decode (encode r) = some r := by
  have hf : fields? ["effWeek", "pericope", "reading", "type"] (encode r) = some [
      some (orNull .text r.week), some (orNull .text r.pericope), some (.text r.citation),
      some (orNull .text r.kind)] :=
    rfl
  rw [decode, hf]
  simp only [Option.bind_eq_bind, Option.bind_some, optional_text, Json.toText?]
  rfl

theorem Office.decode_label (o : Ordo.Office) : decode (.text (label o)) = some o := by
  cases o <;> rfl

theorem Service.decode_encode (s : Ordo.Service) : decode (encode s) = some s := by
  have hf : fields? ["type", "readings"] (encode s) = some [
      some (.text (Office.label s.office)),
      s.readings.map fun rs => .list (rs.map Reading.encode)] := by
    cases hr : s.readings
    all_goals simp [fields?, encode, Json.field?, orAbsent, hr]
  rw [decode, hf]
  simp only [Option.bind_eq_bind, Option.bind_some, Office.decode_label,
    optional_list Reading.decode_encode]
  rfl

namespace Life

-- The life without an attribute that has the name of the text.
def kept (l : Ordo.Life) : Ordo.Life :=
  { l with attributes := l.attributes.erase textField }

theorem decode_encode (l : Ordo.Life) : decode (encode l) = some (kept l) := by
  rw [decode, encode, Json.toTexts?_ofTexts]
  simp only [Option.bind_eq_bind, Option.bind_some, Dictionary.get?_insert, if_pos,
    Dictionary.erase_insert]
  rfl

theorem encode_kept (l : Ordo.Life) : encode (kept l) = encode l := by
  rw [encode, kept, Dictionary.insert_erase]
  rfl

theorem kept_eq_self_iff {l : Ordo.Life} : kept l = l ↔ l.attributes.get? textField = none := by
  rw [← Dictionary.erase_eq_self_iff]
  constructor
  case mp => exact fun h => congrArg (·.attributes) h
  case mpr =>
    intro h
    rw [kept, h]

end Life

theorem Cycle.decode_label (c : Ordo.Cycle) : decode (.text (label c)) = some c := by
  cases c <;> rfl

namespace Commemoration

-- The commemoration without what has no form of its own.
def kept (c : Ordo.Commemoration) : Ordo.Commemoration :=
  { c with
    rank := c.rank.filter Value.isKept
    life := c.life.map Life.kept }

variable (c c' : Ordo.Commemoration)

theorem fields?_encode : fields? fieldNames (encode c) = some [
    some (.text c.cid), some (.text (Cycle.label c.cycle)), some (.text c.menologion),
    some (orNull Value.encode c.rank), some (orNull .ofTexts c.name), some (orNull .ofTexts c.info),
    some (orNull Life.encode c.life), some (orNull .text c.reference),
    c.services.map fun ss => .list (ss.map Service.encode)] := by
  cases hs : c.services
  all_goals simp [fields?, fieldNames, encode, Json.field?, orAbsent, hs]

theorem decode_encode : decode (encode c) = some (kept c) := by
  have hr : optional Value.decode (some (orNull Value.encode c.rank)) = some (kept c).rank := by
    rw [optional_orNull Value.optional_encode, Option.bind_guard]
    rfl
  have hl : optional Life.decode (some (orNull Life.encode c.life)) = some (kept c).life := by
    have h (l : Ordo.Life) :
        optional Life.decode (some (Life.encode l)) = some (some (Life.kept l)) :=
      congrArg (·.map some) (Life.decode_encode l)
    rw [optional_orNull h, kept, Option.map_eq_bind]
    rfl
  rw [decode, fields?_encode]
  simp only [Option.bind_eq_bind, Option.bind_some, Json.toText?, Option.getD_some,
    Cycle.decode_label, hr, hl, optional_text, optional_texts, optional_list Service.decode_encode]
  rfl

theorem encode_kept : encode (kept c) = encode c := by
  have hr : orNull Value.encode (c.rank.filter Value.isKept) = orNull Value.encode c.rank := by
    rcases c.rank with _ | _ | x | _
    case some.number =>
      rw [Option.filter_some, Value.isKept]
      split
      case isTrue    => rfl
      case isFalse h => exact (if_neg h).symm
    all_goals rfl
  have hl : orNull Life.encode (c.life.map Life.kept) = orNull Life.encode c.life := by
    cases c.life
    case none   => rfl
    case some l => exact Life.encode_kept l
  rw [encode, encode, kept, hr, hl]

theorem kept_eq_self_iff : kept c = c ↔
    (∀ x, c.rank = some (.number x) → x.isFinite) ∧
      ∀ l, c.life = some l → l.attributes.get? Life.textField = none := by
  have hr : c.rank.filter Value.isKept = c.rank ↔
      ∀ x, c.rank = some (.number x) → x.isFinite := by
    cases c.rank
    case none => simp
    case some v =>
      rw [Option.filter_eq_some_iff]
      cases v <;> simp [Value.isKept]
  have hl : c.life.map Life.kept = c.life ↔
      ∀ l, c.life = some l → l.attributes.get? Life.textField = none := by
    cases c.life
    case none   => simp
    case some l => simp [Life.kept_eq_self_iff]
  rw [← hr, ← hl]
  constructor
  case mp  => exact fun h => ⟨congrArg (·.rank) h, congrArg (·.life) h⟩
  case mpr =>
    rintro ⟨hr, hl⟩
    rw [kept, hr, hl]

-- A commemoration comes back from its form as far as it is kept. It comes back whole if and only if
-- its rank is not an infinite number or NaN and its life has no attribute with the name of the text.
-- Commemorations that differ in what is kept have different forms.
theorem decode_encode_eq_iff :
    decode (encode c) = some (kept c) ∧
      (decode (encode c) = some c ↔
        (∀ x, c.rank = some (.number x) → x.isFinite) ∧
          ∀ l, c.life = some l → l.attributes.get? Life.textField = none) ∧
      (encode c = encode c' ↔ kept c = kept c') := by
  refine ⟨decode_encode c, ?_, ?_, ?_⟩
  · rw [decode_encode, Option.some.injEq, kept_eq_self_iff]
  · intro h
    have h := congrArg decode h
    rwa [decode_encode, decode_encode, Option.some.injEq] at h
  · intro h
    rw [← encode_kept c, h, encode_kept]

end Commemoration

end Wire

end Ordo
