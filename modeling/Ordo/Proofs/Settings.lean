import Ordo.Proofs.Archive.Lookup
import Ordo.Proofs.Formula.Spelling
import Ordo.Proofs.Result
import Ordo.Proofs.Text.Trimming
import Ordo.Settings

namespace Ordo

open Journal (Level)

namespace Language

variable {c : Char} {tag : String}

theorem isBlank_of_isTagChar (h : isTagChar c) : Text.isBlank c = false := by
  simp only [isTagChar, Bool.or_eq_true, decide_eq_true_eq] at h
  rcases h with (h | rfl) | rfl
  case inl.inl =>
    rcases Bool.or_eq_true_iff.mp h with h | h
    case inl =>
      have hb := Formula.bounds_of_isAlpha h
      exact Formula.isBlank_eq_false (by omega) (by omega)
    case inr =>
      have hb := Formula.bounds_of_isDigit h
      exact Formula.isBlank_eq_false (by omega) (by omega)
  case inl.inr => rfl
  case inr     => rfl

theorem isBlank_of_mem (h : isTag tag) (hc : c ∈ tag.toList) : Text.isBlank c = false := by
  by_cases hs : c = '/'
  case pos =>
    rw [hs]
    rfl
  case neg =>
    obtain ⟨piece, hp, hc⟩ := Text.exists_mem_splitList hc hs
    have h := Bool.and_eq_true_iff.mp (List.all_eq_true.mp h piece hp)
    exact isBlank_of_isTagChar (List.all_eq_true.mp h.2 c hc)

theorem trim_of_isTag (h : isTag tag) : Text.trim tag = tag :=
  Text.trim_eq_self fun _ => isBlank_of_mem h

theorem isAllBlank_of_isTag (h : isTag tag) : Text.isAllBlank tag = false := by
  cases hc : tag.toList
  case nil =>
    cases String.toList_eq_nil_iff.mp hc
    cases h
  case cons c cs =>
    have hb := isBlank_of_mem h (hc ▸ List.mem_cons_self)
    rw [Text.isAllBlank, hc, List.all_cons, hb]
    rfl

end Language

theorem Library.ofTag_of_isTag (a : Archive) {tag : String} (h : Language.isTag tag) :
    ∃ l, ofTag a tag = .ok l ∧ l.language = tag := by
  have ht := Language.trimSlashes_of_isTag h
  refine ⟨⟨a, Text.segments tag⟩, ofTag_eq_ok_iff.mpr ⟨.inr (by rwa [ht]), by rw [ht]⟩, ?_⟩
  exact Text.intercalate_segments (Language.not_mem_of_isTag h)

namespace Journal.Level

theorem isAllBlank_name (l : Level) : Text.isAllBlank l.name = false := by
  cases l <;> decide +kernel

theorem ofName?_name (l : Level) : ofName? l.name = some l := by
  cases l <;> decide +kernel

end Journal.Level

namespace Settings

variable {lookup : String → Option String} {s : Settings} {name value root : String}
  {level : Level} {e : SettingsError}

-- A variable without a value, or with one that is blank.
def Unset (lookup : String → Option String) (name : String) : Prop :=
  ∀ value, lookup name = some value → Text.isAllBlank value

-- The language that is asked for.
def tagOf (lookup : String → Option String) : String :=
  Text.trimSlashes (Text.trim ((nonBlank lookup languageName).getD standardLanguage))

-- What settings that were loaded can be used for.
structure IsAccepted (s : Settings) : Prop where
  root     : Text.isAllBlank s.root = false
  language : Language.isTag s.language
  library  : ∀ a : Archive, ∃ l, Library.ofTag a s.language = .ok l ∧ l.language = s.language
  level    : Level.ofName? s.level.name = some s.level

structure IsGivenBy (s : Settings) (lookup : String → Option String) : Prop where
  root     : lookup rootName = some s.root
  language : lookup languageName = some s.language
  level    : lookup levelName = some s.level.name

-- Why settings are not loaded: each reason counts only where those before it do not.
inductive IsRefused (lookup : String → Option String) : SettingsError → Prop
  | missing (hr : Unset lookup rootName) : IsRefused lookup (.missing rootName rootHint)
  | invalidLanguage (hr : ¬Unset lookup rootName) (ht : ¬Language.isTag (tagOf lookup)) :
    IsRefused lookup (.invalidLanguage (tagOf lookup))
  | invalidLevel {name : String} (hr : ¬Unset lookup rootName) (ht : Language.isTag (tagOf lookup))
    (hn : nonBlank lookup levelName = some name) (hl : Level.ofName? name = none) :
    IsRefused lookup (.invalidLevel name)

theorem nonBlank_eq_some_iff :
    nonBlank lookup name = some value ↔ lookup name = some value ∧ Text.isAllBlank value = false := by
  simp [nonBlank, Option.filter_eq_some_iff]

theorem nonBlank_eq_none_iff : nonBlank lookup name = none ↔ Unset lookup name := by
  simp [nonBlank, Option.filter_eq_none_iff, Unset]

theorem not_unset_iff : ¬Unset lookup name ↔ ∃ value, nonBlank lookup name = some value := by
  rw [← nonBlank_eq_none_iff]
  exact Option.ne_none_iff_exists'

theorem ofLookup_of_missing (hr : nonBlank lookup rootName = none) :
    ofLookup lookup = .error (.missing rootName rootHint) := by
  rw [ofLookup, hr]
  rfl

theorem ofLookup_of_invalidLanguage (hr : nonBlank lookup rootName = some root)
    (ht : ¬Language.isTag (tagOf lookup)) :
    ofLookup lookup = .error (.invalidLanguage (tagOf lookup)) := by
  rw [tagOf] at ht ⊢
  simp only [ofLookup, hr, if_neg ht]
  rfl

theorem ofLookup_of_standardLevel (hr : nonBlank lookup rootName = some root)
    (ht : Language.isTag (tagOf lookup)) (hl : nonBlank lookup levelName = none) :
    ofLookup lookup = .ok ⟨Text.trim root, tagOf lookup, .standard⟩ := by
  rw [tagOf] at ht ⊢
  simp only [ofLookup, hr, if_pos ht, hl]
  rfl

theorem ofLookup_of_level (hr : nonBlank lookup rootName = some root)
    (ht : Language.isTag (tagOf lookup)) (hn : nonBlank lookup levelName = some name)
    (hl : Level.ofName? name = some level) :
    ofLookup lookup = .ok ⟨Text.trim root, tagOf lookup, level⟩ := by
  rw [tagOf] at ht ⊢
  simp only [ofLookup, hr, if_pos ht, hn, hl]
  rfl

theorem ofLookup_of_invalidLevel (hr : nonBlank lookup rootName = some root)
    (ht : Language.isTag (tagOf lookup)) (hn : nonBlank lookup levelName = some name)
    (hl : Level.ofName? name = none) :
    ofLookup lookup = .error (.invalidLevel name) := by
  rw [tagOf] at ht
  simp only [ofLookup, hr, if_pos ht, hn, hl]
  rfl

-- Settings are loaded or refused, and those that are loaded have a level, asked for or not.
theorem ofLookup_cases (lookup : String → Option String) :
    (∃ e, ofLookup lookup = .error e ∧ IsRefused lookup e) ∨
      ∃ root level, nonBlank lookup rootName = some root ∧ Language.isTag (tagOf lookup) ∧
        ofLookup lookup = .ok ⟨Text.trim root, tagOf lookup, level⟩ := by
  cases hr : nonBlank lookup rootName
  case none =>
    exact .inl ⟨_, ofLookup_of_missing hr, .missing (nonBlank_eq_none_iff.mp hr)⟩
  case some root =>
    have hu : ¬Unset lookup rootName := not_unset_iff.mpr ⟨root, hr⟩
    by_cases ht : Language.isTag (tagOf lookup)
    case neg => exact .inl ⟨_, ofLookup_of_invalidLanguage hr ht, .invalidLanguage hu ht⟩
    case pos =>
      cases hn : nonBlank lookup levelName
      case none => exact .inr ⟨root, .standard, rfl, ht, ofLookup_of_standardLevel hr ht hn⟩
      case some name =>
        cases hl : Level.ofName? name
        case none => exact .inl ⟨_, ofLookup_of_invalidLevel hr ht hn hl, .invalidLevel hu ht hn hl⟩
        case some level => exact .inr ⟨root, level, rfl, ht, ofLookup_of_level hr ht hn hl⟩

theorem ofLookup_eq_error_iff : ofLookup lookup = .error e ↔ IsRefused lookup e := by
  constructor
  case mp =>
    intro h
    rcases ofLookup_cases lookup with ⟨e', he, hr⟩ | ⟨root, level, -, -, he⟩
    all_goals
      rw [he] at h
      cases h
    exact hr
  case mpr =>
    intro h
    cases h
    case missing hr => exact ofLookup_of_missing (nonBlank_eq_none_iff.mpr hr)
    case invalidLanguage hr ht =>
      obtain ⟨root, hr⟩ := not_unset_iff.mp hr
      exact ofLookup_of_invalidLanguage hr ht
    case invalidLevel hr ht hn hl =>
      obtain ⟨root, hr⟩ := not_unset_iff.mp hr
      exact ofLookup_of_invalidLevel hr ht hn hl

theorem isAccepted_of_ofLookup (h : ofLookup lookup = .ok s) : s.IsAccepted := by
  rcases ofLookup_cases lookup with ⟨e, he, -⟩ | ⟨root, level, hr, ht, he⟩
  all_goals
    rw [he] at h
    cases h
  exact {
    root     := (Text.isAllBlank_trim root).trans (nonBlank_eq_some_iff.mp hr).2
    language := ht
    library  := fun a => Library.ofTag_of_isTag a ht
    level    := Level.ofName?_name level
  }

-- What loading takes from the variables is not changed by loading it again.
theorem ofLookup_of_isGivenBy {lookup' : String → Option String} (h : ofLookup lookup = .ok s)
    (hg : s.IsGivenBy lookup') : ofLookup lookup' = .ok s := by
  rcases ofLookup_cases lookup with ⟨e, he, -⟩ | ⟨root, level, hr, ht, he⟩
  all_goals
    rw [he] at h
    cases h
  have hr' : nonBlank lookup' rootName = some (Text.trim root) :=
    nonBlank_eq_some_iff.mpr
      ⟨hg.root, (Text.isAllBlank_trim root).trans (nonBlank_eq_some_iff.mp hr).2⟩
  have hl' : nonBlank lookup' levelName = some level.name :=
    nonBlank_eq_some_iff.mpr ⟨hg.level, level.isAllBlank_name⟩
  have ht' : tagOf lookup' = tagOf lookup := by
    have hn : nonBlank lookup' languageName = some (tagOf lookup) :=
      nonBlank_eq_some_iff.mpr ⟨hg.language, Language.isAllBlank_of_isTag ht⟩
    rw [tagOf, hn, Option.getD_some, Language.trim_of_isTag ht, Language.trimSlashes_of_isTag ht]
  have ht'' : Language.isTag (tagOf lookup') := (congrArg Language.isTag ht').trans ht
  rw [ofLookup_of_level hr' ht'' hl' level.ofName?_name, Text.trim_trim, ht']

-- Settings that were loaded are a fixed point of loading, and an archive is seen in their language.
-- Settings that cannot be loaded are refused for the first reason that there is.
theorem ofLookup_settled (lookup : String → Option String) :
    (∀ s, ofLookup lookup = .ok s →
      s.IsAccepted ∧ ∀ lookup', s.IsGivenBy lookup' → ofLookup lookup' = .ok s) ∧
    ∀ e, ofLookup lookup = .error e ↔ IsRefused lookup e :=
  ⟨fun _ h => ⟨isAccepted_of_ofLookup h, fun _ => ofLookup_of_isGivenBy h⟩,
    fun _ => ofLookup_eq_error_iff⟩

-- Values with much around them.
def padded (language : String) : String → Option String
  | "TYPIKON_CONTENT_ROOT" => some " /srv/ordo\n"
  | "TYPIKON_LANG"         => some language
  | "TYPIKON_LOG_LEVEL"    => some "Warning "
  | _                      => none

-- Blanks around the slashes do not count, but those between them do.
theorem ofLookup_settled_padded :
    ofLookup (padded " //cu/ru/") = .ok ⟨"/srv/ordo", "cu/ru", .warn⟩ ∧
      IsAccepted ⟨"/srv/ordo", "cu/ru", .warn⟩ ∧
      (∀ lookup', IsGivenBy ⟨"/srv/ordo", "cu/ru", .warn⟩ lookup' →
        ofLookup lookup' = .ok ⟨"/srv/ordo", "cu/ru", .warn⟩) ∧
      IsRefused (padded "/ en /") (.invalidLanguage " en ") := by
  have h : ofLookup (padded " //cu/ru/") = .ok ⟨"/srv/ordo", "cu/ru", .warn⟩ :=
    toOption_eq_some_iff.mp (by decide +kernel)
  have he : ofLookup (padded "/ en /") = .error (.invalidLanguage " en ") :=
    errorOf?_eq_some_iff.mp (by decide +kernel)
  obtain ⟨hs, -⟩ := ofLookup_settled (padded " //cu/ru/")
  obtain ⟨-, hr⟩ := ofLookup_settled (padded "/ en /")
  exact ⟨h, (hs _ h).1, (hs _ h).2, (hr _).mp he⟩

end Settings

end Ordo
