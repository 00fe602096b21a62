import Ordo.FileTree

namespace Ordo

namespace FileTree

-- A name of an entry. The two names of folders on the way are none.
def IsPlain (name : String) : Prop :=
  name ≠ "." ∧ name ≠ ".."

instance (name : String) : Decidable (IsPlain name) :=
  inferInstanceAs (Decidable (_ ∧ _))

-- Names of entries that are not too long.
structure AreNames (names : List String) : Prop where
  plain : ∀ name ∈ names, IsPlain name
  size  : ∀ name ∈ names, name.utf8ByteSize ≤ maxName

-- What is under a name, and an empty folder if there is nothing.
def inside (name : String) : FileTree → FileTree
  | folder entries => (child? name entries).getD empty
  | file _         => empty

def entriesOf : FileTree → List (String × FileTree)
  | folder entries => entries
  | file _         => []

variable {t here up : FileTree} {above : List FileTree} {name : String}
  {names more p q : List String} {entries : List (String × FileTree)} {content : ByteArray}

theorem AreNames.of_subset (h : AreNames names) (hs : more ⊆ names) : AreNames more :=
  ⟨fun name hm => h.plain name (hs hm), fun name hm => h.size name (hs hm)⟩

theorem AreNames.not_mem (h : AreNames names) : ".." ∉ names :=
  fun hm => (h.plain _ hm).2 rfl

theorem areNames_cons_iff :
    AreNames (name :: names) ↔ (IsPlain name ∧ name.utf8ByteSize ≤ maxName) ∧ AreNames names := by
  constructor
  case mp =>
    rintro ⟨hp, hs⟩
    rw [List.forall_mem_cons] at hp hs
    exact ⟨⟨hp.1, hs.1⟩, hp.2, hs.2⟩
  case mpr =>
    rintro ⟨⟨hp, hs⟩, h⟩
    exact ⟨List.forall_mem_cons.mpr ⟨hp, h.plain⟩, List.forall_mem_cons.mpr ⟨hs, h.size⟩⟩

theorem dot_or_up_or_isPlain (name : String) : name = "." ∨ name = ".." ∨ IsPlain name := by
  by_cases hd : name = "."
  case pos => exact .inl hd
  case neg =>
    by_cases hu : name = ".."
    case pos => exact .inr (.inl hu)
    case neg => exact .inr (.inr ⟨hd, hu⟩)

-- Induction on names by where each of them leads.
@[elab_as_elim]
theorem names_induction {motive : List String → Prop} (nil : motive [])
    (dot : ∀ names, motive names → motive ("." :: names))
    (up : ∀ names, motive names → motive (".." :: names))
    (plain : ∀ name names, IsPlain name → motive names → motive (name :: names))
    (names : List String) : motive names := by
  induction names
  case nil => exact nil
  case cons name names hi =>
    rcases dot_or_up_or_isPlain name with rfl | rfl | hp
    case inl     => exact dot names hi
    case inr.inl => exact up names hi
    case inr.inr => exact plain name names hp hi

theorem walk_folder (hp : IsPlain name) (hs : name.utf8ByteSize ≤ maxName) :
    walk above (folder entries) (name :: names) =
      match child? name entries with
      | some t => walk (folder entries :: above) t names
      | none   => .missing := by
  rw [walk.eq_def]
  exact (if_neg hp.1).trans ((if_neg hp.2).trans (if_neg (Nat.not_lt.mpr hs)))

theorem walk_too_long (hp : IsPlain name) (hs : ¬name.utf8ByteSize ≤ maxName) :
    walk above here (name :: names) = .obstructed := by
  cases here
  case file => rfl
  case folder =>
    rw [walk.eq_def]
    exact (if_neg hp.1).trans ((if_neg hp.2).trans (if_pos (Nat.not_le.mp hs)))

theorem walk_dot :
    walk above (folder entries) ("." :: names) = walk above (folder entries) names := by
  rw [walk.eq_def]
  exact if_pos rfl

theorem walk_up :
    walk (up :: above) (folder entries) (".." :: names) = walk above up names := by
  rw [walk.eq_def]
  exact if_neg (by decide)

theorem walk_up_nil :
    walk [] (folder entries) (".." :: names) = walk [] (folder entries) names := by
  rw [walk.eq_def]
  exact if_neg (by decide)

-- The folders above do not matter as long as no name goes up to them.
theorem walk_above (h : ".." ∉ names) (above above' : List FileTree) :
    walk above here names = walk above' here names := by
  induction names generalizing here above above'
  case nil => rfl
  case cons name names hi =>
    obtain ⟨hu, hn⟩ := List.ne_and_not_mem_of_not_mem_cons h
    cases here
    case file => rfl
    case folder =>
      by_cases hd : name = "."
      case pos =>
        subst hd
        rw [walk_dot, walk_dot]
        exact hi hn _ _
      case neg =>
        have hp : IsPlain name := ⟨hd, hu.symm⟩
        by_cases hs : name.utf8ByteSize ≤ maxName
        case neg => rw [walk_too_long hp hs, walk_too_long hp hs]
        case pos =>
          rw [walk_folder hp hs, walk_folder hp hs]
          split
          case h_1 => exact hi hn _ _
          case h_2 => rfl

theorem areNames_of_walk (h : ∀ name ∈ names, IsPlain name)
    (hw : walk above here names = .found t) : AreNames names := by
  induction names generalizing here above
  case nil => exact ⟨nofun, nofun⟩
  case cons name names hi =>
    obtain ⟨hp, h⟩ := List.forall_mem_cons.mp h
    by_cases hs : name.utf8ByteSize ≤ maxName
    case neg => cases (walk_too_long hp hs).symm.trans hw
    case pos =>
      cases here
      case file => cases hw
      case folder =>
        rw [walk_folder hp hs] at hw
        split at hw
        case h_1 => exact areNames_cons_iff.mpr ⟨⟨hp, hs⟩, hi h hw⟩
        case h_2 => cases hw

-- From what is found, the way goes on as from any other folder.
theorem exists_walk_append (hw : walk above here names = .found t) :
    ∃ above', ∀ more, walk above here (names ++ more) = walk above' t more := by
  induction names generalizing here above
  case nil =>
    cases hw
    exact ⟨above, fun _ => rfl⟩
  case cons name names hi =>
    cases here
    case file => cases hw
    case folder entries =>
      rcases dot_or_up_or_isPlain name with rfl | rfl | hp
      case inl =>
        rw [walk_dot] at hw
        obtain ⟨above', h⟩ := hi hw
        exact ⟨above', fun more => walk_dot.trans (h more)⟩
      case inr.inl =>
        cases above
        case nil =>
          rw [walk_up_nil] at hw
          obtain ⟨above', h⟩ := hi hw
          exact ⟨above', fun more => walk_up_nil.trans (h more)⟩
        case cons =>
          rw [walk_up] at hw
          obtain ⟨above', h⟩ := hi hw
          exact ⟨above', fun more => walk_up.trans (h more)⟩
      case inr.inr =>
        by_cases hs : name.utf8ByteSize ≤ maxName
        case neg => cases (walk_too_long hp hs).symm.trans hw
        case pos =>
          rw [walk_folder hp hs] at hw
          simp only [List.cons_append, walk_folder hp hs]
          cases hc : child? name entries
          case none   =>
            rw [hc] at hw
            cases hw
          case some t =>
            rw [hc] at hw
            exact hi hw

-- The way to what is found may go up and down; from there on it does not go up again.
theorem walk_append (hm : ".." ∉ more) (hw : walk above here names = .found t) :
    walk above here (names ++ more) = walk [] t more := by
  obtain ⟨above', h⟩ := exists_walk_append hw
  exact (h more).trans (walk_above hm above' [])

-- Dots lead nowhere else.
theorem walk_filter (h : ".." ∉ names) (hw : walk above here names = .found t) :
    walk above here (names.filter (· ≠ ".")) = .found t := by
  induction names generalizing here above
  case nil => exact hw
  case cons name names hi =>
    obtain ⟨hu, hn⟩ := List.ne_and_not_mem_of_not_mem_cons h
    cases here
    case file => cases hw
    case folder entries =>
      by_cases hd : name = "."
      case pos =>
        subst hd
        rw [walk_dot] at hw
        rw [List.filter_cons_of_neg (by simp)]
        exact hi hn hw
      case neg =>
        have hp : IsPlain name := ⟨hd, hu.symm⟩
        rw [List.filter_cons_of_pos (by simpa using hd)]
        by_cases hs : name.utf8ByteSize ≤ maxName
        case neg => cases (walk_too_long hp hs).symm.trans hw
        case pos =>
          rw [walk_folder hp hs] at hw ⊢
          split at hw
          case h_1 => exact hi hn hw
          case h_2 => cases hw

theorem walk_cons (h : AreNames (name :: names)) :
    walk above (folder entries) (name :: names) =
      match child? name entries with
      | some t => walk [] t names
      | none   => .missing := by
  obtain ⟨⟨hp, hs⟩, h⟩ := areNames_cons_iff.mp h
  rw [walk_folder hp hs]
  split
  case h_1 => exact walk_above h.not_mem _ _
  case h_2 => rfl

theorem walk_empty (h : AreNames names) (hn : names ≠ []) : walk above empty names = .missing := by
  cases names
  case nil  => contradiction
  case cons => exact walk_cons h

theorem walk_inside (h : AreNames (name :: names)) (hn : names ≠ []) :
    walk [] (folder entries) (name :: names) = walk [] (inside name (folder entries)) names := by
  rw [walk_cons h, inside]
  cases child? name entries
  case none => exact (walk_empty (areNames_cons_iff.mp h).2 hn).symm
  case some => rfl

-- A file that is found inside is there, since no empty folder has any.
theorem walk_of_inside (h : AreNames (name :: names))
    (hw : walk [] (inside name (folder entries)) names = .found (file content)) :
    walk [] (folder entries) (name :: names) = .found (file content) := by
  rw [walk_cons h]
  rw [inside] at hw
  cases hc : child? name entries
  case some =>
    rw [hc] at hw
    exact hw
  case none =>
    rw [hc, Option.getD_none] at hw
    cases names
    case nil  => cases hw
    case cons => cases (walk_empty (areNames_cons_iff.mp h).2 nofun).symm.trans hw

theorem child?_replaceEntry (name name' : String) (t : FileTree)
    (entries : List (String × FileTree)) :
    child? name' (replaceEntry name t entries) =
      if name' = name then some t else child? name' entries := by
  by_cases h : name' = name
  case pos => simp [child?, replaceEntry, h]
  case neg =>
    have hn : (name == name') = false := by simpa using Ne.symm h
    rw [if_neg h, child?, replaceEntry, List.find?_cons, hn]
    simp only [List.find?_filter, child?]
    congr 2
    funext e
    by_cases he : e.1 = name'
    case pos => simp [he, h]
    case neg => simp [he]

theorem insertAt_cons : insertAt t (name :: names) here =
    folder (replaceEntry name (insertAt t names (inside name here)) (entriesOf here)) := by
  cases here <;> rfl

theorem inside_insertAt :
    inside name (insertAt t (name :: names) here) = insertAt t names (inside name here) := by
  rw [insertAt_cons, inside, child?_replaceEntry, if_pos rfl]
  rfl

-- What is written at `p` is found there, and so is what is below it.
theorem walk_insertAt_append (hp : AreNames p) (hm : AreNames more) (t here : FileTree) :
    walk [] (insertAt t p here) (p ++ more) = walk [] t more := by
  induction p generalizing here
  case nil => rfl
  case cons name p hi =>
    have h : AreNames (name :: (p ++ more)) :=
      ⟨fun n hn => (List.mem_append.mp hn).elim (hp.plain n) (hm.plain n),
        fun n hn => (List.mem_append.mp hn).elim (hp.size n) (hm.size n)⟩
    rw [insertAt_cons, List.cons_append, walk_cons h, child?_replaceEntry, if_pos rfl]
    exact hi (areNames_cons_iff.mp hp).2 _

-- There are folders on the way to what is written.
theorem exists_walk_insertAt (hp : AreNames (p ++ name :: more)) (t here : FileTree) :
    ∃ entries, walk [] (insertAt t (p ++ name :: more) here) p = .found (folder entries) := by
  induction p generalizing here
  case nil => exact ⟨_, by rw [List.nil_append, insertAt_cons]; rfl⟩
  case cons name' p hi =>
    have h : AreNames (name' :: p) := hp.of_subset (List.subset_append_left _ _)
    obtain ⟨entries, he⟩ := hi (areNames_cons_iff.mp hp).2 (inside name' here)
    refine ⟨entries, ?_⟩
    rw [List.cons_append, insertAt_cons, walk_cons h, child?_replaceEntry, if_pos rfl]
    exact he

-- What is neither on the way to what is written nor below it stays, as long as no file has to give
-- way to a folder.
theorem walk_insertAt_of_apart (hp : AreNames p) (hq : AreNames q) (h : ¬p <+: q) (h' : ¬q <+: p)
    (hf : ∀ r content, r <+: p → r ≠ p → walk [] here r ≠ .found (file content)) (t : FileTree) :
    walk [] (insertAt t p here) q = walk [] here q := by
  induction p generalizing here q
  case nil => exact absurd List.nil_prefix h
  case cons name p hi =>
    cases q
    case nil => exact absurd List.nil_prefix h'
    case cons name' q =>
      cases here
      case file content => exact absurd rfl (hf [] content List.nil_prefix nofun)
      case folder entries =>
        by_cases he : name' = name
        case neg =>
          rw [insertAt_cons, walk_cons hq, walk_cons hq, child?_replaceEntry, if_neg he]
          rfl
        case pos =>
          subst he
          rw [List.cons_prefix_cons, and_iff_right rfl] at h h'
          have hn : q ≠ [] := by
            rintro rfl
            exact h' List.nil_prefix
          have hf (r : List String) (content : ByteArray) (hr : r <+: p) (hne : r ≠ p)
              (hw : walk [] (inside name' (folder entries)) r = .found (file content)) : False := by
            have hr : name' :: r <+: name' :: p := List.cons_prefix_cons.mpr ⟨rfl, hr⟩
            exact hf (name' :: r) content hr (fun he => hne (List.cons.inj he).2)
              (walk_of_inside (hp.of_subset hr.subset) hw)
          calc walk [] (insertAt t (name' :: p) (folder entries)) (name' :: q)
            _ = walk [] (insertAt t p (inside name' (folder entries))) q := by
              rw [insertAt_cons, walk_inside hq hn, ← insertAt_cons, inside_insertAt]
            _ = walk [] (inside name' (folder entries)) q :=
              hi (areNames_cons_iff.mp hp).2 (areNames_cons_iff.mp hq).2 h h' hf
            _ = walk [] (folder entries) (name' :: q) := (walk_inside hq hn).symm

end FileTree

end Ordo
