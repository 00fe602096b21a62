import Ordo.Proofs.Markup.Nesting

namespace Ordo.Markup

-- The elements that are open behind a row of events, innermost first, with `opened` open before it.
-- There are none if an event leaves another element than the innermost.
def openBehind? : List String → List Event → Option (List String)
  | opened, []                      => some opened
  | opened, .enter tag _ :: es      => openBehind? (tag :: opened) es
  | opened, .text _ :: es           => openBehind? opened es
  | tag :: opened, .exit tag' :: es => if tag' = tag then openBehind? opened es else none
  | [], .exit _ :: _                => none

def Balanced (es : List Event) : Prop :=
  openBehind? [] es = some []

-- Each text has all characters between two tags, and there are some.
structure SingleTexts (es : List Event) : Prop where
  nonempty : ∀ s, .text s ∈ es → s ≠ ""
  apart    : ∀ s s', ¬[.text s, .text s'] <:+: es

variable {opened : List String} {es : List Event} {e : Event} {s : String}

theorem openBehind?_consText (opened : List String) (s : String) (es : List Event) :
    openBehind? opened (consText s es) = openBehind? opened es := by
  unfold consText
  split
  case isTrue => rfl
  case isFalse =>
    split
    all_goals rfl

theorem openBehind?_exit (opened : List String) (tag : String) (es : List Event) :
    openBehind? (tag :: opened) (.exit tag :: es) = openBehind? opened es :=
  if_pos rfl

theorem singleTexts_nil : SingleTexts [] where
  nonempty _ hs := by cases hs
  apart _ _ hs  := by cases List.infix_nil.mp hs

theorem SingleTexts.cons (h : SingleTexts es) (he : ∀ s, e ≠ .text s) : SingleTexts (e :: es) where
  nonempty s hs := by
    cases hs
    case head    => exact absurd rfl (he s)
    case tail hs => exact h.nonempty s hs
  apart s s' hs := by
    rcases List.infix_cons_iff.mp hs with hs | hs
    case inl => exact he s (List.cons_prefix_cons.mp hs).1.symm
    case inr => exact h.apart s s' hs

theorem SingleTexts.enter (h : SingleTexts es) (tag : String) (attributes : Attributes) :
    SingleTexts (.enter tag attributes :: es) :=
  h.cons fun _ => nofun

theorem SingleTexts.exit (h : SingleTexts es) (tag : String) : SingleTexts (.exit tag :: es) :=
  h.cons fun _ => nofun

theorem SingleTexts.text_cons (h : SingleTexts es) (hn : s ≠ "")
    (he : ∀ s' es', es ≠ .text s' :: es') : SingleTexts (.text s :: es) where
  nonempty s' hs := by
    cases hs
    case head    => exact hn
    case tail hs => exact h.nonempty s' hs
  apart s₁ s₂ hs := by
    rcases List.infix_cons_iff.mp hs with hs | hs
    case inl =>
      obtain ⟨es', rfl⟩ := (List.cons_prefix_cons.mp hs).2
      exact he s₂ es' rfl
    case inr => exact h.apart s₁ s₂ hs

theorem SingleTexts.tail (h : SingleTexts (e :: es)) : SingleTexts es where
  nonempty s hs := h.nonempty s (List.mem_cons_of_mem _ hs)
  apart s s' hs := h.apart s s' (List.infix_cons_iff.mpr (.inr hs))

theorem SingleTexts.consText (h : SingleTexts es) (s : String) : SingleTexts (consText s es) := by
  unfold Markup.consText
  split
  case isTrue => exact h
  case isFalse hs =>
    have hs : s ≠ "" := by simpa using hs
    split
    case h_1 s' es =>
      refine h.tail.text_cons (by simp [hs]) ?_
      rintro s'' es' rfl
      exact h.apart s' s'' ⟨[], es', rfl⟩
    case h_2 he => exact h.text_cons hs he

theorem Cut.openBehind?_of_events {c : Cut} (h : (c.matched opened).events opened = .ok es) :
    openBehind? opened es = some [] :=
  of_events (P := fun opened es => openBehind? opened es = some []) rfl
    (fun s h => (openBehind?_consText _ s _).trans h) (fun _ h => h)
    (fun tag h => (openBehind?_exit _ tag _).trans h) h

theorem Cut.singleTexts_of_events {c : Cut} (h : (c.matched opened).events opened = .ok es) :
    SingleTexts es :=
  of_events (P := fun _ => SingleTexts) singleTexts_nil (fun s h => h.consText s)
    (fun attributes h => h.enter _ attributes) (fun tag h => h.exit tag) h

-- The fault of a closing tag with no element to leave.
def Fault.IsUnopened : Fault → Prop
  | unopened _ => True
  | _          => False

theorem avoids_declared (content : List Char) (part : Part) :
    Avoids Fault.IsUnopened (part.declared content) := by
  cases part
  case comment  => exact avoids_ite (avoids_ok _) (avoids_error not_false)
  case verbatim => exact avoids_ite (avoids_ok _) (avoids_error not_false)
  case doctype =>
    refine avoids_ite (avoids_ite ?_ (avoids_ok _)) (avoids_error not_false)
    exact avoids_error not_false
  all_goals exact avoids_error not_false

theorem avoids_declaration (part : Part) (isComplete : List Char → Bool) (cs : List Char) :
    Avoids Fault.IsUnopened (declaration part isComplete cs) := by
  unfold declaration
  split
  case h_1 => exact avoids_error not_false
  case h_2 => exact avoids_map _ (avoids_declared _ _)

theorem avoids_tagPiece (cs : List Char) : Avoids Fault.IsUnopened (tagPiece cs) := by
  unfold tagPiece
  split
  case h_1 => exact avoids_error not_false
  case h_2 => exact avoids_ite (avoids_ok _) (avoids_ok _)

theorem avoids_markup (cs : List Char) : Avoids Fault.IsUnopened (markup cs) := by
  unfold markup
  split
  case h_1 => exact avoids_ok _
  case h_2 => exact avoids_ok _
  case h_3 => exact avoids_ite (avoids_ok _) (avoids_error not_false)
  case h_4 => exact avoids_error not_false
  case h_5 =>
    refine avoids_ite (avoids_declaration _ _ _) (avoids_ite (avoids_declaration _ _ _) ?_)
    exact avoids_ite (avoids_declaration _ _ _) (avoids_error not_false)
  case h_6 => exact avoids_tagPiece _

theorem Piece.avoids_read (c : Char) (cs : List Char) :
    Avoids Fault.IsUnopened (Piece.read c cs) :=
  avoids_ite (avoids_markup cs) (avoids_ok _)

theorem avoids_close (content : List Char) (named : List String) :
    Avoids Fault.IsUnopened (close content named) := by
  cases named
  case nil  => exact avoids_error not_false
  case cons => exact avoids_ite (avoids_ok _) (avoids_error not_false)

-- The fault that a cut document ends with, if it does not end with the document.
def Cut.fault? : Cut → Option Fault
  | done             => none
  | stuck m          => some m.fault
  | piece _ _ behind => behind.fault?

theorem Cut.not_isUnopened_of {cs : List Char} {f : Fault} (h : (Cut.of cs).fault? = some f) :
    ¬f.IsUnopened := by
  induction cs using Cut.of.induct
  case case1 =>
    rw [Cut.of] at h
    cases h
  case case2 c behind f' hf =>
    rw [Cut.of, hf] at h
    cases h
    exact Piece.avoids_read c behind _ hf
  case case3 c behind p rest hr hp hi =>
    rw [Cut.of, hp] at h
    exact hi h

-- The names that the closing tags are held against run out first, since they are those of the
-- elements that are open.
theorem Cut.avoids_events {c : Cut} (hc : ∀ f, c.fault? = some f → ¬f.IsUnopened)
    (opened : List String) :
    Avoids (·.fault.IsUnopened) ((c.matched opened).events opened) := by
  induction c generalizing opened
  case done =>
    cases opened
    case nil  => exact avoids_ok _
    case cons => exact avoids_error not_false
  case stuck m => exact avoids_error (hc _ rfl)
  case piece p here behind hi =>
    have hi := hi hc
    cases p
    case text content =>
      refine avoids_bind (avoids_mapError_of_forall fun _ => not_false) fun s _ => ?_
      exact avoids_bind (hi opened) fun _ _ => avoids_ok _
    case verbatim content => exact avoids_bind (hi opened) fun _ _ => avoids_ok _
    case opening content =>
      refine avoids_bind (avoids_mapError_of_forall fun _ => not_false) fun e he => ?_
      rw [tag_of_elementOf (mapError_eq_ok_iff.mp he)]
      exact avoids_bind (hi _) fun _ _ => avoids_ok _
    case empty content =>
      refine avoids_bind (avoids_mapError_of_forall fun _ => not_false) fun e _ => ?_
      exact avoids_bind (hi opened) fun _ _ => avoids_ok _
    case closing content =>
      rw [matched]
      split
      case h_1 f hf => exact avoids_error (avoids_close content opened f hf)
      case h_2 tag named hn =>
        cases name_of_close hn
        exact avoids_bind (hi named) fun _ _ => avoids_ok _
    case dropped => exact hi opened

theorem avoids_read (source : String) : Avoids (·.fault.IsUnopened) (read source) :=
  avoids_mapError (fun _ => id) (Cut.avoids_events (fun _ => Cut.not_isUnopened_of) [])

theorem read_nested (source : String) :
    (∀ es, read source = .ok es → Balanced es ∧ SingleTexts es) ∧
      ∀ position tag, read source ≠ .error ⟨position, .unopened tag⟩ := by
  refine ⟨fun es h => ⟨?_, ?_⟩, fun position tag h => ?_⟩
  case refine_1 => exact Cut.openBehind?_of_events (mapError_eq_ok_iff.mp h)
  case refine_2 => exact Cut.singleTexts_of_events (mapError_eq_ok_iff.mp h)
  case refine_3 => exact avoids_read source _ h trivial

def mixed : String :=
  "1<A>2<![CDATA[<]]><!--3-->4<B/></A >"

theorem read_nested_mixed :
    ∃ es, read mixed = .ok es ∧
      es = [.text "1", .enter "A" ∅, .text "2<4", .enter "B" ∅, .exit "B", .exit "A"] ∧
      Balanced es ∧ SingleTexts es := by
  refine ⟨_, ?_, rfl, ?_⟩
  · exact toOption_eq_some_iff.mp (by decide +kernel)
  · exact (read_nested mixed).1 _ (toOption_eq_some_iff.mp (by decide +kernel))

-- Without the names there would be a closing tag with no element to leave.
example : (Cut.of ['<', '/', 'A', '>']).events [] =
    .error ⟨.unopened "A", ['<', '/', 'A', '>']⟩ := by
  cbv

end Ordo.Markup
