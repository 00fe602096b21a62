import Ordo.Proofs.Markup.Nesting
import Ordo.Proofs.Markup.Tag

namespace Ordo.Markup

namespace Forest

def BeginsWithElement : Forest → Prop
  | element .. => True
  | _          => False

def BeginsWithText : Forest → Prop
  | text .. => True
  | _       => False

-- A forest that can be told from what is written for it: texts side by side would be read as one.
def Writable : Forest → Prop
  | nil => True
  | element tag attributes content behind =>
    IsName tag ∧ (∀ e ∈ attributes.entries, IsName e.1) ∧ content.Writable ∧ behind.Writable
  | text s behind => s ≠ "" ∧ ¬behind.BeginsWithText ∧ behind.Writable

instance : (t : Forest) → Decidable t.BeginsWithText
  | text .. => inferInstanceAs (Decidable True)
  | nil | element .. => inferInstanceAs (Decidable False)

instance decidableWritable : (t : Forest) → Decidable t.Writable
  | nil => inferInstanceAs (Decidable True)
  | element _ _ content behind =>
    have := decidableWritable content
    have := decidableWritable behind
    inferInstanceAs (Decidable (_ ∧ _ ∧ _ ∧ _))
  | text _ behind =>
    have := decidableWritable behind
    inferInstanceAs (Decidable (_ ∧ _ ∧ _))

-- The characters that may be written for a forest. Attributes are put in any order, and an element
-- without content may be written as one tag.
inductive Written : Forest → List Char → Prop
  | nil : Written nil []
  | text {s behind cs} : Written behind cs → Written (text s behind) (escape s ++ cs)
  | element {tag attributes as content behind cs cs'} :
    as.Perm attributes.entries → Written content cs → Written behind cs' →
    Written (element tag attributes content behind)
      ('<' :: (tagText tag as ++ '>' :: (cs ++ '<' :: '/' :: (tag.toList ++ '>' :: cs'))))
  | empty {tag attributes as behind cs} :
    as.Perm attributes.entries → Written behind cs →
    Written (element tag attributes nil behind) ('<' :: (tagText tag as ++ '/' :: '>' :: cs))

theorem exists_written (t : Forest) : ∃ cs, Written t cs := by
  induction t
  case nil => exact ⟨_, .nil⟩
  case text s behind hb =>
    obtain ⟨cs, h⟩ := hb
    exact ⟨_, .text h⟩
  case element tag attributes content behind hc hb =>
    obtain ⟨cs, h⟩ := hc
    obtain ⟨cs', h'⟩ := hb
    exact ⟨_, .element (.refl _) h h'⟩

end Forest

-- What is read from `cs` on inside of the `opened` elements.
def Reads (opened : List String) (cs : List Char) (es : List Event) : Prop :=
  ((Cut.of cs).matched opened).events opened = .ok es

variable {opened : List String} {cs rest : List Char} {es : List Event} {s tag : String}
  {as : List (String × String)} {attributes : Attributes} {t : Forest}

theorem Cut.of_cons {c : Char} {p : Piece} (h : ∃ hl, Piece.read c cs = .ok (p, ⟨rest, hl⟩)) :
    Cut.of (c :: cs) = .piece p (c :: cs) (.of rest) := by
  obtain ⟨hl, h⟩ := h
  rw [Cut.of, h]

theorem closingName_eq (ht : IsName tag) : closingName tag.toList = tag := by
  have hd : tag.toList.reverse.dropWhile isSpace = tag.toList.reverse := by
    refine List.dropWhile_eq_self_iff.mpr fun h => ?_
    exact (ht.plain _ (List.mem_reverse.mp (List.getElem_mem h))).1
  have hn : ¬tag.toList.isEmpty := by simpa using ht.nonempty
  rw [closingName, hd, List.reverse_reverse]
  simp only [if_neg hn, String.ofList_toList]

theorem reads_nil : Reads [] [] [] := by
  rw [Reads, Cut.of]
  rfl

theorem Reads.opening (ht : IsName tag) (ha : ∀ e ∈ attributes.entries, IsName e.1)
    (hp : as.Perm attributes.entries) (h : Reads (tag :: opened) cs es) :
    Reads opened ('<' :: (tagText tag as ++ '>' :: cs)) (.enter tag attributes :: es) := by
  have ha : ∀ e ∈ as, IsName e.1 := fun e he => ha e (hp.mem_iff.mp he)
  have he := elementOf_tagText ht ha hp
  rw [Reads, Cut.of_cons (read_opening ht ha cs)]
  refine bind_eq_ok_iff.mpr ⟨_, mapError_eq_ok_iff.mpr he, bind_eq_ok_iff.mpr ⟨es, ?_, rfl⟩⟩
  rwa [← tag_of_elementOf he]

theorem Reads.empty (ht : IsName tag) (ha : ∀ e ∈ attributes.entries, IsName e.1)
    (hp : as.Perm attributes.entries) (h : Reads opened cs es) :
    Reads opened ('<' :: (tagText tag as ++ '/' :: '>' :: cs))
      (.enter tag attributes :: .exit tag :: es) := by
  have ha : ∀ e ∈ as, IsName e.1 := fun e he => ha e (hp.mem_iff.mp he)
  have he := elementOf_tagText ht ha hp
  rw [Reads, Cut.of_cons (read_empty ht ha cs)]
  exact bind_eq_ok_iff.mpr ⟨_, mapError_eq_ok_iff.mpr he, bind_eq_ok_iff.mpr ⟨es, h, rfl⟩⟩

theorem read_closing (ht : IsName tag) (rest : List Char) :
    ∃ hl, Piece.read '<' ('/' :: (tag.toList ++ '>' :: rest)) =
      .ok (.closing tag.toList, ⟨rest, hl⟩) := by
  have hp : ∀ c ∈ tag.toList, decide (c ≠ '>') := by
    simpa using fun c hc h => (ht.plain c hc).2.1 (.inr (.inl h))
  have hn : ¬decide ('>' ≠ '>') := by decide
  refine ⟨by simp; omega, ?_⟩
  simp only [Piece.read, if_true, markup, upToBracket, Text.takeWhile_append_cons hp hn,
    Text.dropWhile_append_cons hp hn, List.drop_one, List.tail_cons]

theorem Reads.closing (ht : IsName tag) (h : Reads opened cs es) :
    Reads (tag :: opened) ('<' :: '/' :: (tag.toList ++ '>' :: cs)) (.exit tag :: es) := by
  have hc : close tag.toList (tag :: opened) = .ok (tag, opened) := if_pos (closingName_eq ht)
  rw [Reads, Cut.of_cons (read_closing ht cs), Cut.matched, hc]
  refine bind_eq_ok_iff.mpr ⟨es, h, ?_⟩
  rw [String.ofList_toList]
  rfl

theorem read_text {c : Char} (hc : c ≠ '<') (hs : ∀ c ∈ cs, c ≠ '<')
    (hr : ∀ c ∈ rest.head?, c = '<') :
    ∃ hl, Piece.read c (cs ++ rest) = .ok (.text (c :: cs), ⟨rest, hl⟩) := by
  have hs : ∀ c ∈ cs, decide (c ≠ '<') := by simpa using hs
  refine ⟨by simp, ?_⟩
  simp only [Piece.read, if_neg hc, List.takeWhile_append_of_pos hs,
    List.dropWhile_append_of_pos hs]
  cases rest
  case nil => simp
  case cons c' rest =>
    obtain rfl := hr c' rfl
    simp

theorem consText_eq_cons (hs : s ≠ "") (he : ∀ s' es', es ≠ .text s' :: es') :
    consText s es = .text s :: es := by
  unfold consText
  rw [if_neg (by simpa using hs)]
  split
  case h_1 => exact absurd rfl (he _ _)
  case h_2 => rfl

theorem Reads.text (hs : s ≠ "") (hc : ∀ c ∈ cs.head?, c = '<')
    (he : ∀ s' es', es ≠ .text s' :: es') (h : Reads opened cs es) :
    Reads opened (escape s ++ cs) (.text s :: es) := by
  obtain ⟨c, k, hk⟩ := List.exists_cons_of_ne_nil (escape_ne_nil hs)
  have hp : ∀ c ∈ escape s, c ≠ '<' := fun c hm h => not_isMark_of_mem_escape hm (.inl h)
  have hu := unescape_escape s
  rw [hk] at hp hu ⊢
  rw [List.forall_mem_cons] at hp
  rw [Reads, List.cons_append, Cut.of_cons (read_text hp.1 hp.2 hc)]
  refine bind_eq_ok_iff.mpr ⟨s, mapError_eq_ok_iff.mpr hu, bind_eq_ok_iff.mpr ⟨es, h, ?_⟩⟩
  rw [consText_eq_cons hs he]
  rfl

theorem Forest.Written.head? (h : Written t cs) (ht : ¬t.BeginsWithText)
    (hr : ∀ c ∈ rest.head?, c = '<') : ∀ c ∈ (cs ++ rest).head?, c = '<' := by
  cases h
  case nil     => exact hr
  case text    => exact absurd trivial ht
  case element => simp
  case empty   => simp

theorem Forest.events_ne_text (ht : ¬t.BeginsWithText) (he : ∀ s es', es ≠ .text s :: es') :
    ∀ s es', t.events ++ es ≠ .text s :: es' := by
  cases t
  case nil     => exact he
  case text    => exact absurd trivial ht
  case element => simp [events]

-- A forest is read in front of what is no text, which would become a part of its last text.
theorem Reads.forest (h : t.Written cs) (ht : t.Writable) (hc : ∀ c ∈ rest.head?, c = '<')
    (he : ∀ s es', es ≠ .text s :: es') (hr : Reads opened rest es) :
    Reads opened (cs ++ rest) (t.events ++ es) := by
  induction h generalizing opened rest es
  case nil => exact hr
  case text s behind cs h hb =>
    obtain ⟨hs, hn, ht⟩ := ht
    rw [List.append_assoc, Forest.events, List.cons_append]
    exact (hb ht hc he hr).text hs (h.head? hn hc) (Forest.events_ne_text hn he)
  case element tag attributes as content behind cs cs' hp _ _ hi hb =>
    obtain ⟨hn, ha, ht, ht'⟩ := ht
    have hr := (hb ht' hc he hr).closing hn
    have hr := (hi ht (by simp) (by simp) hr).opening hn ha hp
    simpa [Forest.events] using hr
  case empty tag attributes as behind cs hp _ hb =>
    obtain ⟨hn, ha, _, ht⟩ := ht
    have hr := (hb ht hc he hr).empty hn ha hp
    simpa [Forest.events] using hr

-- Reading undoes writing.
theorem read_written (h : t.Writable) (he : t.BeginsWithElement) :
    (∃ cs, t.Written cs) ∧ ∀ cs, t.Written cs → read (String.ofList cs) = .ok t.events := by
  refine ⟨t.exists_written, fun cs hw => mapError_eq_ok_iff.mpr ?_⟩
  have hm : withoutMark cs = cs := by
    cases hw
    case nil     => exact he.elim
    case text    => exact he.elim
    case element => rfl
    case empty   => rfl
  have hr := Reads.forest hw h (by simp) (by simp) reads_nil
  rw [List.append_nil, List.append_nil] at hr
  rwa [String.toList_ofList, hm]

-- All kinds of characters, and attributes in another order than that of their keys.
def scripture : Forest :=
  .element "SCRIPTURE" ⟨[("EffWeek", ""), ("Reading", "Мк 1<\"'>\r\n")], by decide +kernel⟩
    (.text "a & b\r\n" (.element "BR" ∅ .nil (.element "BR" ∅ .nil (.text "&lt;" .nil)))) .nil

theorem read_written_scripture :
    read ("<SCRIPTURE Reading=\"Мк 1&lt;&quot;&apos;&gt;\r\n\" EffWeek=\"\">" ++
      "a &amp; b\r\n<BR/><BR></BR>&amp;lt;</SCRIPTURE>") = .ok scripture.events := by
  have hw : scripture.Written _ :=
    .element (.swap _ _ []) (.text (.empty .nil (.element .nil .nil (.text .nil)))) .nil
  have hn : scripture.Writable := by decide +kernel
  refine (congrArg read ?_).trans ((read_written hn trivial).2 _ hw)
  decide +kernel

end Ordo.Markup
