namespace Ordo

-- Puts `v` under `k` into a list of entries that is sorted by name.
def insertSorted {α : Type} (k : String) (v : α) : List (String × α) → List (String × α)
  | [] => [(k, v)]
  | e :: es =>
    if k < e.1 then (k, v) :: e :: es
    else if k = e.1 then (k, v) :: es
    else e :: insertSorted k v es

theorem mem_insertSorted {α : Type} {k : String} {v : α} {es : List (String × α)} {e : String × α}
    (h : e ∈ insertSorted k v es) : e.1 = k ∨ e ∈ es := by
  induction es with
  | nil => simp_all [insertSorted]
  | cons f fs ih =>
    rw [insertSorted] at h
    split at h
    case isTrue =>
      rcases List.mem_cons.mp h with rfl | h
      · exact .inl rfl
      · exact .inr h
    case isFalse =>
      split at h
      case isTrue =>
        rcases List.mem_cons.mp h with rfl | h
        · exact .inl rfl
        · exact .inr (List.mem_cons_of_mem _ h)
      case isFalse =>
        rcases List.mem_cons.mp h with rfl | h
        · exact .inr List.mem_cons_self
        · exact (ih h).imp_right (List.mem_cons_of_mem _)

theorem pairwise_insertSorted {α : Type} (k : String) (v : α) {es : List (String × α)}
    (h : es.Pairwise (·.1 < ·.1)) : (insertSorted k v es).Pairwise (·.1 < ·.1) := by
  induction es with
  | nil => simp [insertSorted]
  | cons e es ih =>
    have ⟨he, hes⟩ := List.pairwise_cons.mp h
    rw [insertSorted]
    split
    case isTrue hk =>
      refine List.pairwise_cons.mpr ⟨fun f hf => ?_, h⟩
      rcases List.mem_cons.mp hf with rfl | hf
      · exact hk
      · exact String.lt_trans hk (he f hf)
    case isFalse hk =>
      split
      case isTrue hke => exact List.pairwise_cons.mpr ⟨fun f hf => hke ▸ he f hf, hes⟩
      case isFalse hke =>
        refine List.pairwise_cons.mpr ⟨fun f hf => ?_, ih hes⟩
        rcases mem_insertSorted hf with hf | hf
        · exact hf ▸ (Std.lt_of_le_of_ne (Std.not_lt.mp hk) (Ne.symm hke))
        · exact he f hf

theorem find?_insertSorted {α : Type} (k k' : String) (v : α) (es : List (String × α)) :
    (insertSorted k v es).find? (·.1 == k') =
      if k' = k then some (k, v) else es.find? (·.1 == k') := by
  induction es with
  | nil => grind [insertSorted]
  | cons e es ih => grind [insertSorted]

theorem eq_of_mem_iff_of_sorted {α : Type} {es fs : List (String × α)}
    (he : es.Pairwise (·.1 < ·.1)) (hf : fs.Pairwise (·.1 < ·.1)) (h : ∀ e, e ∈ es ↔ e ∈ fs) :
    es = fs := by
  induction es generalizing fs with
  | nil =>
    cases fs with
    | nil => rfl
    | cons f fs => exact absurd ((h f).mpr List.mem_cons_self) List.not_mem_nil
  | cons e es ih =>
    cases fs with
    | nil => exact absurd ((h e).mp List.mem_cons_self) List.not_mem_nil
    | cons f fs =>
      have ⟨he, hes⟩ := List.pairwise_cons.mp he
      have ⟨hf, hfs⟩ := List.pairwise_cons.mp hf
      have hef : e = f := by
        rcases List.mem_cons.mp ((h e).mp List.mem_cons_self) with hef | hef
        · exact hef
        rcases List.mem_cons.mp ((h f).mpr List.mem_cons_self) with hfe | hfe
        · exact hfe.symm
        · exact absurd (String.lt_trans (he f hfe) (hf e hef)) (String.lt_irrefl _)
      subst hef
      congr 1
      refine ih hes hfs fun g => ?_
      have hg := h g
      simp only [List.mem_cons] at hg
      have hne : g ∈ es ∨ g ∈ fs → g ≠ e := by
        rintro (m | m) rfl
        · exact String.lt_irrefl _ (he _ m)
        · exact String.lt_irrefl _ (hf _ m)
      exact ⟨fun m => (hg.mp (.inr m)).resolve_left (hne (.inl m)),
        fun m => (hg.mpr (.inr m)).resolve_left (hne (.inr m))⟩

-- The entries are sorted by name, so two maps with the same values under the same names are equal.
structure Dictionary (α : Type) where
  entries : List (String × α)
  sorted  : entries.Pairwise (·.1 < ·.1)
deriving DecidableEq

namespace Dictionary

variable {α : Type}

def empty : Dictionary α := ⟨[], .nil⟩

instance : EmptyCollection (Dictionary α) := ⟨empty⟩

instance : Inhabited (Dictionary α) := ⟨empty⟩

def get? (d : Dictionary α) (k : String) : Option α :=
  (d.entries.find? (·.1 == k)).map (·.2)

def contains (d : Dictionary α) (k : String) : Bool :=
  (d.get? k).isSome

-- Puts `v` under `k`, in place of what was there.
def insert (d : Dictionary α) (k : String) (v : α) : Dictionary α where
  entries := insertSorted k v d.entries
  sorted  := pairwise_insertSorted k v d.sorted

def erase (d : Dictionary α) (k : String) : Dictionary α where
  entries := d.entries.filter (·.1 != k)
  sorted  := d.sorted.filter _

-- The entries of both maps; a name in both has its value of `layer`.
def overlay (d layer : Dictionary α) : Dictionary α :=
  layer.entries.foldl (fun d e => d.insert e.1 e.2) d

-- The last value under each name.
def ofList (es : List (String × α)) : Dictionary α :=
  es.foldl (fun d e => d.insert e.1 e.2) ∅

def size (d : Dictionary α) : Nat :=
  d.entries.length

def isEmpty (d : Dictionary α) : Bool :=
  d.entries.isEmpty

@[simp]
theorem get?_empty (k : String) : (∅ : Dictionary α).get? k = none := rfl

theorem get?_insert (d : Dictionary α) (k k' : String) (v : α) :
    (d.insert k v).get? k' = if k' = k then some v else d.get? k' := by
  simp only [get?, insert, find?_insertSorted]
  split <;> rfl

theorem get?_erase (d : Dictionary α) (k k' : String) :
    (d.erase k).get? k' = if k' = k then none else d.get? k' := by
  simp only [get?, erase, List.find?_filter]
  by_cases h : k' = k
  case pos => simp [h]
  case neg =>
    rw [if_neg h]
    congr 2
    funext e
    by_cases he : e.1 = k' <;> simp_all

theorem get?_overlay (d layer : Dictionary α) (k : String) :
    (d.overlay layer).get? k = (layer.get? k).or (d.get? k) := by
  obtain ⟨es, hes⟩ := layer
  simp only [overlay]
  induction es generalizing d with
  | nil => simp [get?]
  | cons e es ih =>
    have ⟨he, hes⟩ := List.pairwise_cons.mp hes
    rw [List.foldl_cons, ih _ hes, get?_insert]
    by_cases h : k = e.1
    case pos =>
      subst h
      have : es.find? (·.1 == e.1) = none := by
        rw [List.find?_eq_none]
        intro f hf hfe
        have := he f hf
        rw [beq_iff_eq.mp hfe] at this
        exact String.lt_irrefl _ this
      simp [get?, this]
    case neg =>
      have : (e.1 == k) = false := by simpa using Ne.symm h
      simp [get?, h, this]

theorem mem_entries_iff {d : Dictionary α} {k : String} {v : α} :
    (k, v) ∈ d.entries ↔ d.get? k = some v := by
  obtain ⟨es, hes⟩ := d
  simp only [get?]
  induction es with
  | nil => simp
  | cons e es ih =>
    have ⟨he, hes⟩ := List.pairwise_cons.mp hes
    by_cases h : e.1 = k
    case pos =>
      have : (k, v) ∉ es := fun m => String.lt_irrefl _ (h ▸ he _ m)
      simp [h, this, Prod.ext_iff, eq_comm]
    case neg =>
      have : (e.1 == k) = false := by simpa using h
      simp [this, ← ih hes, Prod.ext_iff, Ne.symm h]

-- Maps with the same value under each name are equal.
theorem eq_of_get?_eq {d d' : Dictionary α} (h : ∀ k, d.get? k = d'.get? k) : d = d' := by
  have := eq_of_mem_iff_of_sorted d.sorted d'.sorted fun (k, v) => by
    rw [mem_entries_iff, mem_entries_iff, h]
  cases d
  cases d'
  congr

theorem ofList_entries (d : Dictionary α) : ofList d.entries = d := by
  refine eq_of_get?_eq fun k => ?_
  calc (overlay ∅ d).get? k
    _ = (d.get? k).or none := get?_overlay ∅ d k
    _ = d.get? k := Option.or_none

theorem erase_insert (d : Dictionary α) (k : String) (v : α) :
    (d.insert k v).erase k = d.erase k := by
  refine eq_of_get?_eq fun k' => ?_
  simp only [get?_erase, get?_insert]
  split <;> rfl

theorem insert_erase (d : Dictionary α) (k : String) (v : α) :
    (d.erase k).insert k v = d.insert k v := by
  refine eq_of_get?_eq fun k' => ?_
  simp only [get?_insert, get?_erase]
  split <;> rfl

theorem erase_eq_self_iff {d : Dictionary α} {k : String} : d.erase k = d ↔ d.get? k = none := by
  constructor
  case mp =>
    intro h
    rw [← h, get?_erase, if_pos rfl]
  case mpr =>
    intro h
    refine eq_of_get?_eq fun k' => ?_
    rw [get?_erase]
    split
    case isTrue hk => rw [hk, h]
    case isFalse => rfl

end Dictionary

end Ordo
