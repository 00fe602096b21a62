import Ordo.Journal

namespace Ordo

variable {ε ε' α β : Type}

theorem bind_eq_ok_iff {x : Except ε α} {f : α → Except ε β} {b : β} :
    x >>= f = .ok b ↔ ∃ a, x = .ok a ∧ f a = .ok b := by
  cases x
  case error => simp [bind, Except.bind]
  case ok    => simp [bind, Except.bind]

theorem bind_eq_error_iff {x : Except ε α} {f : α → Except ε β} {e : ε} :
    x >>= f = .error e ↔ x = .error e ∨ ∃ a, x = .ok a ∧ f a = .error e := by
  cases x
  case error => simp [bind, Except.bind]
  case ok    => simp [bind, Except.bind]

-- A condition in front of what follows it.
theorem guard_bind_eq_ok_iff {p : Prop} [Decidable p] {e : ε} {x : Except ε β}
    {f : α → Except ε β} {b : β} : (if p then x else throw e >>= f) = .ok b ↔ p ∧ x = .ok b := by
  split
  case isTrue hp  => simp [hp]
  case isFalse hp => simp [hp, throw, throwThe, MonadExceptOf.throw, bind, Except.bind]

theorem guard_eq_ok_iff {p : Prop} [Decidable p] {e : ε} {x : Except ε α} {a : α} :
    (if p then x else throw e) = .ok a ↔ p ∧ x = .ok a := by
  split
  case isTrue hp  => simp [hp]
  case isFalse hp => simp [hp, throw, throwThe, MonadExceptOf.throw]

theorem map_eq_ok_iff {x : Except ε α} {f : α → β} {b : β} :
    x.map f = .ok b ↔ ∃ a, x = .ok a ∧ f a = b := by
  cases x <;> simp [Except.map]

theorem mapError_eq_ok_iff {x : Except ε α} {f : ε → ε'} {a : α} :
    x.mapError f = .ok a ↔ x = .ok a := by
  cases x
  all_goals
    constructor
    all_goals
      intro h
      cases h
  all_goals rfl

theorem mapError_eq_error_iff {x : Except ε α} {f : ε → ε'} {e' : ε'} :
    x.mapError f = .error e' ↔ ∃ e, x = .error e ∧ f e = e' := by
  cases x
  case error e =>
    refine ⟨fun h => ⟨e, rfl, Except.error.inj h⟩, fun h => ?_⟩
    obtain ⟨_, ⟨⟩, rfl⟩ := h
    rfl
  case ok =>
    constructor
    all_goals
      intro h
    case mp  => cases h
    case mpr =>
      obtain ⟨_, ⟨⟩, _⟩ := h

theorem toOption_eq_some_iff {x : Except ε α} {a : α} : x.toOption = some a ↔ x = .ok a := by
  cases x <;> simp [Except.toOption]

-- What went wrong, if anything did.
def errorOf? : Except ε α → Option ε
  | .error e => some e
  | .ok _    => none

theorem errorOf?_eq_some_iff {x : Except ε α} {e : ε} : errorOf? x = some e ↔ x = .error e := by
  cases x <;> simp [errorOf?]

theorem errorOf?_eq_none_iff {x : Except ε α} : errorOf? x = none ↔ ∃ a, x = .ok a := by
  cases x <;> simp [errorOf?]

theorem Logged.bind_eq_ok_iff {x : Logged ε α} {f : α → Logged ε β} {b : β} :
    (x >>= f).result = .ok b ↔ ∃ a, x.result = .ok a ∧ (f a).result = .ok b := by
  rw [result_bind, Ordo.bind_eq_ok_iff]

-- The search ends with the first element that has the property, so a failure behind that element
-- does not count.
theorem anyM_eq_true_iff {p : α → Except ε Bool} {as : List α} {found : Bool}
    (h : as.anyM p = .ok found) : found = true ↔ ∃ a ∈ as, p a = .ok true := by
  induction as
  case nil =>
    cases h
    simp
  case cons a as hi =>
    obtain ⟨r, ha, h⟩ := bind_eq_ok_iff.mp h
    cases r
    case true =>
      cases h
      simp [ha]
    case false =>
      rw [hi h]
      simp [ha]

-- The first element to which the property gives another answer than `false` ends the search.
theorem anyM_eq_iff {p : α → Except ε Bool} {as : List α} {r : Except ε Bool} (hr : r ≠ .ok false) :
    as.anyM p = r ↔
      ∃ before a after, as = before ++ a :: after ∧ (∀ d ∈ before, p d = .ok false) ∧ p a = r := by
  induction as
  case nil =>
    refine iff_of_false (Ne.symm hr) ?_
    rintro ⟨before, a, after, h, -⟩
    simp at h
  case cons a as hi =>
    rw [List.anyM]
    constructor
    case mp =>
      intro h
      rcases ha : p a with _ | _ | _
      case error =>
        rw [ha] at h
        exact ⟨[], a, as, rfl, List.forall_mem_nil _, ha.trans h⟩
      case ok.true =>
        rw [ha] at h
        exact ⟨[], a, as, rfl, List.forall_mem_nil _, ha.trans h⟩
      case ok.false =>
        rw [ha] at h
        obtain ⟨before, a', after, rfl, hb, ha'⟩ := hi.mp h
        exact ⟨a :: before, a', after, rfl, List.forall_mem_cons.mpr ⟨ha, hb⟩, ha'⟩
    case mpr =>
      rintro ⟨_ | ⟨d, before⟩, a', after, h, hb, ha⟩
      case nil =>
        cases h
        rw [ha]
        rcases r with _ | _ | _
        case ok.false => exact absurd rfl hr
        all_goals rfl
      case cons =>
        cases h
        rw [List.forall_mem_cons] at hb
        rw [hb.1]
        exact hi.mpr ⟨before, a', after, rfl, hb.2, ha⟩

theorem anyM_eq_false_iff {p : α → Except ε Bool} {as : List α} :
    as.anyM p = .ok false ↔ ∀ a ∈ as, p a = .ok false := by
  induction as
  case nil => exact iff_of_true rfl (List.forall_mem_nil _)
  case cons a as hi =>
    rw [List.anyM, List.forall_mem_cons, ← hi]
    rcases p a with _ | _ | _
    all_goals simp [bind, Except.bind, pure, Except.pure]

-- A search among some elements passes over the other ones.
theorem anyM_filter {p : α → Except ε Bool} {keep : α → Bool} {as : List α} :
    (as.filter keep).anyM p = as.anyM fun a => if keep a then p a else .ok false := by
  induction as
  case nil => rfl
  case cons a as hi =>
    rw [List.anyM, ← hi]
    cases hk : keep a
    case true =>
      rw [List.filter_cons_of_pos hk, List.anyM]
      rfl
    case false =>
      rw [List.filter_cons_of_neg (by simp [hk])]
      rfl

-- The search finds an answer if the property has one for each element.
theorem anyM_eq_ok {p : α → Except ε Bool} {as : List α} (h : ∀ a ∈ as, ∃ r, p a = .ok r) :
    ∃ found, as.anyM p = .ok found := by
  induction as
  case nil => exact ⟨false, rfl⟩
  case cons a as hi =>
    obtain ⟨r, hr⟩ := h a List.mem_cons_self
    rw [List.anyM, hr]
    cases r
    case true  => exact ⟨true, rfl⟩
    case false => exact hi fun a ha => h a (List.mem_cons_of_mem _ ha)

theorem mapM_cons_eq_ok_iff {f : α → Except ε β} {a : α} {as : List α} {bs : List β} :
    (a :: as).mapM f = .ok bs ↔ ∃ b bs', f a = .ok b ∧ as.mapM f = .ok bs' ∧ b :: bs' = bs := by
  rw [List.mapM_cons]
  constructor
  case mp =>
    intro h
    obtain ⟨b, ha, h⟩ := bind_eq_ok_iff.mp h
    obtain ⟨bs', has, h⟩ := bind_eq_ok_iff.mp h
    cases h
    exact ⟨b, bs', ha, has, rfl⟩
  case mpr =>
    rintro ⟨b, bs', ha, has, rfl⟩
    exact bind_eq_ok_iff.mpr ⟨b, ha, bind_eq_ok_iff.mpr ⟨bs', has, rfl⟩⟩

-- The first failure ends the computations.
theorem errorOf?_mapM {f : α → Except ε β} {as : List α} :
    errorOf? (as.mapM f) = as.findSome? fun a => errorOf? (f a) := by
  induction as
  case nil => rfl
  case cons a as hi =>
    rw [List.mapM_cons, List.findSome?_cons]
    cases f a
    case error => rfl
    case ok =>
      rw [← hi]
      cases as.mapM f
      case error => rfl
      case ok    => rfl

theorem exists_of_mem_mapM {f : α → Except ε β} {as : List α} {bs : List β} {b : β}
    (h : as.mapM f = .ok bs) (hb : b ∈ bs) : ∃ a ∈ as, f a = .ok b := by
  induction as generalizing bs
  case nil =>
    cases h
    cases hb
  case cons a as hi =>
    obtain ⟨b', bs', ha, has, rfl⟩ := mapM_cons_eq_ok_iff.mp h
    cases hb
    case head => exact ⟨a, List.mem_cons_self, ha⟩
    case tail hb =>
      obtain ⟨a', ha', hf⟩ := hi has hb
      exact ⟨a', List.mem_cons_of_mem _ ha', hf⟩

theorem exists_mapM_eq_ok_iff {f : α → Except ε β} {as : List α} :
    (∃ bs, as.mapM f = .ok bs) ↔ ∀ a ∈ as, ∃ b, f a = .ok b := by
  induction as
  case nil => exact iff_of_true ⟨[], rfl⟩ nofun
  case cons a as hi =>
    rw [List.forall_mem_cons, ← hi]
    constructor
    case mp =>
      rintro ⟨_, h⟩
      obtain ⟨b, bs, ha, has, -⟩ := mapM_cons_eq_ok_iff.mp h
      exact ⟨⟨b, ha⟩, bs, has⟩
    case mpr =>
      rintro ⟨⟨b, ha⟩, bs, has⟩
      exact ⟨b :: bs, mapM_cons_eq_ok_iff.mpr ⟨b, bs, ha, has, rfl⟩⟩

theorem Logged.result_mapM {f : α → Logged ε β} {as : List α} :
    (as.mapM f).result = as.mapM fun a => (f a).result := by
  induction as
  case nil => rfl
  case cons a as hi =>
    rw [List.mapM_cons, List.mapM_cons, result_bind]
    simp only [result_bind, result_pure, hi]
    rfl

-- What follows on a computation matters only where the computation succeeds.
theorem bind_congr_of_ok {x : Except ε α} {f g : α → Except ε β} (h : ∀ a, x = .ok a → f a = g a) :
    x >>= f = x >>= g := by
  cases x
  case error => rfl
  case ok a  => exact h a rfl

theorem mapM_congr_of_mem {f g : α → Except ε β} {as : List α} (h : ∀ a ∈ as, f a = g a) :
    as.mapM f = as.mapM g := by
  induction as
  case nil => rfl
  case cons a as hi =>
    rw [List.mapM_cons, List.mapM_cons, h a List.mem_cons_self,
      hi fun a ha => h a (List.mem_cons_of_mem _ ha)]

theorem map_eq_of_mapM {γ : Type} {f : α → Except ε β} {g : β → γ} {g' : α → γ} {as : List α}
    {bs : List β} (hf : ∀ a b, f a = .ok b → g b = g' a) (h : as.mapM f = .ok bs) :
    bs.map g = as.map g' := by
  induction as generalizing bs
  case nil =>
    cases h
    rfl
  case cons a as hi =>
    obtain ⟨b, bs', ha, has, rfl⟩ := mapM_cons_eq_ok_iff.mp h
    rw [List.map_cons, List.map_cons, hf a b ha, hi has]

-- Each element has a result of its own, whatever stands beside it.
theorem exists_map_of_mapM [Inhabited β] {f : α → Except ε β} {as : List α} {bs : List β}
    (h : as.mapM f = .ok bs) : ∃ g : α → β, bs = as.map g ∧ ∀ a ∈ as, f a = .ok (g a) := by
  let g (a : α) : β := (f a).toOption.getD default
  refine ⟨g, ?_⟩
  induction as generalizing bs
  case nil =>
    cases h
    exact ⟨rfl, nofun⟩
  case cons a as hi =>
    obtain ⟨b, bs', ha, has, rfl⟩ := mapM_cons_eq_ok_iff.mp h
    obtain ⟨rfl, hg⟩ := hi has
    have hb : g a = b := by simp only [g, ha, Except.toOption, Option.getD_some]
    refine ⟨by rw [List.map_cons, hb], fun a' ha' => ?_⟩
    rcases List.mem_cons.mp ha' with rfl | ha'
    case inl => rw [ha, hb]
    case inr => exact hg a' ha'

theorem mapM_eq_map {f : α → Except ε β} {g : α → β} {as : List α}
    (h : ∀ a ∈ as, f a = .ok (g a)) : as.mapM f = .ok (as.map g) := by
  rw [mapM_congr_of_mem h]
  exact List.mapM_pure

-- No error of the kind `bad` comes out of a computation.
def Avoids (bad : ε → Prop) (x : Except ε α) : Prop :=
  ∀ e, x = .error e → ¬bad e

section

variable {bad : ε → Prop} {bad' : ε' → Prop}

theorem avoids_ok (a : α) : Avoids bad (.ok a : Except ε α) :=
  nofun

theorem avoids_error {e : ε} (h : ¬bad e) : Avoids bad (.error e : Except ε α) := by
  intro e' he
  cases he
  exact h

theorem avoids_bind {x : Except ε α} {f : α → Except ε β} (hx : Avoids bad x)
    (hf : ∀ a, x = .ok a → Avoids bad (f a)) : Avoids bad (x >>= f) := by
  intro e he
  rcases bind_eq_error_iff.mp he with he | ⟨a, ha, he⟩
  case inl => exact hx e he
  case inr => exact hf a ha e he

theorem avoids_map {x : Except ε α} (f : α → β) (hx : Avoids bad x) : Avoids bad (x.map f) := by
  cases x
  case ok a    => exact avoids_ok (f a)
  case error e => exact avoids_error (hx e rfl)

theorem avoids_mapError {x : Except ε α} {f : ε → ε'} (hf : ∀ e, bad' (f e) → bad e)
    (hx : Avoids bad x) : Avoids bad' (x.mapError f) := by
  cases x
  case ok a    => exact avoids_ok a
  case error e => exact avoids_error (mt (hf e) (hx e rfl))

theorem avoids_mapError_of_forall {x : Except ε α} {f : ε → ε'} (hf : ∀ e, ¬bad' (f e)) :
    Avoids bad' (x.mapError f) := by
  cases x
  case ok a    => exact avoids_ok a
  case error e => exact avoids_error (hf e)

theorem avoids_ite {p : Prop} [Decidable p] {x y : Except ε α} (hx : Avoids bad x)
    (hy : Avoids bad y) : Avoids bad (if p then x else y) := by
  split
  case isTrue  => exact hx
  case isFalse => exact hy

theorem avoids_mapM {f : α → Except ε β} {as : List α} (h : ∀ a ∈ as, Avoids bad (f a)) :
    Avoids bad (as.mapM f) := by
  induction as
  case nil => exact avoids_ok _
  case cons a as hi =>
    rw [List.mapM_cons]
    refine avoids_bind (h a List.mem_cons_self) fun _ _ => ?_
    refine avoids_bind (hi fun a ha => h a (List.mem_cons_of_mem _ ha)) fun _ _ => ?_
    exact avoids_ok _

theorem Logged.avoids_bind {x : Logged ε α} {f : α → Logged ε β} (hx : Avoids bad x.result)
    (hf : ∀ a, x.result = .ok a → Avoids bad (f a).result) : Avoids bad (x >>= f).result := by
  rw [result_bind]
  exact Ordo.avoids_bind hx hf

end

end Ordo
