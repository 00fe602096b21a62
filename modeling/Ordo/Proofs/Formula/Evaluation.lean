import Ordo.Proofs.Document.Extension
import Ordo.Proofs.Formula.Names

namespace Ordo

theorem append_subset_append {α : Type} {as as' bs bs' : List α} (ha : as ⊆ as') (hb : bs ⊆ bs') :
    as ++ bs ⊆ as' ++ bs' :=
  List.append_subset.mpr
    ⟨List.subset_append_of_subset_left _ ha, List.subset_append_of_subset_right _ hb⟩

namespace Bindings

variable {b b' : Bindings} {names : List String}

-- Whether each of the `names` that has a value in `b` has the same value in `b'`.
def ExtendsOn (names : List String) (b' b : Bindings) : Prop :=
  ∀ n ∈ names, ∀ v, b.get? n = some v → b'.get? n = some v

def AgreesOn (names : List String) (b' b : Bindings) : Prop :=
  ∀ n ∈ names, b'.get? n = b.get? n

def lacks (b : Bindings) (n : String) : Bool :=
  !b.contains n

theorem lacks_eq_true_iff {n : String} : b.lacks n = true ↔ b.get? n = none := by
  simp [lacks, Dictionary.contains]

theorem AgreesOn.of_append {names' : List String} (h : b'.AgreesOn (names ++ names') b) :
    b'.AgreesOn names b ∧ b'.AgreesOn names' b :=
  ⟨fun n hn => h n (List.mem_append_left _ hn), fun n hn => h n (List.mem_append_right _ hn)⟩

theorem extends_overlay (b' b : Bindings) : Extends (b'.overlay b) b := by
  intro n v h
  rw [Dictionary.get?_overlay, h]
  rfl

theorem ExtendsOn.agreesOn_overlay (h : b'.ExtendsOn names b) :
    b'.AgreesOn names (b'.overlay b) := by
  intro n hn
  rw [Dictionary.get?_overlay]
  cases hb : b.get? n
  case none   => rfl
  case some v => exact h n hn v hb

end Bindings

namespace Formula

namespace Tree

variable {b b' : Bindings} {t : Tree}

-- The names that an evaluation comes to, in their order, as long as none of them lacks a value. The
-- right side of a logical operator is left out if the left one decides, and of the two branches of
-- a conditional the one that is not chosen.
def reached (b : Bindings) : Tree → List String
  | literal _ => []
  | name n => [n]
  | unary _ x => x.reached b
  | binary _ x y => x.reached b ++ y.reached b
  | logical op x y => x.reached b ++
    match x.eval b with
    | .error _ => []
    | .ok v    => if op.decidedBy v then [] else y.reached b
  | conditional c x y => c.reached b ++
    match c.eval b with
    | .error _ => []
    | .ok v    => if v.holds then x.reached b else y.reached b

theorem reached_subset_names : t.reached b ⊆ t.names := by
  induction t
  case literal => exact List.Subset.refl _
  case name    => exact List.Subset.refl _
  case unary op x hx => exact hx
  case binary op x y hx hy => exact append_subset_append hx hy
  case logical op x y hx hy =>
    refine append_subset_append hx ?_
    split
    case h_1 => exact List.nil_subset _
    case h_2 =>
      split
      case isTrue  => exact List.nil_subset _
      case isFalse => exact hy
  case conditional c x y hc hx hy =>
    rw [names, List.append_assoc]
    refine append_subset_append hc ?_
    split
    case h_1 => exact List.nil_subset _
    case h_2 =>
      split
      case isTrue  => exact List.subset_append_of_subset_left _ hx
      case isFalse => exact List.subset_append_of_subset_right _ hy

-- An evaluation fails with the first name without a value that it comes to, and only then.
theorem find?_reached (b : Bindings) (t : Tree) :
    (t.reached b).find? b.lacks =
      match t.eval b with
      | .error n => some n
      | .ok _    => none := by
  induction t
  case literal => rfl
  case name n =>
    cases h : b.get? n
    case none   => simp [reached, eval, Bindings.lacks, Dictionary.contains, h]
    case some v => simp [reached, eval, Bindings.lacks, Dictionary.contains, h]
  case unary op x hx =>
    rw [reached, hx, eval]
    cases x.eval b <;> rfl
  case binary op x y hx hy =>
    rw [reached, List.find?_append, hx, hy, eval]
    cases x.eval b
    case error => rfl
    case ok    => cases y.eval b <;> rfl
  case logical op x y hx hy =>
    rw [reached, List.find?_append, hx, eval]
    rcases x.eval b with n | v
    case error => rfl
    case ok =>
      dsimp only [bind, Except.bind]
      split
      case isTrue  => rfl
      case isFalse => exact hy
  case conditional c x y hc hx hy =>
    rw [reached, List.find?_append, hc, eval]
    rcases c.eval b with n | v
    case error => rfl
    case ok =>
      dsimp only [bind, Except.bind]
      split
      case isTrue  => exact hx
      case isFalse => exact hy

theorem eval_eq_error_iff {n : String} :
    t.eval b = .error n ↔ (t.reached b).find? b.lacks = some n := by
  rw [find?_reached]
  cases t.eval b <;> simp

theorem eval_of_agreesOn (h : b'.AgreesOn t.names b) : t.eval b' = t.eval b := by
  induction t
  case literal => rfl
  case name n => rw [eval, eval, h n (List.mem_singleton.mpr rfl)]
  case unary op x hx => rw [eval, eval, hx h]
  case binary op x y hx hy =>
    obtain ⟨h₁, h₂⟩ := h.of_append
    rw [eval, eval, hx h₁, hy h₂]
  case logical op x y hx hy =>
    obtain ⟨h₁, h₂⟩ := h.of_append
    rw [eval, eval, hx h₁, hy h₂]
  case conditional c x y hc hx hy =>
    obtain ⟨h, h₃⟩ := h.of_append
    obtain ⟨h₁, h₂⟩ := h.of_append
    rw [eval, eval, hc h₁, hx h₂, hy h₃]

-- The names of `t` have the same values in `b'` as in `b'` with all that is in `b`.
theorem eval_of_extendsOn {v : Value} (h : b'.ExtendsOn t.names b) (hv : t.eval b = .ok v) :
    t.eval b' = .ok v := by
  rw [eval_of_agreesOn h.agreesOn_overlay]
  exact eval_of_extends (Bindings.extends_overlay b' b) hv

end Tree

variable {f : Formula} {b : Bindings}

theorem eval_eq_ok_iff {v : Value} : f.eval b = .ok v ↔ f.tree.eval b = .ok v :=
  mapError_eq_ok_iff

theorem eval_eq_error_iff {e : Error} :
    f.eval b = .error e ↔ ∃ n, f.tree.eval b = .error n ∧ .unbound f.source n = e :=
  mapError_eq_error_iff

-- The value of a formula depends on the values of its names, and fails with one of them that lacks
-- a value; names on a side that is skipped have no part in this.
theorem eval_names (f : Formula) (b : Bindings) :
    (∀ e, f.eval b = .error e →
      ∃ n ∈ f.tree.names, b.get? n = none ∧ e = .unbound f.source n) ∧
    (b.Binds f.tree.names → ∃ v, f.eval b = .ok v) ∧
    (∀ v b', f.eval b = .ok v → (b'.ExtendsOn f.tree.names b ∨ b'.Extends b) → f.eval b' = .ok v) ∧
    (∀ b', b'.AgreesOn f.tree.names b → f.eval b' = f.eval b) ∧
    ∀ n, f.eval b = .error (.unbound f.source n) ↔
      (f.tree.reached b).find? b.lacks = some n := by
  refine ⟨?fails, ?binds, ?extended, ?agrees, ?reached⟩
  case fails =>
    intro e he
    obtain ⟨n, hn, rfl⟩ := eval_eq_error_iff.mp he
    have hn := Tree.eval_eq_error_iff.mp hn
    have hm := Tree.reached_subset_names (List.mem_of_find?_eq_some hn)
    have hl := Bindings.lacks_eq_true_iff.mp (List.find?_some hn)
    exact ⟨n, hm, hl, rfl⟩
  case binds =>
    intro h
    obtain ⟨v, hv⟩ := Tree.exists_eval_eq h
    exact ⟨v, eval_eq_ok_iff.mpr hv⟩
  case extended =>
    intro v b' hv h
    have h : b'.ExtendsOn f.tree.names b := h.elim id fun h n _ => h n
    exact eval_eq_ok_iff.mpr (Tree.eval_of_extendsOn h (eval_eq_ok_iff.mp hv))
  case agrees =>
    intro b' h
    rw [eval, eval, Tree.eval_of_agreesOn h]
  case reached =>
    intro n
    rw [eval_eq_error_iff, ← Tree.eval_eq_error_iff]
    constructor
    case mp =>
      rintro ⟨n', hn, he⟩
      cases he
      exact hn
    case mpr => exact fun hn => ⟨n, hn, rfl⟩

-- If `x` does not hold, neither `y` nor `z` is looked up.
def skipping : Formula where
  source := "x && y || (x ? z : w)"
  tree   := .logical .or (.logical .and (.name "x") (.name "y"))
    (.conditional (.name "x") (.name "z") (.name "w"))

def withoutX : Bindings :=
  .ofList [("x", .text "")]

theorem eval_names_skipping :
    let b := withoutX.insert "w" (.text "a")
    let b' := b.insert "y" (.text "b")
    let b'' := b'.insert "z" (.text "c")
    skipping.eval withoutX = .error (.unbound skipping.source "w") ∧ withoutX.get? "w" = none ∧
    skipping.eval b = .ok (.text "a") ∧ skipping.eval b' = .ok (.text "a") ∧
    (∃ v, skipping.eval b'' = .ok v) ∧
    skipping.eval (b''.insert "v" (.text "d")) = skipping.eval b'' := by
  intro b b' b''
  obtain ⟨fails, _, _, _, reached⟩ := eval_names skipping withoutX
  have he : skipping.eval withoutX = .error (.unbound skipping.source "w") :=
    (reached "w").mpr (by decide +kernel)
  have hb : skipping.eval b = .ok (.text "a") := toOption_eq_some_iff.mp (by decide +kernel)
  have hx : Bindings.Extends b' b := by
    intro n v hn
    rw [Dictionary.get?_insert, if_neg, hn]
    rintro rfl
    cases hn
  have hn : Bindings.Binds b'' skipping.tree.names := by
    have h : ∀ n ∈ skipping.tree.names, (b''.get? n).isSome := by decide +kernel
    exact fun n hn => Option.isSome_iff_exists.mp (h n hn)
  have ha : Bindings.AgreesOn skipping.tree.names (b''.insert "v" (.text "d")) b'' := by
    intro n hn
    rw [Dictionary.get?_insert, if_neg]
    rintro rfl
    exact absurd hn (by decide +kernel)
  obtain ⟨n, _, hl, hw⟩ := fails _ he
  cases hw
  refine ⟨he, hl, hb, ?_, ?_, ?_⟩
  · exact (eval_names skipping b).2.2.1 _ b' hb (.inr hx)
  · exact (eval_names skipping b'').2.1 hn
  · exact (eval_names skipping b'').2.2.2.1 _ ha

end Formula

end Ordo
