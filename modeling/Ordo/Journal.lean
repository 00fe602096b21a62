namespace Ordo

inductive Severity
  | info
  | warning
  | error
deriving DecidableEq, Repr

def Severity.label : Severity → String
  | info    => "INFO"
  | warning => "WARN"
  | error   => "ERROR"

-- A record of one event, in one part of the library, with details under their names.
structure Notice where
  severity : Severity
  event    : String
  part     : String
  status   : String
  details  : List (String × String) := []
deriving DecidableEq, Repr

def Notice.render (n : Notice) : String :=
  let fields := [("event", n.event), ("module", n.part), ("status", n.status)] ++ n.details
  n.severity.label ++ " " ++ " ".intercalate (fields.map fun (k, v) => k ++ "=" ++ v)

-- The result of a computation that may fail, with the notices given up to its end.
structure Logged (ε α : Type) where
  result  : Except ε α
  notices : List Notice := []

namespace Logged

variable {ε ε' α β : Type}

def ok (a : α) : Logged ε α := { result := .ok a }

def fail (e : ε) : Logged ε α := { result := .error e }

def notice (n : Notice) : Logged ε Unit := { result := .ok (), notices := [n] }

def ofExcept (r : Except ε α) : Logged ε α := { result := r }

-- The notices of a failed computation stay; what would follow it gives none.
def bind (x : Logged ε α) (f : α → Logged ε β) : Logged ε β :=
  match x.result with
  | .error e => { result := .error e, notices := x.notices }
  | .ok a    => { result := (f a).result, notices := x.notices ++ (f a).notices }

instance : Monad (Logged ε) where
  pure := ok
  bind := bind

def mapError (f : ε → ε') (x : Logged ε α) : Logged ε' α where
  result  := x.result.mapError f
  notices := x.notices

@[simp]
theorem result_pure (a : α) : (pure a : Logged ε α).result = .ok a := rfl

@[simp]
theorem result_bind (x : Logged ε α) (f : α → Logged ε β) :
    (x >>= f).result = x.result >>= fun a => (f a).result := by
  change (bind x f).result = _
  unfold bind
  cases x.result <;> rfl

theorem map_id (x : Logged ε α) : id <$> x = x := by
  change bind x ok = x
  rcases x with ⟨_ | _, _⟩ <;> simp [bind, ok]

theorem ok_bind (a : α) (f : α → Logged ε β) : (pure a : Logged ε α) >>= f = f a := by
  change bind (ok a) f = f a
  simp [bind, ok]

theorem bind_assoc {γ : Type} (x : Logged ε α) (f : α → Logged ε β) (g : β → Logged ε γ) :
    x >>= f >>= g = x >>= fun a => f a >>= g := by
  change bind (bind x f) g = bind x fun a => bind (f a) g
  rcases x with ⟨_ | a, _⟩
  case error => rfl
  case ok =>
    simp only [bind]
    cases (f a).result <;> simp

instance : LawfulMonad (Logged ε) := LawfulMonad.mk' (Logged ε) map_id ok_bind bind_assoc

end Logged

end Ordo
