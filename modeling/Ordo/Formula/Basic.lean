import Ordo.Formula.Parser

namespace Ordo

structure Formula where
  source : String
  tree   : Formula.Tree
deriving DecidableEq

namespace Formula

inductive Fault
  | lexical (f : LexicalFault)
  | grammatical (cause : MisparseCause)
deriving DecidableEq, Repr

def Fault.message : Fault → String
  | lexical f         => f.message
  | grammatical cause => cause.message

-- Why a formula has no value. The place of a fault is given in bytes from the start of the source.
inductive Error
  | malformed (source : String) (offset : Nat) (fault : Fault)
  | unbound (source : String) (name : String)
deriving DecidableEq, Repr

namespace Error

def source : Error → String
  | malformed source _ _ | unbound source _ => source

def message : Error → String
  | malformed source offset fault =>
    s!"syntax error in `{source}` at offset {offset}: {fault.message}"
  | unbound source name => s!"unknown variable `{name}` in `{source}`"

end Error

-- The place of the first token of `rest`; the end of the source if there is none.
def offsetOf (source : String) (rest : List Located) : Nat :=
  match rest with
  | []     => source.utf8ByteSize
  | t :: _ => t.offset

def parse (source : String) : Except Error Formula :=
  match tokens source with
  | .error (offset, f) => .error (.malformed source offset (.lexical f))
  | .ok ts =>
    match Tree.ofTokens ts with
    | .error m => .error (.malformed source (offsetOf source m.rest) (.grammatical m.cause))
    | .ok t    => .ok ⟨source, t⟩

def eval (f : Formula) (b : Bindings) : Except Error Value :=
  (f.tree.eval b).mapError (.unbound f.source)

end Formula

-- The value of the formula that is written as `source`.
def evaluate (source : String) (b : Bindings) : Except Formula.Error Value := do
  (← Formula.parse source).eval b

end Ordo
