import Ordo.Dictionary

namespace Ordo.Markup

abbrev Attributes := Dictionary String

inductive Event
  | enter (tag : String) (attributes : Attributes)
  | exit (tag : String)
  | text (s : String)
deriving DecidableEq, Inhabited

-- An element without its content.
structure Element where
  tag        : String
  attributes : Attributes
deriving DecidableEq, Inhabited

-- The elements that a row of events enters.
def elements (es : List Event) : List Element :=
  es.filterMap fun
    | .enter tag attributes => some ⟨tag, attributes⟩
    | _                     => none

-- Puts a text before a row of events. Texts side by side are one text, and an empty one is none.
def consText (s : String) (es : List Event) : List Event :=
  if s.isEmpty then es
  else
    match es with
    | .text t :: es => .text (s ++ t) :: es
    | es            => .text s :: es

end Ordo.Markup
