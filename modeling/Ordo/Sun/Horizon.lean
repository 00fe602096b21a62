import Ordo.Text.Basic

namespace Ordo.Sun

-- The altitude in degrees at which the sun rises and sets, taken at its upper limb or at its
-- centre.
structure Horizon where
  altitude  : Float
  upperLimb : Bool
deriving DecidableEq

namespace Horizon

-- The upper limb on the horizon, under the refraction of 35 arc minutes.
def sea : Horizon := ⟨-35.0 / 60.0, true⟩

def civil : Horizon := ⟨-6.0, false⟩

def nautical : Horizon := ⟨-12.0, false⟩

def amateur : Horizon := ⟨-15.0, false⟩

def astronomical : Horizon := ⟨-18.0, false⟩

-- Names are read without regard to case and to blanks around them.
def normalName (name : String) : String :=
  (Text.trim name).map Char.toLower

def ofName? (name : String) : Option Horizon :=
  match normalName name with
  | "default"               => some sea
  | "civil"                 => some civil
  | "nautical"              => some nautical
  | "amateur" | "amature"   => some amateur
  | "astronomical"          => some astronomical
  | _                       => none

def unknownName (name : String) : String :=
  s!"unrecognized observation `{normalName name}`; expected " ++
    "default|civil|nautical|amateur|astronomical"

end Horizon

end Ordo.Sun
