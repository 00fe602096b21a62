import Ordo.Markup.Event
import Ordo.Value

namespace Ordo

-- The cycle of the year that a commemoration belongs to.
inductive Cycle
  -- The cycle that moves with Pascha.
  | movable
  -- The cycle of months and days.
  | fixed
deriving DecidableEq, Repr, Inhabited

-- The services of the day.
inductive Office
  | vespers
  | matins
  | liturgy
  | sixthHour
  | firstHour
  | thirdHour
  | ninthHour
deriving DecidableEq, Repr, Inhabited

-- The service that an element of a biography stands for.
def Office.ofTag? : String → Option Office
  | "VESPERS" => some vespers
  | "MATINS"  => some matins
  | "LITURGY" => some liturgy
  | "SEXTE"   => some sixthHour
  | "PRIMES"  => some firstHour
  | "TERCE"   => some thirdHour
  | "NONE"    => some ninthHour
  | _         => none

-- A lesson of scripture.
structure Reading where
  week     : Option String
  pericope : Option String
  citation : String
  kind     : Option String
deriving DecidableEq, Repr, Inhabited

structure Service where
  office   : Office
  readings : Option (List Reading) := none
deriving DecidableEq, Repr, Inhabited

-- The text of a life with the attributes of its element.
structure Life where
  attributes : Markup.Attributes
  text       : String
deriving DecidableEq, Inhabited

-- What one document of a biography says about a commemoration.
structure Biography where
  name      : Option Markup.Attributes := none
  info      : Option Markup.Attributes := none
  life      : Option Life := none
  reference : Option String := none
  -- The rank that the document declares, if it declares one; that rank may be none.
  rank      : Option (Option Value) := none
  services  : List Service := []
deriving DecidableEq, Inhabited

structure Commemoration where
  cid        : String
  cycle      : Cycle
  menologion : String := ""
  -- The rank in the fixed cycle, or what is added to the tone in the movable one.
  rank       : Option Value := none
  name       : Option Markup.Attributes := none
  info       : Option Markup.Attributes := none
  life       : Option Life := none
  reference  : Option String := none
  services   : Option (List Service) := none
deriving DecidableEq, Inhabited

-- The attributes of both layers; those of the later one take the place of others of their name.
def overlaid (base layer : Option Markup.Attributes) : Option Markup.Attributes :=
  match base, layer with
  | base,      none       => base
  | none,      some layer => some layer
  | some base, some layer => some (base.overlay layer)

namespace Commemoration

def rankNumber? (c : Commemoration) : Option Int :=
  c.rank.bind Value.toInteger?

-- The number that the identifier of a commemoration is, if it is one.
def cidNumber? (c : Commemoration) : Option Int :=
  Number.integer64? (Text.trim c.cid)

def isMovable (c : Commemoration) : Bool :=
  c.cycle = .movable

def allServices (c : Commemoration) : List Service :=
  c.services.getD []

def hasService (c : Commemoration) (o : Office) : Bool :=
  c.allServices.any (·.office = o)

-- The commemoration with a further layer of its biography. Names and infos are laid over each
-- other, and services are added. The life and the reference are always those of the last layer, and
-- the rank is that of the last layer which declares one.
def withBiography (c : Commemoration) (b : Biography) : Commemoration :=
  { c with
    name      := overlaid c.name b.name
    info      := overlaid c.info b.info
    life      := b.life
    reference := b.reference
    rank      := b.rank.getD c.rank
    services  := if b.services.isEmpty then c.services else some (c.allServices ++ b.services) }

end Commemoration

-- A sum of 0 counts as the last tone.
def lastTone : Int := 8

-- Tones are held in 64 bits with a sign.
def wrapTone (tone : Int) : Int :=
  tone.bmod 0x10000000000000000

-- The tone of a day: the sum of the ranks of its movable commemorations.
def toneOf (movable : List Commemoration) : Int :=
  let sum := wrapTone ((movable.filterMap Commemoration.rankNumber?).foldr (· + ·) 0)
  if sum = 0 then lastTone else sum

-- The highest rank of the fixed commemorations, and -1 if there is none above it.
def dayRankOf (cs : List Commemoration) : Int :=
  let fixed := cs.filter (·.cycle = .fixed)
  (fixed.filterMap Commemoration.rankNumber?).foldl max (-1)

end Ordo
