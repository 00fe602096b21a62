import Ordo.Date
import Ordo.Journal
import Ordo.Number.Shortest
import Ordo.Sun.Horizon

namespace Ordo.Sun

def pi : Float := 3.14159265358979323846

def degree : Float := 180.0 / pi

def sin (x : Float) : Float := (x / degree).sin

def cos (x : Float) : Float := (x / degree).cos

def arccos (x : Float) : Float := x.acos * degree

def arctan2 (y x : Float) : Float := Float.atan2 y x * degree

-- The angle in one turn from 0.
def turn (x : Float) : Float := x - 360.0 * (x / 360.0).floor

-- The angle in half a turn to both sides of 0.
def halfTurn (x : Float) : Float := x - 360.0 * (x / 360.0 + 0.5).floor

-- From here on the method is that of Schlyter. Angles are in degrees, longitudes are positive in
-- the east and latitudes in the north.

-- The Greenwich mean sidereal time at midnight.
def siderealTime (d : Float) : Float :=
  turn ((180.0 + 356.0470 + 282.9404) + (0.9856002585 + 4.70935E-5) * d)

structure Ecliptic where
  distance  : Float
  longitude : Float

def ecliptic (d : Float) : Ecliptic :=
  let anomaly      := turn (356.0470 + 0.9856002585 * d)
  let perihelion   := 282.9404 + 4.70935E-5 * d
  let eccentricity := 0.016709 - 1.151E-9 * d
  let eccentric    :=
    anomaly + eccentricity * degree * sin anomaly * (1.0 + eccentricity * cos anomaly)
  let x := cos eccentric - eccentricity
  let y := (1.0 - eccentricity * eccentricity).sqrt * sin eccentric
  let longitude := arctan2 y x + perihelion
  {
    distance  := (x * x + y * y).sqrt
    longitude := if longitude ≥ 360.0 then longitude - 360.0 else longitude
  }

structure Equatorial where
  rightAscension : Float
  declination    : Float
  distance       : Float

def equatorial (d : Float) : Equatorial :=
  let sun := ecliptic d
  let x := sun.distance * cos sun.longitude
  let y := sun.distance * sin sun.longitude
  let obliquity := 23.4393 - 3.563E-7 * d
  let z := y * sin obliquity
  let y := y * cos obliquity
  {
    rightAscension := arctan2 y x
    declination    := arctan2 z (x * x + y * y).sqrt
    distance       := sun.distance
  }

def neverNotice (event : String) (latitude altitude : Float) : Notice where
  severity := .info
  event    := event
  part     := "calendar"
  status   := "ok"
  details  := [("latitude", Number.text latitude), ("altitude", Number.text altitude)]

-- Half of the time that the sun is up, in hours. Where it does not reach the horizon, it is up
-- for the whole day or not at all.
def halfDay (latitude altitude declination : Float) : Float × List Notice :=
  let cost :=
    (sin altitude - sin latitude * sin declination) / (cos latitude * cos declination)
  if cost ≥ 1.0 then (0.0, [neverNotice "sun_never_rises" latitude altitude])
  else if cost ≤ -1.0 then (12.0, [neverNotice "sun_never_sets" latitude altitude])
  else (arccos cost / 15.0, [])

-- The hours of rise and set in universal time on the day `d` of the epoch.
def riseAndSet (d longitude latitude : Float) (horizon : Horizon) :
    (Float × Float) × List Notice :=
  let sidereal := turn (siderealTime d + 180.0 + longitude)
  let sun := equatorial d
  let south := 12.0 - halfTurn (sidereal - sun.rightAscension) / 15.0
  let altitude :=
    if horizon.upperLimb then horizon.altitude - 0.2666 / sun.distance else horizon.altitude
  let (arc, notices) := halfDay latitude altitude sun.declination
  ((south - arc, south + arc), notices)

-- Hours since the midnight that a day begins with, which may be those of another day.
abbrev Hours := Float

namespace Hours

-- The hours with days added to them until they are not below 0. There are none where this does
-- not end.
def raise? (hours : Hours) : Option Hours :=
  if hours < 0.0 then hours + 24.0 |>.raise? else some hours
partial_fixpoint

-- The hours with days taken away from them until they are below 24. There are none where this does
-- not end.
def lower? (hours : Hours) : Option Hours :=
  if hours ≥ 24.0 then hours - 24.0 |>.lower? else some hours
partial_fixpoint

-- The hours less the whole days in them.
def wrap? (hours : Hours) : Option Hours :=
  hours.raise? >>= lower?

end Hours

-- A time of day, cut to the minute.
structure ClockTime where
  hour   : Nat
  minute : Nat
deriving DecidableEq, Repr

namespace ClockTime

def text (t : ClockTime) : String :=
  Text.padded 2 t.hour ++ ":" ++ Text.padded 2 t.minute

def ofHours? (hours : Hours) : Option ClockTime := do
  let hours ← hours.wrap?
  let whole := hours.floor
  return ⟨whole.toUInt32.toNat, (60.0 * (hours - whole)).floor.toUInt32.toNat⟩

end ClockTime

-- The day number of 1999-12-19, from which the position of the sun is reckoned.
def epoch : Float := 2451544.0

structure Times where
  rise : ClockTime
  set  : ClockTime

-- The times of rise and set at a place, by a clock that is `zone` hours ahead of universal time.
def times (date : Date) (longitude latitude : Float) (horizon : Horizon) (zone : Float) :
    Option Times × List Notice :=
  let d := .ofInt date.number - epoch + 0.5 - longitude / 360.0
  let ((rise, set), notices) := riseAndSet d longitude latitude horizon
  let times? := do
    return ⟨← ClockTime.ofHours? (rise + zone), ← ClockTime.ofHours? (set + zone)⟩
  (times?, notices)

end Ordo.Sun
