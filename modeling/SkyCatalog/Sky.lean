import SkyCatalog.Decimal.Binary

/-!
# Angles on the sky

Positions are right ascension and declination in degrees. Right ascension is kept in
the half-open circle from 0 to 360. The separation of two positions is the length of
the great-circle arc between them, computed by the haversine formula.
-/

namespace SkyCatalog.Sky

/-- Bring a finite angle into the half-open circle from 0 to 360 degrees. A tiny
negative angle rounds to a full circle, which is 0. -/
def wrapCircle (degrees : Float) : Float :=
  let r := Decimal.remainder degrees 360
  let wrapped := if r < 0.0 then r + 360.0 else r
  if wrapped ≥ 360.0 then 0.0 else wrapped

/-- The number of arcseconds in a degree. -/
def arcsecondsPerDegree : Float := 3600.0

/-- Degrees to radians. -/
def toRadians (degrees : Float) : Float :=
  degrees * (3.141592653589793 / 180.0)

/-- Radians to degrees. -/
def toDegrees (radians : Float) : Float :=
  radians * 57.29577951308232

/-- Half the square of the chord, between 0 and 1 but for rounding. -/
def haversine (ra₁ dec₁ ra₂ dec₂ : Float) : Float :=
  let sinDec := ((dec₂ - dec₁) / 2.0).sin
  let sinRa := ((ra₂ - ra₁) / 2.0).sin
  sinDec * sinDec + dec₁.cos * dec₂.cos * (sinRa * sinRa)

/-- The separation of two positions in arcseconds. Rounding above 1 is cut off, which
also sends what is no number to the antipode. -/
def separation (ra₁ dec₁ ra₂ dec₂ : Float) : Float :=
  let h := haversine (toRadians ra₁) (toRadians dec₁) (toRadians ra₂) (toRadians dec₂)
  let chord := h.sqrt
  let arc := 2.0 * (if chord ≤ 1.0 then chord else 1.0).asin
  toDegrees arc * arcsecondsPerDegree

end SkyCatalog.Sky
