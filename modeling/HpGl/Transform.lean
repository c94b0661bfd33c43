import HpGl.Config
import HpGl.Geometry

/-!
# From the drawing to the device

A position is scaled and moved by the origin, a length is scaled only. Nothing is clipped.

* `Transform.point`, `Transform.length`: the two conversions.
* `Transform.ofConfig`: the conversion that settings imply.
-/

namespace HpGl

/-- A scale and an origin. -/
structure Transform where
  /-- Device units per drawing unit. -/
  scale : Float
  /-- Device position of the drawing's origin. -/
  origin : Point
  deriving DecidableEq

namespace Transform

/-- The scale of the settings, and the lower left corner of their area as the origin. -/
def ofConfig (c : Config) : Transform :=
  ⟨c.scale, Float.ofInt c.bounds.xMin.toInt, Float.ofInt c.bounds.yMin.toInt⟩

variable (t : Transform)

/-- A length on the device. -/
def length (v : Float) : Float := v * t.scale

/-- A coordinate on the device, given the origin of its axis. -/
def coordinate (v origin : Float) : Float := t.length v + origin

/-- A horizontal coordinate on the device. -/
def x (v : Float) : Float := t.coordinate v t.origin.x

/-- A vertical coordinate on the device. -/
def y (v : Float) : Float := t.coordinate v t.origin.y

/-- A position on the device. -/
def point (p : Point) : Point := ⟨t.x p.x, t.y p.y⟩

end Transform

end HpGl
