import HpGl.Refusal

/-!
# Plotter settings

The device area, the scale of the drawing and whether statements are logged.

* `Bounds.width?`, `Bounds.height?`: the size of the area, when 32 bits hold it.
* `Config.preset?`: the built-in settings, by name.
* `Config.validate`: the settings a session depends on.
-/

namespace HpGl

/-- The device area, in device units. Only its lower left corner enters the coordinates. -/
structure Bounds where
  xMin : Int32
  yMin : Int32
  xMax : Int32
  yMax : Int32
  deriving DecidableEq

namespace Bounds

/-- The difference of two coordinates, when 32 bits hold it. -/
def difference? (a b : Int32) : Option Int32 :=
  let d := a.toInt - b.toInt
  if -0x80000000 ≤ d ∧ d < 0x80000000 then some (Int32.ofInt d) else none

/-- The width of the area. -/
def width? (b : Bounds) : Option Int32 := difference? b.xMax b.xMin

/-- The height of the area. -/
def height? (b : Bounds) : Option Int32 := difference? b.yMax b.yMin

end Bounds

/-- The settings of a session. -/
structure Config where
  bounds : Bounds
  /-- Device units per drawing unit. -/
  scale : Float
  /-- Every statement is reported before it is sent. -/
  debug : Bool
  deriving DecidableEq

namespace Config

/-- Settings for an area with its corner at the origin, at scale one. -/
def ofSize (width height : Int32) : Config := ⟨⟨0, 0, width, height⟩, 1, false⟩

/-- US letter paper. -/
def letter : Config := ofSize 10365 7962

/-- ISO A4 paper. -/
def a4 : Config := ofSize 11040 7721

/-- US tabloid paper. -/
def tabloid : Config := ofSize 16640 10365

/-- ISO A3 paper. -/
def a3 : Config := ofSize 16158 11040

instance : Inhabited Config := ⟨letter⟩

/-- The names that are listed, in their order. -/
def presetNames : List String :=
  ["hp7475a-letter", "hp7475a-a4", "hp7475a-tabloid", "hp7475a-a3"]

/-- Built-in settings by name. The bare model name stands for letter paper. -/
def preset? (name : String) : Option Config :=
  if name = "hp7475a-letter" ∨ name = "hp7475a" then some letter
  else if name = "hp7475a-a4" then some a4
  else if name = "hp7475a-tabloid" then some tabloid
  else if name = "hp7475a-a3" then some a3
  else none

/-- The scale is a positive finite number. -/
def hasValidScale (c : Config) : Bool := c.scale.isFinite && decide (0 < c.scale)

/-- The settings a session depends on. -/
def validate (c : Config) : Except Refusal Unit :=
  if c.hasValidScale then .ok () else .error (.invalidScale c.scale)

end Config

end HpGl
