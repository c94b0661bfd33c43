/-!
# Drawing space

Points and polygons in the units of the drawing.

* `Point.onCircle`: the point at an angle on a circle.
* `Polygon.rectangle`: the four corners of a rectangle, counter-clockwise from its origin.
* `Shape`: outlines whose vertices are read one by one; `Shape.vertices`.
-/

namespace HpGl

/-- A point of the drawing or of the device. -/
structure Point where
  x : Float
  y : Float
  deriving DecidableEq

namespace Point

/-- The point at `angle` radians on the circle of this radius around `c`. -/
def onCircle (c : Point) (radius angle : Float) : Point :=
  ⟨c.x + angle.cos * radius, c.y + angle.sin * radius⟩

/-- Neither coordinate is infinite or a NaN. -/
def isFinite (p : Point) : Bool := p.x.isFinite && p.y.isFinite

end Point

/-- A closed outline; the edge from the last vertex to the first is understood. -/
structure Polygon where
  vertices : List Point
  deriving DecidableEq

/-- The rectangle with a corner at `origin`, its sides along the axes. -/
def Polygon.rectangle (origin : Point) (width height : Float) : Polygon where
  vertices :=
    [origin, ⟨origin.x + width, origin.y⟩, ⟨origin.x + width, origin.y + height⟩,
      ⟨origin.x, origin.y + height⟩]

/-! ## Shapes -/

/-- An outline whose vertices are read by their index. -/
structure Shape where
  count : Nat
  vertex : Fin count → Point

namespace Shape

/-- The vertices from an index on. -/
def verticesFrom (s : Shape) (next : Nat) : List Point :=
  if h : next < s.count then s.vertex ⟨next, h⟩ :: s.verticesFrom (next + 1) else []
termination_by s.count - next

/-- The vertices in their order. -/
def vertices (s : Shape) : List Point := s.verticesFrom 0

/-- A list of points as a shape. -/
def ofList (ps : List Point) : Shape := ⟨ps.length, fun i => ps[i]⟩

/-- An array of points as a shape. -/
def ofArray (ps : Array Point) : Shape := ⟨ps.size, fun i => ps[i]⟩

/-- A polygon as a shape. -/
def ofPolygon (p : Polygon) : Shape := ofList p.vertices

end Shape

end HpGl
