import HpGl.Config
import HpGl.Document.Drawing

/-!
# Settings as documents

The JSON value and the reader of an area and of the settings of a session.
-/

namespace HpGl.Document

open Json (Reader Record Value)

/-- An area as a document. -/
def boundsValue (b : Bounds) : Value :=
  .object [("x_min", int32Value b.xMin), ("y_min", int32Value b.yMin),
    ("x_max", int32Value b.xMax), ("y_max", int32Value b.yMax)]

/-- Reads an area. -/
def bounds : Reader Bounds :=
  Record.read
    (Bounds.mk <$> .field "x_min" Json.int32 <*> .field "y_min" Json.int32 <*>
      .field "x_max" Json.int32 <*> .field "y_max" Json.int32)
    "struct Bounds"

/-- Settings as a document. -/
def configValue (c : Config) : Value :=
  .object [("bounds", boundsValue c.bounds), ("scale", .real c.scale), ("debug", .boolean c.debug)]

/-- Reads settings. -/
def config : Reader Config :=
  Record.read
    (Config.mk <$> .field "bounds" bounds <*> .field "scale" Json.real <*>
      .fieldOr "debug" (some false) Json.boolean)
    "struct PlotterConfig"

end HpGl.Document
