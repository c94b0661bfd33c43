import HpGl.Decimal.Shortest

/-!
# How a double is written

The digits are those of `Binary.shortest`; a `Layout` says where the point goes. One record per
format:

* `Layout.display`: messages and the wire, always positional, no point on integral values.
* `Layout.json`: JSON documents.
* `Layout.toml`: profiles.
-/

namespace HpGl

/-- The decisions of a number format. -/
structure Layout where
  /-- Leading exponents from the first to below the second are written positionally; when absent,
  all of them are. -/
  positional : Option (Int × Int)
  /-- An integral value keeps the fraction `.0`. -/
  pointZero : Bool
  tie : Tie
  nan : String
  infinity : String

namespace Layout

/-- Numbers in messages and on the wire. -/
def display : Layout where
  positional := none
  pointZero := false
  tie := .up
  nan := "NaN"
  infinity := "inf"

/-- Numbers in a JSON document. The two words are never written there: a document has `null`. -/
def json : Layout where
  positional := some (-5, 16)
  pointZero := true
  tie := .even
  nan := "NaN"
  infinity := "inf"

/-- Numbers in a profile. -/
def toml : Layout where
  positional := none
  pointZero := true
  tie := .up
  nan := "nan"
  infinity := "inf"

/-- Digits with the point put in its place. -/
def pointed (l : Layout) (d : Decimal) : List Char :=
  let ds := Decimal.digitsOf d.digits
  if 0 ≤ d.exponent then
    ds ++ List.replicate d.exponent.toNat '0' ++ (if l.pointZero then ['.', '0'] else [])
  else
    let places := d.exponent.natAbs
    if places < ds.length then ds.take (ds.length - places) ++ '.' :: ds.drop (ds.length - places)
    else '0' :: '.' :: (List.replicate (places - ds.length) '0' ++ ds)

/-- One digit, the rest behind a point, and a signed exponent. -/
def scientific (d : Decimal) : List Char :=
  let ds := Decimal.digitsOf d.digits
  let fraction := if ds.length ≤ 1 then [] else '.' :: ds.drop 1
  let sign := if d.leading < 0 then '-' else '+'
  ds.take 1 ++ fraction ++ 'e' :: sign :: Decimal.digitsOf d.leading.natAbs

/-- A decimal in this format. -/
def magnitude (l : Layout) (d : Decimal) : List Char :=
  match l.positional with
  | none => l.pointed d
  | some (lo, hi) => if lo ≤ d.leading && d.leading < hi then l.pointed d else scientific d

/-- A double in this format. -/
def chars (l : Layout) (x : Float) : List Char :=
  if x.isNaN then l.nan.toList
  else
    let sign := if Binary.signBit x then ['-'] else []
    if x.isInf then sign ++ l.infinity.toList
    else sign ++ l.magnitude ((Binary.ofFloat x).shortest l.tie)

@[inherit_doc chars]
def render (l : Layout) (x : Float) : String := String.ofList (l.chars x)

end Layout

end HpGl
