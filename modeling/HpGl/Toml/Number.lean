import HpGl.Decimal.Nearest
import HpGl.Text.Hexadecimal
import HpGl.Toml.Table

/-!
# Numbers, dates and times

Each scanner yields what it read and the text after it.

* `Toml.scanNumber`: integers of 64 bits and doubles; digits may stand apart by single underscores.
* `Toml.scanMoment`: dates and times, which must be on the calendar and on the clock.
-/

namespace HpGl.Toml

/-! ## Digits -/

/-- Digits with single underscores between them. None of them, or an underscore with no digit
after it, is a fault. -/
def scanDigits (isDigit : Char → Bool) : List Char → Option (List Char × List Char)
  | [] => none
  | c :: cs =>
    if isDigit c then
      match cs with
      | [] => some ([c], [])
      | d :: ds =>
        if d = '_' then (scanDigits isDigit ds).map fun (ds, rest) => (c :: ds, rest)
        else if isDigit d then (scanDigits isDigit (d :: ds)).map fun (ds, rest) => (c :: ds, rest)
        else some ([c], d :: ds)
    else none

/-- A hexadecimal digit. -/
def isHexDigit (c : Char) : Bool := (Text.hexValue? c).isSome

/-- A digit below eight. -/
def isOctalDigit (c : Char) : Bool := '0' ≤ c && c ≤ '7'

/-- A digit below two. -/
def isBinaryDigit (c : Char) : Bool := c = '0' || c = '1'

/-! ## Numbers -/

/-- An integer that 64 bits hold. -/
def integer? (n : Int) : Option Item :=
  if -0x8000000000000000 ≤ n ∧ n < 0x8000000000000000 then some (.integer n) else none

/-- Digits in a base that the text has named, most significant first. -/
def scanBased (base : Nat) (isDigit : Char → Bool) (cs : List Char) :
    Option (Item × List Char) := do
  let (ds, rest) ← scanDigits isDigit cs
  let n := ds.foldl (fun n c => base * n + (Text.hexValue? c).getD 0) 0
  return (← integer? n, rest)

/-- A double. Nothing but a word is positive infinity. -/
def float? (negative : Bool) (d : Decimal) : Option Item :=
  let x := d.toFloat negative
  if x.isInf && !negative then none else some (.float x)

/-- The exponent of a number, absent if there is none here. -/
def scanExponent (cs : List Char) : Option (Option Int × List Char) :=
  match cs with
  | [] => some (none, [])
  | c :: cs' =>
    if c = 'e' ∨ c = 'E' then do
      let (negative, cs') := takeSign cs'
      let (ds, rest) ← scanDigits Char.isDigit cs'
      let n : Int := Decimal.valueOf ds
      return (some (if negative then -n else n), rest)
    else some (none, cs)

/-- The fraction of a number, absent if there is none here. -/
def scanFraction (cs : List Char) : Option (Option (List Char) × List Char) :=
  match cs with
  | '.' :: cs => (scanDigits Char.isDigit cs).map fun (ds, rest) => (some ds, rest)
  | cs => some (none, cs)

/-- A number of decimal digits after its sign. Its integer part has no superfluous zero. -/
def scanDecimal (negative : Bool) (cs : List Char) : Option (Item × List Char) := do
  let (whole, cs) ← scanDigits Char.isDigit cs
  if whole.head? = some '0' ∧ whole ≠ ['0'] then none
  let (fraction, cs) ← scanFraction cs
  let (exponent, cs) ← scanExponent cs
  if fraction = none ∧ exponent = none then
    let n : Int := Decimal.valueOf whole
    return (← integer? (if negative then -n else n), cs)
  return (← float? negative (.ofDigits whole (fraction.getD []) (exponent.getD 0)), cs)

/-- A number. -/
def scanNumber (cs : List Char) : Option (Item × List Char) :=
  match cs with
  | '0' :: 'x' :: cs => scanBased 16 isHexDigit cs
  | '0' :: 'o' :: cs => scanBased 8 isOctalDigit cs
  | '0' :: 'b' :: cs => scanBased 2 isBinaryDigit cs
  | cs =>
    let (negative, cs) := takeSign cs
    match cs with
    | 'i' :: 'n' :: 'f' :: cs => some (.float (infiniteFloat negative), cs)
    | 'n' :: 'a' :: 'n' :: cs => some (.float nanFloat, cs)
    | cs => scanDecimal negative cs

/-! ## Dates and times -/

/-- The number of two digits. -/
def twoDigits? (a b : Char) : Option Nat :=
  if a.isDigit && b.isDigit then some (Decimal.valueOf [a, b]) else none

/-- Two digits whose number is in a range. -/
def scanTwoDigits (lo hi : Nat) : List Char → Option (Nat × List Char)
  | a :: b :: cs => do
    let n ← twoDigits? a b
    if lo ≤ n ∧ n ≤ hi then some (n, cs) else none
  | _ => none

/-- The text after a character that must be there. -/
def skip? (c : Char) : List Char → Option (List Char)
  | d :: cs => if d = c then some cs else none
  | [] => none

/-- The number of days of a month. -/
def daysIn (year month : Nat) : Nat :=
  let leap := year % 4 == 0 && (year % 100 != 0 || year % 400 == 0)
  if month = 2 then (if leap then 29 else 28)
  else if month ∈ [4, 6, 9, 11] then 30
  else 31

/-- The text after the month and the day of a date. -/
def skipMonthAndDay (year : Nat) (cs : List Char) : Option (List Char) := do
  let (month, cs) ← scanTwoDigits 1 12 cs
  let (_, cs) ← scanTwoDigits 1 (daysIn year month) (← skip? '-' cs)
  return cs

/-- The text after a time: hours, minutes, seconds, and a fraction if there is one. -/
def skipTime (cs : List Char) : Option (List Char) := do
  let (_, cs) ← scanTwoDigits 0 23 cs
  let (_, cs) ← scanTwoDigits 0 59 (← skip? ':' cs)
  let (_, cs) ← scanTwoDigits 0 60 (← skip? ':' cs)
  match cs with
  | '.' :: cs =>
    let (ds, cs) := takeDigits cs
    if ds = [] then none else some cs
  | cs => some cs

/-- The text after the offset of a time, if it has one. -/
def skipOffset (cs : List Char) : Option (List Char) :=
  match cs with
  | [] => some []
  | c :: cs' =>
    if c = 'Z' ∨ c = 'z' then some cs'
    else if c = '+' ∨ c = '-' then do
      let (_, cs') ← scanTwoDigits 0 23 cs'
      let (_, cs') ← scanTwoDigits 0 59 (← skip? ':' cs')
      return cs'
    else some cs

/-- A time begins with two digits and a colon. -/
def startsTime : List Char → Bool
  | a :: b :: ':' :: _ => a.isDigit && b.isDigit
  | _ => false

/-- The year of a date, which begins with four digits and a dash, and the text after the dash. -/
def startsDate? : List Char → Option (Nat × List Char)
  | a :: b :: c :: d :: '-' :: cs =>
    if [a, b, c, d].all Char.isDigit then some (Decimal.valueOf [a, b, c, d], cs) else none
  | _ => none

/-- The text after a date and the time that follows it, if one does. -/
def skipDate (year : Nat) (cs : List Char) : Option (List Char) := do
  let cs ← skipMonthAndDay year cs
  match cs with
  | [] => return []
  | c :: cs' =>
    if (c = 'T' ∨ c = 't' ∨ c = ' ') ∧ startsTime cs' then skipOffset (← skipTime cs')
    else return cs

/-- A date or a time, absent if neither begins here; the text after it is absent if it is not on
the calendar or on the clock. -/
def skipMoment? (cs : List Char) : Option (Option (List Char)) :=
  match startsDate? cs with
  | some (year, rest) => some (skipDate year rest)
  | none => if startsTime cs then some (skipTime cs) else none

/-- A date, a time or a number. -/
def scanNumeral (cs : List Char) : Option (Item × List Char) :=
  match skipMoment? cs with
  | some rest? => rest?.map (Item.time, ·)
  | none => scanNumber cs

end HpGl.Toml
