/-!
# Reading decimals

The float nearest to a decimal.  Exponents may be of any size: a decimal too large or too small
for every finite float is sent to infinity or to zero before a power of ten is built.
-/

namespace StagedScript.Decimal

/-- The value of a decimal digit. -/
def digitValue (c : Char) : Nat := c.toNat - '0'.toNat

/-- The number that a run of decimal digits writes. -/
def ofDigits (ds : List Char) : Nat := ds.foldl (fun n c => 10 * n + digitValue c) 0

/-- The float nearest to `digits · 10 ^ exponent`.  Above `10 ^ 310` there is only infinity, and
below `10 ^ -330` only zero. -/
def nearestFloat (digits : Nat) (exponent : Int) : Float :=
  if digits = 0 then 0
  else
    let point := (Nat.toDigits 10 digits).length + exponent
    if 310 < point then 1 / 0
    else if point < -330 then 0
    else if 0 ≤ exponent then Float.ofScientific digits false exponent.toNat
    else Float.ofScientific digits true (-exponent).toNat

/-- A decimal in parts: the digits in front of the point, those behind it, and the exponent. -/
structure Parts where
  /-- The digits in front of the point. -/
  whole : List Char
  /-- The digits behind it. -/
  fraction : List Char
  /-- The power of ten. -/
  exponent : Int
deriving DecidableEq, Repr

/-- The float nearest to a decimal in parts. -/
def Parts.toFloat (p : Parts) : Float :=
  nearestFloat (ofDigits (p.whole ++ p.fraction)) (p.exponent - p.fraction.length)

end StagedScript.Decimal
