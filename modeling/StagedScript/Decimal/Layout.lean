/-!
# The text of a float

A layout holds the decisions of a format for floats: when a number is written positionally, what
follows a whole number, how a tie between two shortest decimals goes, and the words for what is
no number.
-/

/-!
## The shortest decimal of a float

A positive finite float stands for all the reals that round to it.  Its shortest decimal is the
one with the fewest significant digits among those reals, and the nearest to the float where
several have as few.  The search is exact: for each number of digits it looks at the two points
of that decimal grid next to the float, and the first grid with a point in the interval wins.
-/

namespace StagedScript.Decimal

/-- What happens to a value half-way between two decimals with the same number of digits. -/
inductive Tie where
  /-- The larger one is taken. -/
  | up
  /-- The one whose last digit is even is taken. -/
  | even
deriving DecidableEq, Repr

/-- A non-negative finite float, as an integer times a power of two. -/
structure Binary where
  /-- The integer. -/
  significand : Nat
  /-- The power of two. -/
  exponent : Int
  /-- The next smaller float is only half as far away as the next larger one. -/
  narrow : Bool
deriving DecidableEq, Repr

namespace Binary

/-- The magnitude of a finite float, read off its bits. -/
def ofFloat (x : Float) : Binary :=
  let bits := x.toBits.toNat
  let fraction := bits % Nat.pow 2 52
  let scale : Nat := bits / Nat.pow 2 52 % Nat.pow 2 11
  if scale = 0 then ⟨fraction, -1074, false⟩
  else ⟨fraction + Nat.pow 2 52, (scale : Int) - 1075, fraction == 0 && decide (1 < scale)⟩

/-- Twice the ends of the rounding interval and its centre lie on a grid of quarters: the lower
end in quarters of the last binary place. -/
def low (b : Binary) : Nat := if b.narrow then 4 * b.significand - 1 else 4 * b.significand - 2

/-- The upper end of the rounding interval, in quarters of the last binary place. -/
def high (b : Binary) : Nat := 4 * b.significand + 2

/-- What a quarter of the last binary place is multiplied by to count in steps of `10 ^ place`,
as a fraction. -/
def scale (b : Binary) (place : Int) : Nat × Nat :=
  (Nat.pow 2 (b.exponent - 2).toNat * Nat.pow 10 (-place).toNat,
    Nat.pow 2 (2 - b.exponent).toNat * Nat.pow 10 place.toNat)

/-- Whether `c · 10 ^ place` rounds to the float.  The ends of the interval do when the
significand is even. -/
def holds (b : Binary) (place : Int) (c : Nat) : Bool :=
  let (up, down) := b.scale place
  if b.significand % 2 = 0 then decide (b.low * up ≤ c * down ∧ c * down ≤ b.high * up)
  else decide (b.low * up < c * down ∧ c * down < b.high * up)

/-- The multiple of `10 ^ place` nearest to the float among those that round to it. -/
def nearest? (tie : Tie) (b : Binary) (place : Int) : Option Nat :=
  let (up, down) := b.scale place
  let value := 4 * b.significand * up
  let c := value / down
  match b.holds place c, b.holds place (c + 1) with
  | false, false => none
  | true, false => some c
  | false, true => some (c + 1)
  | true, true =>
    let before := value - c * down
    let after := (c + 1) * down - value
    if before < after then some c
    else if after < before then some (c + 1)
    else match tie with
      | .up => some (c + 1)
      | .even => some (if c % 2 = 0 then c else c + 1)

/-- The number of decimal digits of the float's whole part; for a float below one, minus the
number of zeros that follow its point. -/
def magnitude (b : Binary) : Int :=
  let scaled :=
    b.significand * Nat.pow 2 b.exponent.toNat * Nat.pow 10 330 / Nat.pow 2 (-b.exponent).toNat
  (Nat.toDigits 10 scaled).length - 330

end Binary

/-- Significant decimal digits and the place of the point: `0.d₁d₂… · 10 ^ point`. -/
structure Digits where
  /-- The digits, the first and the last of them not zero; none for zero itself. -/
  digits : List Char
  /-- How many of them stand in front of the point. -/
  point : Int
deriving DecidableEq, Repr

/-- The digits of `n · 10 ^ place`. -/
def Digits.ofNat (n : Nat) (place : Int) : Digits :=
  if n = 0 then ⟨[], 1⟩
  else
    let ds := Nat.toDigits 10 n
    ⟨(ds.reverse.dropWhile (· == '0')).reverse, ds.length + place⟩

/-- The shortest decimal that rounds to a finite float, its sign aside.  Seventeen digits always
suffice. -/
def shortest (tie : Tie) (b : Binary) : Digits :=
  if b.significand = 0 then .ofNat 0 0
  else
    let top := b.magnitude
    let found := (List.range 17).findSome? fun (n : Nat) =>
      let place := top - 1 - (n : Int)
      (b.nearest? tie place).map (Digits.ofNat · place)
    found.getD (.ofNat 0 0)

end StagedScript.Decimal

namespace StagedScript.Decimal

/-- The decisions of a float format. -/
structure Layout where
  /-- Which of two equally near shortest decimals is written. -/
  tie : Tie
  /-- Whether a number is written positionally, by the place of its point. -/
  positional : Int → Bool
  /-- What follows a whole number that is written positionally, by the place of its point. -/
  wholeTail : Int → String
  /-- The text of what is not a number. -/
  nan : String
  /-- The text of infinity, its sign aside. -/
  infinity : String

namespace Digits

/-- The number without an exponent; `tail` follows it when it is whole. -/
def positional (tail : String) (d : Digits) : String :=
  let zeros (n : Int) := List.replicate n.toNat '0'
  if d.digits = [] then "0" ++ tail
  else if d.point ≤ 0 then "0." ++ String.ofList (zeros (-d.point) ++ d.digits)
  else if d.digits.length ≤ d.point then
    String.ofList (d.digits ++ zeros (d.point - d.digits.length)) ++ tail
  else
    let (whole, fraction) := d.digits.splitAt d.point.toNat
    String.ofList whole ++ "." ++ String.ofList fraction

/-- The number with one digit in front of the point, and its exponent, which has a sign in
either direction. -/
def scientific (d : Digits) : String :=
  let sign := if 0 < d.point then "+" else ""
  let mantissa := match d.digits with
    | [] => "0"
    | [c] => c.toString
    | c :: cs => c.toString ++ "." ++ String.ofList cs
  mantissa ++ "e" ++ sign ++ toString (d.point - 1)

end Digits

/-- Whether a float carries a minus sign, as negative zero does. -/
def negative (x : Float) : Bool := decide (Nat.pow 2 63 ≤ x.toBits.toNat)

namespace Layout

/-- The text of a float in a layout. -/
def text (l : Layout) (x : Float) : String :=
  if x.isNaN then l.nan
  else
    let sign := if negative x then "-" else ""
    if x.isInf then sign ++ l.infinity
    else
      let d := shortest l.tie (.ofFloat x)
      sign ++ if l.positional d.point then d.positional (l.wholeTail d.point) else d.scientific

end Layout

end StagedScript.Decimal
