import StagedScript.Width

/-!
# Ranges

The integers from a start towards a stop in equal steps.  Ranges are at home in the 64-bit
integers, but they are measured in words of 128 bits: the distance of two integers, and the product
of a step and an index, need not be integers of the language.
-/

namespace StagedScript

/-- An integer as a word of 128 bits. -/
def wide (n : Int64) : BitVec 128 := n.toBitVec.signExtend 128

/-- An arithmetic progression of 64-bit integers. -/
structure Range where
  /-- The first item. -/
  start : Int64
  /-- What the items stay in front of. -/
  stop : Int64
  /-- The difference between an item and the next. -/
  step : Int64
deriving DecidableEq, Repr, Inhabited

namespace Range

/-- The distance from the start to the stop in the direction of the step. -/
def extent (r : Range) : BitVec 128 :=
  if 0 < r.step then wide r.stop - wide r.start else wide r.start - wide r.stop

/-- The length of a step. -/
def stride (r : Range) : BitVec 128 := .ofNat 128 r.step.toInt.natAbs

/-- How many steps begin within the extent, if the stop lies ahead. -/
def count (r : Range) : BitVec 128 := (r.extent - 1) / r.stride + 1

/-- How many items there are, as far as that is a number of 64 bits. -/
def size (r : Range) : Nat :=
  if r.extent.toInt ≤ 0 then 0 else min r.count.toNat (UInt64.size - 1)

/-- Whether there are no items. -/
def isEmpty (r : Range) : Bool := r.size == 0

/-- What lies so many steps behind the start. -/
def behind (r : Range) (i : Nat) : BitVec 128 := wide r.start + wide r.step * .ofNat 128 i

/-- The item at an index, if it is an integer of the language. -/
def get? (r : Range) (i : Nat) : Option Int64 :=
  if r.size ≤ i then none
  else
    let n := (r.behind i).toInt
    if fits n then some (Int64.ofInt n) else none

/-- The items in order. -/
def items (r : Range) : List Int64 := (List.range r.size).filterMap r.get?

end Range

end StagedScript
