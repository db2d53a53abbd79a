/-!
# Floats and their signs

The floats of the language are the 64-bit ones of IEEE 754, and are told from each other by their
bits.  Zero has a sign that is seen that way, and so has NaN: an operation that has no result gives
a NaN with its sign set, further operations hand the NaN on, and negation turns its sign.
-/

namespace StagedScript

/-- A float, given by its bits. -/
structure Binary64 where
  /-- The sign, the exponent and the fraction. -/
  bits : UInt64
deriving DecidableEq, Repr, Inhabited

namespace Binary64

/-- The bit of the sign. -/
def signBit : UInt64 := 0x8000000000000000

/-- The NaN of an operation that has no result. -/
def invalid : Binary64 := ⟨0xFFF8000000000000⟩

/-- The number that a float is; all NaNs are one. -/
def toFloat (x : Binary64) : Float := Float.ofBits x.bits

/-- The bits of a number; of all NaNs this is the one of an invalid operation. -/
def ofFloat (x : Float) : Binary64 := if x.isNaN then invalid else ⟨x.toBits⟩

/-- Whether a float is no number. -/
def isNaN (x : Binary64) : Bool := x.toFloat.isNaN

/-- Whether the sign is set. -/
def isNegative (x : Binary64) : Bool := x.bits &&& signBit != 0

/-- The float with the other sign. -/
def neg (x : Binary64) : Binary64 := ⟨x.bits ^^^ signBit⟩

/-- The float without its sign. -/
def abs (x : Binary64) : Binary64 := ⟨x.bits &&& ~~~signBit⟩

/-- An operation on one float; a NaN stays as it is. -/
def lift (f : Float → Float) (x : Binary64) : Binary64 :=
  let r := f x.toFloat
  if r.isNaN && x.isNaN then x else ofFloat r

/-- An operation on two floats.  If it gives no number, the first NaN among them is the result. -/
def lift₂ (f : Float → Float → Float) (x y : Binary64) : Binary64 :=
  let r := f x.toFloat y.toFloat
  if r.isNaN then if x.isNaN then x else if y.isNaN then y else invalid else ofFloat r

/-- The sum. -/
def add : Binary64 → Binary64 → Binary64 := lift₂ (· + ·)

/-- The difference. -/
def sub : Binary64 → Binary64 → Binary64 := lift₂ (· - ·)

/-- The product. -/
def mul : Binary64 → Binary64 → Binary64 := lift₂ (· * ·)

/-- The quotient. -/
def div : Binary64 → Binary64 → Binary64 := lift₂ (· / ·)

/-- The greatest whole number that is not above. -/
def floor : Binary64 → Binary64 := lift Float.floor

/-- Whether a number is whole and odd. -/
def isOdd (x : Float) : Bool := x.isFinite && x.floor == x && (x / 2).floor != x / 2

/-- The power.  An odd power turns the sign of a negative NaN. -/
def pow (x y : Binary64) : Binary64 :=
  if x.isNaN && x.isNegative && isOdd y.toFloat then x.neg else lift₂ Float.pow x y

end Binary64

end StagedScript
