import StagedScript.Fault.Basic
import StagedScript.Tree.Expr
import StagedScript.Value.Basic
import StagedScript.Width

/-!
# Arithmetic

Integers have 64 bits: an operation gives the exact result where that fits, and an error where it
does not.  Division rounds to the floor and a remainder has the sign of the divisor.  Floats follow
IEEE 754, but division by zero is an error.
-/

namespace StagedScript.Arithmetic

/-- An integer as a 64-bit one, where it fits. -/
def fit (what : Fault.Overflow) (n : Int) : Except Fault Int64 :=
  if fits n then .ok (Int64.ofInt n) else .error (.overflow what)

/-- The least integer. -/
def least : Int := Int64.minValue.toInt

/-- The exponents that are taken at all. -/
def exponentLimit : Int := Int.pow 2 32

/-- An integer to a power that is not negative.  From the exponent 64 on only zero and the units
have powers that fit. -/
def power (a b : Int) : Except Fault Int64 :=
  if exponentLimit ≤ b then .error (.overflow .exponentiation)
  else if a = 0 ∨ a = 1 then fit .exponentiation (if b = 0 then 1 else a)
  else if a = -1 then fit .exponentiation (if b % 2 = 0 then 1 else -1)
  else if 64 ≤ b then .error (.overflow .exponentiation)
  else fit .exponentiation (Int.pow a b.toNat)

/-- The quotient of two integers, rounded to the floor. -/
def floorDiv (a b : Int) : Except Fault Int64 :=
  if b = 0 then .error .divisionByZero else fit .division (a.fdiv b)

/-- The remainder of two integers, with the sign of the divisor.  It is refused where the quotient
does not fit. -/
def modulo (a b : Int) : Except Fault Int64 :=
  if b = 0 then .error .divisionByZero
  else if a = least ∧ b = -1 then .error (.overflow .modulo)
  else fit .modulo (a.fmod b)

/-- An integer shifted to the left. -/
def shiftLeft (a b : Int) : Except Fault Int64 :=
  if b < 0 then .error (.domain .negativeShift)
  else if 64 ≤ b then if a = 0 then .ok 0 else .error (.overflow .leftShift)
  else fit .leftShift (a * Int.pow 2 b.toNat)

/-- An integer shifted to the right; a shift by more than its width leaves its sign. -/
def shiftRight (a b : Int) : Except Fault Int64 :=
  if b < 0 then .error (.domain .negativeShift)
  else .ok (Int64.ofInt (a >>> (min b 63).toNat))

/-- An operator on two integers. -/
def ints (op : BinaryOp) (a b : Int64) : Except Fault Value :=
  let x := a.toInt
  let y := b.toInt
  match op with
  | .add => .int <$> fit .addition (x + y)
  | .sub => .int <$> fit .subtraction (x - y)
  | .mul => .int <$> fit .multiplication (x * y)
  | .div =>
    if y = 0 then .error .divisionByZero else .ok (.float (.ofFloat (a.toFloat / b.toFloat)))
  | .floorDiv => .int <$> floorDiv x y
  | .mod => .int <$> modulo x y
  | .pow => if y < 0 then .ok (.float (.ofFloat (a.toFloat.pow b.toFloat))) else .int <$> power x y
  | .bitAnd => .ok (.int (a &&& b))
  | .bitOr => .ok (.int (a ||| b))
  | .bitXor => .ok (.int (a ^^^ b))
  | .shiftLeft => .int <$> shiftLeft x y
  | .shiftRight => .int <$> shiftRight x y

/-- An operator on two floats. -/
def floats (op : BinaryOp) (x y : Binary64) : Except Fault Binary64 :=
  let dividing (r : Binary64) := if y.toFloat == 0 then .error .divisionByZero else .ok r
  match op with
  | .add => .ok (x.add y)
  | .sub => .ok (x.sub y)
  | .mul => .ok (x.mul y)
  | .div => dividing (x.div y)
  | .floorDiv => dividing (x.div y).floor
  | .mod => dividing (x.sub (y.mul (x.div y).floor))
  | .pow => .ok (x.pow y)
  | op => .error (.typing (.operands op.text "float" "float"))

/-- The float that a value is, integers and truth values included. -/
def float? : Value → Option Binary64
  | .float x => some x
  | v => v.int?.map fun n => .ofFloat n.toFloat

/-- An operator on two numbers; nothing if one of the values is none. -/
def numbers? (op : BinaryOp) (l r : Value) : Option (Except Fault Value) :=
  match l.int?, r.int? with
  | some a, some b => some (ints op a b)
  | _, _ =>
    match float? l, float? r with
    | some x, some y => some (.float <$> floats op x y)
    | _, _ => none

/-- An operator on one number; `type` is the name of the value's type. -/
def unary (op : UnaryOp) (v : Value) (type : String) : Except Fault Value :=
  match op, v with
  | .neg, .float x => .ok (.float x.neg)
  | .pos, .float x => .ok (.float x)
  | op, v =>
    match v.int? with
    | none => .error (.typing (.operand type))
    | some n =>
      match op with
      | .neg => .int <$> fit .negation (-n.toInt)
      | .bitNot => .ok (.int (~~~n))
      | _ => .ok (.int n)

end StagedScript.Arithmetic
