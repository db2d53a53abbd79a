import StagedScript.Run.Arithmetic
import StagedScript.Run.Basic
import StagedScript.Text.Search
import StagedScript.Text.Slice

/-!
# Operators

What the operators of expressions do with two values: numbers are computed with, sequences are
joined and repeated, templates are filled, and values are compared and searched.
-/

namespace StagedScript.Run

/-- The longest sequence that repetition makes; texts are counted in bytes. -/
def repeatLimit : Nat := Nat.pow 2 28

/-- A sequence of items, repeated so often. -/
def repeated {α : Type} (count : Nat) (items : List α) : List α :=
  if items.isEmpty then [] else (List.replicate count items).flatten

/-- Fails if a repetition would be too long. -/
def checkRepeat (length count : Nat) : Run Unit :=
  if length * count ≤ repeatLimit then return () else fail (.overflow .repetition)

/-- The value that is repeated and how often, in either order. -/
def repetition? : Value → Value → Option (Value × Int64)
  | .str i t, .int n => some (.str i t, n)
  | .tuple i vs, .int n => some (.tuple i vs, n)
  | .list r, .int n => some (.list r, n)
  | .int n, .str i t => some (.str i t, n)
  | .int n, .tuple i vs => some (.tuple i vs, n)
  | .int n, .list r => some (.list r, n)
  | _, _ => none

/-- A text, tuple or list repeated; a negative number of times counts as none. -/
def repeatValue (v : Value) (n : Int64) : Run Value := do
  let count := n.toInt.toNat
  match v with
  | .str _ text =>
    checkRepeat (Text.byteLength text.toList) count
    newStr (String.ofList (repeated count text.toList))
  | .tuple _ items =>
    checkRepeat items.length count
    newTuple (repeated count items)
  | .list r =>
    let items := (← view (·.listItems r)).toList
    checkRepeat items.length count
    newList (repeated count items)
  | v => failTyping (.operands BinaryOp.mul.text (← typeName v) "int")

/-- A value as an argument of a percent template. -/
def templateArgument (s : Store) (v : Value) : Percent.Argument :=
  let shape := s.shape v
  shape.argument fun _ => shape.repr

/-- The arguments that a value gives to a percent template: the items of a tuple, or the value
itself. -/
def templateArguments (s : Store) : Value → List Percent.Argument
  | .tuple _ items => items.map (templateArgument s)
  | v => [templateArgument s v]

/-- A percent template filled with the arguments that a value gives. -/
def format (template : String) (args : Value) : Run String := do
  let text ← ofExcept (Percent.fill template.toList (← view (templateArguments · args)))
  return String.ofList text

/-- Fails because an operator takes no values of these types. -/
def unsupported {α : Type} (op : BinaryOp) (l r : Value) : Run α := do
  failTyping (.operands op.text (← typeName l) (← typeName r))

/-- A binary operator. -/
def binary (op : BinaryOp) (l r : Value) : Run Value :=
  match Arithmetic.numbers? op l r with
  | some result => ofExcept result
  | none =>
    match op, l, r with
    | .add, .str _ a, .str _ b => newStr (a ++ b)
    | .add, .tuple _ xs, .tuple _ ys => newTuple (xs ++ ys)
    | .add, .list a, .list b => do
      let xs ← view (·.listItems a)
      let ys ← view (·.listItems b)
      newList (xs ++ ys).toList
    | .mul, l, r =>
      match repetition? l r with
      | some (v, n) => repeatValue v n
      | none => unsupported .mul l r
    | .mod, .str _ template, args => do newStr (← format template args)
    | op, l, r => unsupported op l r

/-- A unary operator. -/
def unary (op : UnaryOp) (v : Value) : Run Value := do
  match op with
  | .not => return .bool (!(← isTruthy v))
  | op => ofExcept (Arithmetic.unary op v (← typeName v))

/-- The remainder of a division, which is none where the quotient is none. -/
def remainder (a b : Int64) : Run Int64 :=
  if b = 0 ∨ (a = Int64.minValue ∧ b = -1) then abort .remainder else return a % b

/-- Whether an integer lies between the ends of a range. -/
def between (r : Range) (n : Int64) : Bool :=
  if 0 < r.step then r.start ≤ n && n < r.stop else n ≤ r.start && r.stop < n

/-- Whether an integer is an item of a range: it lies between the ends, a whole number of steps away
from the start. -/
def inRange (r : Range) (n : Int64) : Run Bool := do
  if between r n then return (← remainder (n - r.start) r.step) == 0 else return false

/-- Whether a value is equal to an item.  The items are compared with it in order, up to the first
one that is. -/
def anyEqual (v : Value) : List Value → Run Bool
  | [] => return false
  | item :: items => do if ← equal item v then return true else anyEqual v items

/-- Whether a value contains another: a text its parts, a dict its keys, a range its integers, a
sequence its items. -/
def contains (container item : Value) : Run Bool := do
  match container, item with
  | .str _ text, .str _ part => return Text.contains part.toList text.toList
  | .str _ _, item => failTyping (.needleNotText (← typeName item))
  | .dict r, .str _ key => return (← view (·.dictEntries r)).contains key
  | .dict _, _ => return false
  | .range r, item => item.int?.elim (return false) (inRange r)
  | container, item =>
    match ← view (·.sequenceItems? container) with
    | some items => anyEqual item items
    | none => failTyping (.notContainer (← typeName container))

/-- Whether an order is what a comparison asks for. -/
def holds (op : CompareOp) (o : Ordering) : Bool :=
  match op with
  | .lt => o == .lt
  | .gt => o == .gt
  | .le => o != .gt
  | _ => o != .lt

/-- A comparison. -/
def compare (op : CompareOp) (l r : Value) : Run Bool := do
  match op with
  | .eq => equal l r
  | .ne => return !(← equal l r)
  | .is => return l.isSame r
  | .isNot => return !l.isSame r
  | .isIn => contains r l
  | .notIn => return !(← contains r l)
  | op =>
    match ← order? l r with
    | some o => return holds op o
    | none => failTyping (.unordered op.text (← typeName l) (← typeName r))

end StagedScript.Run
