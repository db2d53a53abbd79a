import StagedScript.Decimal.Read
import StagedScript.Run.Attribute
import StagedScript.Run.Method
import StagedScript.Run.Operator

/-!
# The builtins

What the callables of the language itself do with their arguments.
-/

namespace StagedScript

/-- Floats that do not fit an integer are reported without a digit behind the point. -/
def wholeLayout : Decimal.Layout := { floatLayout with wholeTail := fun _ => "", nan := "NaN" }

/-- The bound on the magnitude of a float that is cut to an integer. -/
def intLimit : Float := 9.2e18

/-- The 64-bit integer that digits with a sign in front of them write. -/
def readInt? (cs : List Char) : Option Int64 :=
  let (negative, digits) := match cs with
    | '-' :: r => (true, r)
    | '+' :: r => (false, r)
    | r => (false, r)
  if digits.isEmpty || !digits.all Char.isDigit then none
  else
    let n : Int := Decimal.ofDigits digits
    (Arithmetic.fit .absolute (if negative then -n else n)).toOption

namespace Run

/-- The number of arguments by place of a builtin is not what it should be. -/
def failCount {α : Type} (b : Builtin) (expected got : Nat) : Run α :=
  fail (.arity b.name expected got)

/-- The argument of a builtin that takes at most one. -/
def optional (b : Builtin) : List Value → Run (Option Value)
  | [] => return none
  | [v] => return some v
  | args => failCount b 1 args.length

/-- The argument of a builtin that takes one. -/
def single (b : Builtin) : List Value → Run Value
  | [v] => return v
  | args => failCount b 1 args.length

/-- The items of an argument, none if it is left out. -/
def optionalItems (b : Builtin) (args : List Value) : Run (List Value) := do
  match ← optional b args with
  | some v => items v
  | none => return []

/-- The key and the value that an item of two gives to a dict. -/
def pair (v : Value) : Run (String × Value) := do
  match ← view (·.sequenceItems? v) with
  | some [.str _ key, v] => return (key, v)
  | _ => failTyping .notPairs

/-- The entries that a dict is made from: those of a dict, or pairs. -/
def dictSource (b : Builtin) (args : List Value) : Run (Table Value) := do
  match ← optional b args with
  | none => return .empty
  | some (.dict r) => view (·.dictEntries r)
  | some v => return .ofList (← (← items v).mapM pair)

/-- The integer that an argument of `range` is. -/
def rangeArgument (v : Value) : Run Int64 := do
  match v.int? with
  | some n => return n
  | none => failTyping (.notInteger (← typeName v))

/-- The range that arguments describe: a stop, or a start and a stop and perhaps a step. -/
def rangeOf (args : List Value) : Run Range := do
  let r ← match ← args.mapM rangeArgument with
    | [stop] => pure ⟨0, stop, 1⟩
    | [start, stop] => pure ⟨start, stop, 1⟩
    | [start, stop, step] => pure ⟨start, stop, step⟩
    | ns => failCount .range 3 ns.length
  if r.step = 0 then failDomain .zeroStep else return r

/-- A text that may be given by name, or its default. -/
def textOption (named : Table Value) (name default : String) : Run String := do
  match named.get? name with
  | none | some .none_ => return default
  | some (.str _ text) => return text
  | some v => failTyping (.optionNotText name (← typeName v))

/-- The text that `print` writes. -/
def printed (args : Arguments) : Run String := do
  let separator ← textOption args.named "sep" " "
  let stop ← textOption args.named "end" "\n"
  noKeywords Builtin.print.name ((args.named.erase "sep").erase "end")
  return separator.intercalate (← args.positional.mapM text) ++ stop

/-- The name of an attribute, from an argument. -/
def attributeName (b : Builtin) (v : Value) : Run String :=
  match v.str? with
  | some name => return name
  | none => failTyping (.attributeNameNotText b.name)

/-- The rows of columns, as many as the shortest of them has items. -/
def rows : List (List Value) → List (List Value)
  | [] => []
  | [c] => c.map fun v => [v]
  | c :: cs => List.zipWith (· :: ·) c (rows cs)

/-- The items of an argument and a start, which may be given by place or by name. -/
def withStart (b : Builtin) (args : Arguments) : Run (Value × Value) := do
  noKeywords b.name (args.named.erase "start")
  match args.positional, args.named.get? "start" with
  | [v], none => return (v, .int 0)
  | [v, start], none => return (v, start)
  | [v], some start => return (v, start)
  | args, _ => failCount b 2 args.length

/-- The items of a value, each behind its number from a start on. -/
def numbered (start : Int64) : List Value → Run (List Value)
  | [] => return []
  | v :: vs => return (← newTuple [.int start, v]) :: (← numbered (start + 1) vs)

/-- The item that comes first in an order among `best` and further items; of equal ones the first
is taken. -/
def extreme (op : CompareOp) (want : Ordering) (best : Value) : List Value → Run Value
  | [] => return best
  | v :: vs => do
    match ← order? v best with
    | some o => extreme op want (if o = want then v else best) vs
    | none => failTyping (.unordered op.text (← typeName v) (← typeName best))

/-- The first of the least or the greatest among the items of an argument, or among arguments. -/
def extremeOf (b : Builtin) (op : CompareOp) (want : Ordering) (args : List Value) : Run Value := do
  let vs ← match args with
    | [] => failCount b 1 0
    | [v] => items v
    | vs => pure vs
  match vs with
  | [] => failDomain (.emptySequence b.name)
  | v :: vs => extreme op want v vs

/-- The integer that a value is converted to. -/
def toInt (v : Value) : Run Int64 := do
  match v with
  | .float x =>
    let x := x.toFloat
    if x.isFinite && x.abs < intLimit then return x.toInt64
    else failDomain (.floatNotInt (wholeLayout.text x))
  | .str _ text =>
    match readInt? ((Text.trim text.toList).filter (· != '_')) with
    | some n => return n
    | none => failDomain (.badInteger (← repr v))
  | v =>
    match v.int? with
    | some n => return n
    | none => failTyping (.notNumber (← typeName v))

/-- The magnitude of a number. -/
def absolute (v : Value) : Run Value := do
  match v with
  | .float x => return .float x.abs
  | v =>
    match v.int? with
    | some n => return .int (← ofExcept (Arithmetic.fit .absolute n.toInt.natAbs))
    | none => failTyping (.absOperand (← typeName v))

/-- The accessor of the slot with an index. -/
def accessor (v : Value) : Run Value := do
  match v.int? with
  | some n => if 0 ≤ n.toInt then return .slot n.toInt.toNat else failDomain (.slotIndex (← repr v))
  | none => failDomain (.slotIndex (← repr v))

/-- Whether a builtin has parameters that are given by name. -/
def takesKeywords : Builtin → Bool
  | .print | .dict | .orderedDict | .enumerate | .sum => true
  | _ => false

/-- Calls a builtin with arguments of a kind that it takes; `sink` is where printed text goes. -/
def applyBuiltin (sink : Sink) (b : Builtin) (args : Arguments) : Run Value := do
  match b with
  | .len =>
    let v ← single b args.positional
    match ← view (·.size? v) with
    | some n => return .int (Int64.ofNat n)
    | none => failTyping (.noLength (← typeName v))
  | .tuple => newTuple (← optionalItems b args.positional)
  | .list => newList (← optionalItems b args.positional)
  | .dict | .orderedDict =>
    newDict ((← dictSource b args.positional).insertAll args.named.entries)
  | .range => return .range (← rangeOf args.positional)
  | .str =>
    match ← optional b args.positional with
    | some v => newStr (← text v)
    | none => newStr ""
  | .repr => newStr (← repr (← single b args.positional))
  | .print =>
    let text ← printed args
    modify (·.write sink text)
    return .none_
  | .getattr =>
    match args.positional with
    | [v, name] => getAttr v (← attributeName b name)
    | [v, name, other] => getAttrOr v (← attributeName b name) other
    | args => failCount b 3 args.length
  | .setattr =>
    match args.positional with
    | [target, name, v] =>
      setAttr target (← attributeName b name) v
      return .none_
    | args => failCount b 3 args.length
  | .zip => newList (← (rows (← args.positional.mapM items)).mapM newTuple)
  | .enumerate =>
    let (v, start) ← withStart b args
    match start.int? with
    | some n => newList (← numbered n (← items v))
    | none => failTyping .startNotInt
  | .min => extremeOf b .lt .lt args.positional
  | .max => extremeOf b .gt .gt args.positional
  | .sum =>
    let (v, start) ← withStart b args
    (← items v).foldlM (binary .add) start
  | .abs => absolute (← single b args.positional)
  | .int =>
    match ← optional b args.positional with
    | some v => return .int (← toInt v)
    | none => return .int 0
  | .slots => failTyping .slotBaseCalled
  | .slot => accessor (← single b args.positional)

/-- Calls a builtin. -/
def callBuiltin (sink : Sink) (b : Builtin) (args : Arguments) : Run Value := do
  if !takesKeywords b then noKeywords b.name args.named
  applyBuiltin sink b args

end Run

end StagedScript
