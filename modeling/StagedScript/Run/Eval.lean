import StagedScript.Run.Attribute
import StagedScript.Run.Frame
import StagedScript.Run.Item
import StagedScript.Run.Operator

/-!
# Evaluating expressions

Operands and arguments are evaluated from the left to the right.  How values are called is given
from outside, so that evaluation is a recursion over the expression alone.
-/

namespace StagedScript

/-- Arguments with a further one by name; no name is given twice. -/
def Arguments.addNamed (args : Arguments) (name : String) (v : Value) : Except Fault Arguments :=
  if args.named.contains name then .error (.typing (.repeatedKeyword name))
  else .ok { args with named := args.named.insert name v }

/-- Arguments with further ones by place. -/
def Arguments.addPlaces (args : Arguments) (vs : List Value) : Arguments :=
  { args with positional := args.positional ++ vs }

namespace Run

/-- Arguments with the entries of a mapping, each by its name. -/
def addMapping (args : Arguments) (v : Value) : Run Arguments := do
  match v with
  | .dict r =>
    ofExcept ((← view (·.dictEntries r)).entries.foldlM (fun args (k, v) => args.addNamed k v) args)
  | v => failTyping (.notMapping (← typeName v))

/-- Arguments with a further one. -/
def addArgument (args : Arguments) (role : ArgRole) (v : Value) : Run Arguments := do
  match role with
  | .positional => return args.addPlaces [v]
  | .star => return args.addPlaces (← items v)
  | .keyword name => ofExcept (args.addNamed name v)
  | .starStar => addMapping args v

variable (call : Caller) (f : Frame)

mutual

/-- The value of an expression. -/
def eval : Expr → Run Value
  | .int _ n => return .int n
  | .float _ x => return .float (.ofFloat x)
  | .str _ text => newStr text
  | .bool _ b => return .bool b
  | .none_ _ => return .none_
  | .name _ x => lookup f x
  | .tuple _ es => do newTuple (← evalAll es)
  | .list _ es => do newList (← evalAll es)
  | .dict _ es => do newDict (.ofList (← evalEntries es))
  | .binary _ op l r => do
    let a ← eval l
    binary op a (← eval r)
  | .unary _ op e => do unary op (← eval e)
  | .logical _ op l r => do
    let a ← eval l
    match op, ← isTruthy a with
    | .conj, false => return a
    | .disj, true => return a
    | _, _ => eval r
  | .compare _ op l r => do
    let a ← eval l
    return .bool (← compare op a (← eval r))
  | .call _ g args => do
    let callee ← eval g
    call callee (← evalArgs (.ofList []) args)
  | .attr _ o x => do getAttr (← eval o) x
  | .subscript _ o i => do
    let container ← eval o
    getItem container (← eval i)

/-- The values of expressions. -/
def evalAll : List Expr → Run (List Value)
  | [] => return []
  | e :: es => do
    let v ← eval e
    return v :: (← evalAll es)

/-- The entries of a dict. -/
def evalEntries : List (Expr × Expr) → Run (List (String × Value))
  | [] => return []
  | (k, e) :: es => do
    let key ← dictKey (← eval k)
    let v ← eval e
    return (key, v) :: (← evalEntries es)

/-- Arguments with further ones. -/
def evalArgs (before : Arguments) : List (Arg Expr) → Run Arguments
  | [] => return before
  | ⟨role, e⟩ :: args => do
    let v ← eval e
    evalArgs (← addArgument before role v) args

end

end Run

end StagedScript
