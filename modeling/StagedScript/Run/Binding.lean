import StagedScript.Run.Basic
import StagedScript.Tree.Names

/-!
# Binding arguments to parameters

Arguments by place fill the plain parameters in order and then the one that takes all further
ones.  Arguments by name fill the plain parameters that are left, or go to the parameter that takes
all others.  What is not filled has its default.
-/

namespace StagedScript

/-- What a parameter is bound to. -/
inductive Filling where
  /-- One value. -/
  | value (v : Value)
  /-- All further arguments by place. -/
  | rest (items : List Value)
  /-- All further arguments by name. -/
  | options (entries : Table Value)

namespace Filling

/-- The value that a parameter is bound to: further arguments make a tuple or a dict. -/
def toValue : Filling → Run Value
  | value v => return v
  | rest items => Run.newTuple items
  | options entries => Run.newDict entries

end Filling

namespace Function

/-- The names of the plain parameters. -/
def plainNames (f : Function) : List String := Param.names (f.params.filter Param.isPlain)

/-- Checks that there are no more arguments by place than parameters for them. -/
def checkPlaces (f : Function) (count : Nat) : Except Fault Unit :=
  if f.params.any Param.isStar || count ≤ f.plainNames.length then .ok ()
  else .error (.arity f.name f.plainNames.length count)

/-- Checks that arguments by name fill parameters that no argument by place fills, the first
`count` plain parameters being filled. -/
def checkNames (f : Function) (count : Nat) : List (String × Value) → Except Fault Unit
  | [] => .ok ()
  | (key, _) :: es =>
    if (f.plainNames.take count).contains key then .error (.typing (.manyValues f.name key))
    else if f.plainNames.contains key || f.params.any Param.isStarStar then checkNames f count es
    else .error (.typing (.unknownKeyword f.name key))

/-- The further arguments by name. -/
def options (f : Function) (named : Table Value) : Table Value :=
  named.filter fun key _ => !f.plainNames.contains key

/-- What parameters are bound to; `places` are the arguments by place that are left for them. -/
def fillings (f : Function) (args : Arguments) :
    List (Param Value) → List Value → Except Fault (List (String × Filling))
  | [], _ => .ok []
  | p :: ps, places =>
    match p.kind, places with
    | .star, places => do
      let rest := args.positional.drop f.plainNames.length
      return (p.name, .rest rest) :: (← fillings f args ps places)
    | .starStar, places => do
      return (p.name, .options (f.options args.named)) :: (← fillings f args ps places)
    | .plain _, v :: places => do return (p.name, .value v) :: (← fillings f args ps places)
    | .plain default?, [] =>
      match (args.named.get? p.name).or default? with
      | some v => do return (p.name, .value v) :: (← fillings f args ps [])
      | none => .error (.typing (.missingArgument f.name p.name))

/-- What the parameters of a function are bound to, in the order of their declaration. -/
def bindArguments (f : Function) (args : Arguments) : Except Fault (List (String × Filling)) := do
  f.checkPlaces args.positional.length
  f.checkNames args.positional.length args.named.entries
  f.fillings args f.params args.positional

end Function

/-- The names that a function's body starts with. -/
def Run.bindArguments (f : Function) (args : Arguments) : Run (Table Value) := do
  let fillings ← ofExcept (f.bindArguments args)
  return .ofList (← fillings.mapM fun (name, filling) => return (name, ← filling.toValue))

end StagedScript
