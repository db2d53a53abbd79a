import StagedScript.Syntax.Cursor
import StagedScript.Tree.Expr

/-!
# Targets of assignments

Names, attributes, subscripts, and tuples and lists of targets that are not empty can be assigned
to.
-/

namespace StagedScript.Expr

/-- What an expression that is no target is called. -/
def unassignable : Expr → SyntaxError.Unassignable
  | int _ _ | float _ _ | str _ _ | bool _ _ | none_ _ => .literal
  | call _ _ _ => .call
  | tuple _ _ => .emptyTuple
  | list _ _ => .emptyList
  | compare _ _ _ _ => .comparison
  | _ => .expression

mutual

/-- The first part of an expression that keeps it from being a target. -/
def targetFault? : Expr → Option SyntaxError
  | name _ _ | attr _ _ _ | subscript _ _ _ => Option.none
  | tuple _ (e :: es) => targetFaults? (e :: es)
  | list _ (e :: es) => targetFaults? (e :: es)
  | e => some ⟨e.span, .notTarget e.unassignable⟩

/-- The first such part in a list of expressions. -/
def targetFaults? : List Expr → Option SyntaxError
  | [] => Option.none
  | e :: es => (targetFault? e).or (targetFaults? es)

end

/-- Whether an expression can be assigned to with an operator. -/
def isAugmentedTarget : Expr → Bool
  | name _ _ | attr _ _ _ | subscript _ _ _ => true
  | _ => false

end StagedScript.Expr
