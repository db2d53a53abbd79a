import StagedScript.Script.Basic
import StagedScript.Table

/-!
# Unrolling loops

A `for` loop over a name whose items are counted beforehand is replaced by one copy of its body for
every item, each behind an assignment of the item to the target:

    v = xs[0]
    ...
    v = xs[1]
    ...

Nothing else of the tree changes.
-/

namespace StagedScript

/-- What is known beforehand about the items of a value. -/
inductive Extent where
  /-- Their number. -/
  | sized (n : Nat)
  /-- That it is not fixed for values of a type. -/
  | unsized (type : String)
deriving DecidableEq, Repr

/-- The statements that leave a loop or a round of it. -/
inductive LoopExit where
  | brk | cont
deriving DecidableEq, Repr

/-- The keyword of a statement that leaves a loop. -/
def LoopExit.text : LoopExit → String
  | brk => "break"
  | cont => "continue"

namespace UnrollError

/-- Why a loop cannot be unrolled. -/
inductive Cause where
  /-- It has an `else` clause. -/
  | hasElse
  /-- The number of items is not fixed. -/
  | unsized (name type : String)
  /-- Its body leaves it. -/
  | leaves (exit : LoopExit) (name : String)
deriving DecidableEq, Repr

/-- The message of a cause. -/
def Cause.message : Cause → String
  | hasElse => "cannot unroll a 'for' loop with an 'else' clause"
  | unsized name type => s!"cannot unroll over '{name}': a '{type}' has no fixed length"
  | leaves exit name => s!"'{exit.text}' would leave the unrolled loop over '{name}'"

end UnrollError

/-- A loop that cannot be unrolled. -/
structure UnrollError where
  /-- Where the loop, or the statement that leaves it, stands. -/
  location : Location
  /-- The reason. -/
  cause : UnrollError.Cause
deriving DecidableEq, Repr

/-- The message of an error, behind its location. -/
def UnrollError.message (e : UnrollError) : String := e.location.lead ++ e.cause.message

namespace Stmt

mutual

/-- The first statement within a loop's body that leaves the loop, where this statement stands in
the body. -/
def exit? : Stmt → Option (Span × LoopExit)
  | brk s => some (s, .brk)
  | cont s => some (s, .cont)
  | cond _ _ a b => (exitIn? a).or (exitIn? b)
  | each _ _ _ _ e => exitIn? e
  | _ => none

/-- The first statement within a loop's body that leaves the loop. -/
def exitIn? : List Stmt → Option (Span × LoopExit)
  | [] => none
  | s :: ss => (exit? s).or (exitIn? ss)

end

end Stmt

namespace Unroll

/-- The assignment of an item to the target of a loop. -/
def take (span : Span) (target : Expr) (name : String) (i : Nat) : Stmt :=
  .assign span [target] (.subscript span (.name span name) (.int span (Int64.ofNat i)))

/-- The copies of a body for the items of a loop. -/
def rounds (span : Span) (target : Expr) (name : String) (n : Nat) (body : List Stmt) : List Stmt :=
  (List.range n).flatMap fun i => take span target name i :: body

/-- The number of rounds of a loop that can be unrolled. -/
def count (span : Span) (name : String) (extent : Extent) (body elseBody : List Stmt) :
    Except (Span × UnrollError.Cause) Nat :=
  if !elseBody.isEmpty then .error (span, .hasElse)
  else
    match extent with
    | .unsized type => .error (span, .unsized name type)
    | .sized n =>
      match Stmt.exitIn? body with
      | some (span, exit) => .error (span, .leaves exit name)
      | none => .ok n

/-- The name that a loop runs over and what is known about it. -/
def known? (known : Table Extent) : Expr → Option (String × Extent)
  | .name _ x => (known.get? x).map (x, ·)
  | _ => none

mutual

/-- The statements that a statement is replaced by. -/
def stmt (known : Table Extent) : Stmt → Except (Span × UnrollError.Cause) (List Stmt)
  | .each span target iter body elseBody =>
    match known? known iter with
    | some (name, extent) => do
      let n ← count span name extent body elseBody
      if n = 0 then return []
      return rounds span target name n (← stmts known body)
    | none => do
      let body ← stmts known body
      return [.each span target iter body (← stmts known elseBody)]
  | .loop span test body => do return [.loop span test (← stmts known body)]
  | .cond span test a b => do
    let a ← stmts known a
    return [.cond span test a (← stmts known b)]
  | .define span name decorators params body => do
    return [.define span name decorators params (← stmts known body)]
  | .class_ span name base body => do return [.class_ span name base (← stmts known body)]
  | s => return [s]

/-- The statements that statements are replaced by. -/
def stmts (known : Table Extent) : List Stmt → Except (Span × UnrollError.Cause) (List Stmt)
  | [] => return []
  | s :: ss => do
    let front ← stmt known s
    return front ++ (← stmts known ss)

end

end Unroll

/-- A change of a script that may be refused. -/
abbrev Rewriting := EStateM UnrollError Script Unit

/-- Unrolls the loops of a script over known names.  The statements are taken out of the script
while they are changed, so that a script that is refused is left without any. -/
def Script.unroll (known : Table Extent) : Rewriting := do
  let script ← get
  set { script with body := [] }
  match Unroll.stmts known script.body with
  | .ok body => set { script with body }
  | .error (span, cause) => throw ⟨script.location span, cause⟩

end StagedScript
