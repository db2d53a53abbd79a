import StagedScript.Record.Type
import StagedScript.Run.Binding
import StagedScript.Run.Eval
import StagedScript.Script.Basic
import StagedScript.Tree.Names

/-!
# Executing statements

A statement goes on to the next one, or leaves the loop or the function that it belongs to.  An
error carries the location of the innermost statement that it leaves.  How values are called is
given from outside, and so is the number of rounds after which a `while` loop is given up.
-/

namespace StagedScript

/-- How the execution of a statement ends. -/
inductive Flow where
  /-- With the statement that follows. -/
  | next
  /-- With the end of the call. -/
  | ret (v : Value)
  /-- With the end of the loop. -/
  | brk
  /-- With the next round of the loop. -/
  | cont

/-- Outside of functions and loops there is nothing to leave. -/
def Flow.stray? : Flow → Option Fault.Stray
  | next => none
  | ret _ => some .ret
  | brk => some .brk
  | cont => some .cont

namespace Run

/-- Checks that values can be unpacked to so many targets. -/
def checkUnpack (targets : Nat) (vs : List Value) : Run Unit :=
  if vs.length < targets then failDomain (.tooFewToUnpack targets vs.length)
  else if targets < vs.length then failDomain (.tooManyToUnpack targets)
  else return ()

/-- Executes a body for every item, until it leaves the loop.  An item that is a text of its own is
made at the start of its round. -/
def eachItem (body : Value → Run Flow) : List Member → Run Flow
  | [] => return .next
  | m :: ms => do
    match ← body (← m.take) with
    | .next | .cont => eachItem body ms
    | flow => return flow

/-- Executes a body as long as a test holds, until it leaves the loop. -/
def whileHolds (test : Run Bool) (body : Run Flow) : Nat → Run Flow
  | 0 => throw .outOfFuel
  | rounds + 1 => do
    if ← test then
      match ← body with
      | .next | .cont => whileHolds test body rounds
      | .brk => return .next
      | .ret v => return .ret v
    else return .next

/-- Applies decorators to a function, the innermost of them, which is the last, first. -/
def decorate (call : Caller) (decorators : List Value) (function : Value) : Run Value :=
  decorators.reverse.foldlM (fun v decorator => call decorator (.ofList [v])) function

/-- Makes the record type that an executed class body describes. -/
def newRecordType (name : String) (doc? : Option String) (body : Table Value) : Run Value := do
  let t ← ofExcept (RecordType.ofClass (← get) name body doc?)
  return .recordType (← make (·.newRecordType t))

variable (call : Caller) (f : Frame)

mutual

/-- Assigns a value to a target. -/
def assign : Expr → Value → Run Unit
  | .name _ x, v => bind f x v
  | .tuple _ ts, v | .list _ ts, v => do
    let vs ← items v
    checkUnpack ts.length vs
    assignAll ts vs
  | .attr _ o x, v => do setAttr (← eval call f o) x v
  | .subscript _ o i, v => do
    let container ← eval call f o
    setItem container (← eval call f i) v
  | _, _ => failTyping .notAssignable

/-- Assigns values to targets, one to each. -/
def assignAll : List Expr → List Value → Run Unit
  | t :: ts, v :: vs => do
    assign t v
    assignAll ts vs
  | _, _ => return ()

end

/-- Parameters with the values of their defaults. -/
def evalParams : List (Param Expr) → Run (List (Param Value))
  | [] => return []
  | p :: ps => do
    let kind ← match p.kind with
      | .plain none => pure (.plain none)
      | .plain (some e) => do pure (.plain (some (← eval call f e)))
      | .star => pure .star
      | .starStar => pure .starStar
    return ⟨p.name, kind⟩ :: (← evalParams ps)

/-- Makes the function of a definition, and applies its decorators.  First the decorators and then
the defaults are evaluated. -/
def define (span : Span) (d : Definition) : Run Value := do
  let decorators ← evalAll call f d.decorators
  let params ← evalParams call f d.params
  let captured ← view (f.capture · d.freeNames)
  let r ← make (·.newFunction ⟨d.name, d, params, f.globals, captured, f.origin span⟩)
  decorate call decorators (.function r)

/-- The base of a class has to be the builtin for it. -/
def checkBase (name : String) (base : Option Expr) : Run Unit := do
  match base with
  | none => failTyping (.notSlotBase name)
  | some e =>
    match ← eval call f e with
    | .builtin .slots => return ()
    | _ => failTyping (.notSlotBase name)

end Run

namespace Run

variable (call : Caller) (rounds : Nat)

mutual

/-- Executes a statement. -/
def exec (f : Frame) : Stmt → Run Flow
  | .expr _ e => do
    discard (eval call f e)
    return .next
  | .assign _ ts e => do
    let v ← eval call f e
    ts.forM (assign call f · v)
    return .next
  | .pass _ => return .next
  | .ret _ none => return .ret .none_
  | .ret _ (some e) => do return .ret (← eval call f e)
  | .brk _ => return .brk
  | .cont _ => return .cont
  | .cond _ test a b => do
    if ← isTruthy (← eval call f test) then execAll f a else execAll f b
  | .loop _ test body =>
    whileHolds (do isTruthy (← eval call f test)) (execAll f body) rounds
  | .each _ target iter body elseBody => do
    let ms ← members (← eval call f iter)
    let round (v : Value) : Run Flow := do
      assign call f target v
      execAll f body
    match ← eachItem round ms with
    | .brk => return .next
    | .ret v => return .ret v
    | _ => execAll f elseBody
  | .define span name decorators params body => do
    bind f name (← define call f span ⟨name, decorators, params, body⟩)
    return .next
  | .class_ _ name base body => do
    checkBase call f name base
    let locals ← make (·.newNamespace .empty)
    match ← execAll (f.inside locals) body with
    | .next =>
      bind f name (← newRecordType name (docstring? body) (← view (·.bindings locals)))
      return .next
    | flow => return flow

/-- Executes statements in order, up to one that does not go on to the next. -/
def execAll (f : Frame) : List Stmt → Run Flow
  | [] => return .next
  | s :: ss => do
    match ← locating (fun _ => f.location s.span) (exec f s) with
    | .next => execAll f ss
    | flow => return flow

end

/-- Executes statements outside of functions and loops. -/
def execTop (f : Frame) (body : List Stmt) : Run Unit := do
  match (← execAll call rounds f body).stray? with
  | none => return ()
  | some what => fail (.stray what)

/-- Executes the body of a function with arguments. -/
def callBody (g : Function) (args : Arguments) : Run Value := do
  let locals ← make (·.newNamespace (← bindArguments g args))
  let f : Frame := ⟨locals, g.globals, some g.captured, g.origin.source, g.origin.lineOffset⟩
  match ← execAll call rounds f g.definition.body with
  | .next => return .none_
  | .ret v => return v
  | .brk => fail (.stray .brk)
  | .cont => fail (.stray .cont)

end Run

/-- Executes a program.  It binds its names in the globals, or in another namespace if one is
given. -/
def Program.execute (call : Caller) (rounds : Nat) (p : Program) (globals : NamespaceRef)
    (extraction? : Option NamespaceRef) : Run Unit :=
  Run.execTop call rounds ⟨extraction?.getD globals, globals, none, p.source, p.lineOffset⟩ p.body

end StagedScript
