import StagedScript.Run.Call

/-!
# Execution that knows where it is

The same execution, told at every point where it is: at the place of the innermost statement that is
being executed.  An error takes this place as it is raised and keeps it, whatever it leaves on its
way; statements do not look at the errors that leave them.  Only the natives of a host, which are
not executed step by step, are not told: an error that such a native ends with and that has been
raised in no statement of its calls is given the place of the statement which called the native.
-/

namespace StagedScript

/-- The computation with its errors that have no place yet raised at one. -/
def Run.leaving {α : Type} (here : Option Location) (x : Run α) : Run α := fun s =>
  match x s with
  | .error (.error e) s => .error (.error ⟨e.location?.or here, e.cause⟩) s
  | r => r

/-- A computation that is told the place of the innermost statement that is being executed, if there
is one. -/
def Sited (α : Type) : Type := Option Location → Run α

namespace Sited

variable {α : Type}

instance : Monad Sited where
  pure a := fun _ => pure a
  bind x k := fun here => x here >>= fun a => k a here

/-- An operation that executes no statement.  Its errors are raised here. -/
def perform (x : Run α) : Sited α := fun here s =>
  match x s with
  | .error (.error e) s => .error (.error ⟨here, e.cause⟩) s
  | r => r

instance : MonadLift Run Sited where
  monadLift := perform

/-- The execution of a statement at a place. -/
def within (location : Location) (x : Sited α) : Sited α := fun _ => x (some location)

/-- A way to call values. -/
abbrev Caller := Value → Arguments → Sited Value

section Expressions

variable (call : Caller) (f : Frame)

mutual

/-- The value of an expression. -/
def eval : Expr → Sited Value
  | .int _ n => return .int n
  | .float _ x => return .float (.ofFloat x)
  | .str _ text => Run.newStr text
  | .bool _ b => return .bool b
  | .none_ _ => return .none_
  | .name _ x => Run.lookup f x
  | .tuple _ es => do Run.newTuple (← evalAll es)
  | .list _ es => do Run.newList (← evalAll es)
  | .dict _ es => do Run.newDict (.ofList (← evalEntries es))
  | .binary _ op l r => do
    let a ← eval l
    Run.binary op a (← eval r)
  | .unary _ op e => do Run.unary op (← eval e)
  | .logical _ op l r => do
    let a ← eval l
    match op, ← Run.isTruthy a with
    | .conj, false => return a
    | .disj, true => return a
    | _, _ => eval r
  | .compare _ op l r => do
    let a ← eval l
    return .bool (← Run.compare op a (← eval r))
  | .call _ g args => do
    let callee ← eval g
    call callee (← evalArgs (.ofList []) args)
  | .attr _ o x => do Run.getAttr (← eval o) x
  | .subscript _ o i => do
    let container ← eval o
    Run.getItem container (← eval i)

/-- The values of expressions. -/
def evalAll : List Expr → Sited (List Value)
  | [] => return []
  | e :: es => do
    let v ← eval e
    return v :: (← evalAll es)

/-- The entries of a dict. -/
def evalEntries : List (Expr × Expr) → Sited (List (String × Value))
  | [] => return []
  | (k, e) :: es => do
    let key ← Run.dictKey (← eval k)
    let v ← eval e
    return (key, v) :: (← evalEntries es)

/-- Arguments with further ones. -/
def evalArgs (before : Arguments) : List (Arg Expr) → Sited Arguments
  | [] => return before
  | ⟨role, e⟩ :: args => do
    let v ← eval e
    evalArgs (← Run.addArgument before role v) args

end

mutual

/-- Assigns a value to a target. -/
def assign : Expr → Value → Sited Unit
  | .name _ x, v => Run.bind f x v
  | .tuple _ ts, v | .list _ ts, v => do
    let vs ← Run.items v
    Run.checkUnpack ts.length vs
    assignAll ts vs
  | .attr _ o x, v => do Run.setAttr (← eval call f o) x v
  | .subscript _ o i, v => do
    let container ← eval call f o
    Run.setItem container (← eval call f i) v
  | _, _ => (Run.failTyping .notAssignable : Run Unit)

/-- Assigns values to targets, one to each. -/
def assignAll : List Expr → List Value → Sited Unit
  | t :: ts, v :: vs => do
    assign t v
    assignAll ts vs
  | _, _ => return ()

end

/-- Parameters with the values of their defaults. -/
def evalParams : List (Param Expr) → Sited (List (Param Value))
  | [] => return []
  | p :: ps => do
    let kind ← match p.kind with
      | .plain none => pure (.plain none)
      | .plain (some e) => do pure (.plain (some (← eval call f e)))
      | .star => pure .star
      | .starStar => pure .starStar
    return ⟨p.name, kind⟩ :: (← evalParams ps)

/-- Makes the function of a definition, and applies its decorators. -/
def define (span : Span) (d : Definition) : Sited Value := do
  let decorators ← evalAll call f d.decorators
  let params ← evalParams call f d.params
  let captured ← Run.view (f.capture · d.freeNames)
  let r ← Run.make (·.newFunction ⟨d.name, d, params, f.globals, captured, f.origin span⟩)
  decorators.reverse.foldlM (fun v decorator => call decorator (.ofList [v])) (.function r)

/-- The base of a class has to be the builtin for it. -/
def checkBase (name : String) (base : Option Expr) : Sited Unit := do
  match base with
  | none => (Run.failTyping (.notSlotBase name) : Run Unit)
  | some e =>
    match ← eval call f e with
    | .builtin .slots => return ()
    | _ => (Run.failTyping (.notSlotBase name) : Run Unit)

end Expressions

/-- Executes a body for every item, until it leaves the loop. -/
def eachItem (body : Value → Sited Flow) : List Run.Member → Sited Flow
  | [] => return .next
  | m :: ms => do
    match ← body (← m.take) with
    | .next | .cont => eachItem body ms
    | flow => return flow

/-- Executes a body as long as a test holds, until it leaves the loop. -/
def whileHolds (test : Sited Bool) (body : Sited Flow) : Nat → Sited Flow
  | 0 => (throw .outOfFuel : Run Flow)
  | rounds + 1 => do
    if ← test then
      match ← body with
      | .next | .cont => whileHolds test body rounds
      | .brk => return .next
      | .ret v => return .ret v
    else return .next

section Statements

variable (call : Caller) (rounds : Nat)

mutual

/-- Executes a statement. -/
def exec (f : Frame) : Stmt → Sited Flow
  | .expr _ e => do
    discard (eval call f e)
    return .next
  | .assign _ ts e => do
    let v ← eval call f e
    ts.forM (assign call f · v)
    return .next
  | .pass _ => return .next
  | .ret _ none => return .ret .none_
  | .ret _ (some e) => do return .ret (← eval call f e)
  | .brk _ => return .brk
  | .cont _ => return .cont
  | .cond _ test a b => do
    if ← Run.isTruthy (← eval call f test) then execAll f a else execAll f b
  | .loop _ test body =>
    whileHolds (do Run.isTruthy (← eval call f test)) (execAll f body) rounds
  | .each _ target iter body elseBody => do
    let ms ← Run.members (← eval call f iter)
    let round (v : Value) : Sited Flow := do
      assign call f target v
      execAll f body
    match ← eachItem round ms with
    | .brk => return .next
    | .ret v => return .ret v
    | _ => execAll f elseBody
  | .define span name decorators params body => do
    Run.bind f name (← define call f span ⟨name, decorators, params, body⟩)
    return .next
  | .class_ _ name base body => do
    checkBase call f name base
    let locals ← Run.make (·.newNamespace .empty)
    match ← execAll (f.inside locals) body with
    | .next =>
      Run.bind f name
        (← Run.newRecordType name (docstring? body) (← Run.view (·.bindings locals)))
      return .next
    | flow => return flow

/-- Executes statements in order, each of them within its place. -/
def execAll (f : Frame) : List Stmt → Sited Flow
  | [] => return .next
  | s :: ss => do
    match ← within (f.location s.span) (exec f s) with
    | .next => execAll f ss
    | flow => return flow

end

/-- Executes statements outside of functions and loops. -/
def execTop (f : Frame) (body : List Stmt) : Sited Unit := do
  match (← execAll call rounds f body).stray? with
  | none => return ()
  | some what => (Run.fail (.stray what) : Run Unit)

/-- Executes the body of a function with arguments. -/
def callBody (g : Function) (args : Arguments) : Sited Value := do
  let locals ← Run.make (·.newNamespace (← Run.bindArguments g args))
  let f : Frame := ⟨locals, g.globals, some g.captured, g.origin.source, g.origin.lineOffset⟩
  match ← execAll call rounds f g.definition.body with
  | .next => return .none_
  | .ret v => return v
  | .brk => (Run.fail (.stray .brk) : Run Value)
  | .cont => (Run.fail (.stray .cont) : Run Value)

/-- Executes a program. -/
def execute (p : Program) (globals : NamespaceRef) (extraction? : Option NamespaceRef) :
    Sited Unit :=
  execTop call rounds ⟨extraction?.getD globals, globals, none, p.source, p.lineOffset⟩ p.body

/-- Makes the function of a closure anew. -/
def make (c : Closure) : Sited Value := do
  let script ← Unroll.toRun (Specialize.ofExcept .unroll c.unrolled)
  let program ←
    Unroll.toRun (Specialize.ofExcept .compile (Program.ofScript script script.source.label))
  let extraction ← Run.make (·.newNamespace .empty)
  execute call rounds program c.function.globals (some extraction)
  match (← Run.view (·.bindings extraction)).get? SpecializeError.makerName with
  | none => Unroll.toRun (throw .noMaker)
  | some maker => call maker ⟨[], c.vars⟩

/-- Makes a function anew with values for free names and the loops over these names unrolled. -/
def unrollOver (names : Table Value) (v : Value) : Sited Value := do
  let c ← Unroll.toRun (Closure.ofFunction v names)
  let known ← Run.view (c.known · fun name => names.contains name && name != unrollName)
  make call rounds (c.unrolling known)

end Statements

/-- Calls a native callable of a host.  No statement is executed as it makes its own calls, so it
may see errors without a place; those that it ends with are raised here. -/
def callHost (host : Host) (call : Caller) (name : String) (args : Arguments) : Sited Value :=
  fun here => Run.leaving here (host name (fun v args => call v args none) args)

/-- Calls a native callable. -/
def callNative (host : Host) (call : Caller) (rounds : Nat) (kind : Native)
    (held : List (String × Value)) (args : Arguments) : Sited Value :=
  match kind, args.positional with
  | .unrolling, [] => Run.newNative .unroller args.named.entries
  | .passing, [] => Run.newNative .passer []
  | .unrolling, _ | .passing, _ => (Unroll.failPlaces : Run Value)
  | .unroller, [v] => unrollOver call rounds (.ofList held) v
  | .passer, [v] => return v
  | .unroller, vs | .passer, vs => (Unroll.failCount vs.length : Run Value)
  | .host name, _ => callHost host call name args

/-- Calls a value. -/
def callIn (host : Host) : Nat → Machine → Caller
  | 0, _ => fun _ _ => (throw .outOfFuel : Run Value)
  | fuel + 1, m => fun callee args => do
    match callee with
    | .function r =>
      if Machine.maxDepth ≤ m.depth then (Run.fail (.depth Machine.maxDepth) : Run Value)
      else
        match ← Run.view (·.getFunction? r) with
        | some f => callBody (callIn host fuel m.deeper) fuel f args
        | none => (do Run.failTyping (.notCallable (← Run.typeName callee)) : Run Value)
    | .builtin b => Run.callBuiltin m.sink b args
    | .native _ kind held => callNative host (callIn host fuel m) fuel kind held args
    | .recordType r => return .record (← Run.instantiate r args)
    | .method _ method => Run.callMethod method args
    | callee => (do Run.failTyping (.notCallable (← Run.typeName callee)) : Run Value)

/-- Executes a program on a machine. -/
def run (host : Host) (fuel : Nat) (m : Machine) (p : Program) (globals : NamespaceRef)
    (extraction? : Option NamespaceRef) : Sited Unit :=
  execute (callIn host fuel m) fuel p globals extraction?

end Sited

end StagedScript
