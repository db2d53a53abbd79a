import StagedScript.Run.Exec

/-!
# The moments of a run

What a name stands for may change from one moment of a run to the next.  The moments that matter to
names from outside of a body are those at which one is looked up, and those at which a definition
starts, whose function captures what it needs of them.  They are listed here in the order of the
run, each with the frame and the store of that time.  What is done in the bodies of functions that
are called belongs to other frames, and is not listed.
-/

namespace StagedScript

/-- What happens to names from outside of a body. -/
inductive Event where
  /-- One is looked up. -/
  | read (x : String)
  /-- A definition starts. -/
  | define (span : Span) (d : Definition)

/-- The names from outside that an event is about. -/
def Event.names : Event → List String
  | read x => [x]
  | define _ d => d.freeNames

/-- A moment of the execution of a body. -/
structure Moment where
  /-- The names of the classes around, the innermost first, as far as their bodies are executed. -/
  classes : List String
  /-- The frame. -/
  frame : Frame
  /-- The names that are bound in the frame, as name analysis has it. -/
  bound : List String
  /-- What happens. -/
  event : Event
  /-- The store, before it happens. -/
  store : Store

namespace Moment

/-- What follows a computation that has a result. -/
def after {α β : Type} (x : Run α) (s : Store) (k : α → Store → List β) : List β :=
  match x s with
  | .ok a t => k a t
  | .error _ _ => []

section Expressions

variable (call : Caller) (f : Frame)

mutual

/-- The names that the evaluation of an expression looks up. -/
def ofEval : Expr → Store → List (String × Store)
  | .int _ _, _ | .float _ _, _ | .str _ _, _ | .bool _ _, _ | .none_ _, _ => []
  | .name _ x, s => [(x, s)]
  | .tuple _ es, s | .list _ es, s => ofEvalAll es s
  | .dict _ es, s => ofEvalEntries es s
  | .binary _ _ l r, s => ofEval l s ++ after (Run.eval call f l) s fun _ t => ofEval r t
  | .unary _ _ e, s => ofEval e s
  | .logical _ op l r, s => ofEval l s ++ after (Run.eval call f l) s fun a t =>
    match op, t.isTruthy a with
    | .conj, false | .disj, true => []
    | _, _ => ofEval r t
  | .compare _ _ l r, s => ofEval l s ++ after (Run.eval call f l) s fun _ t => ofEval r t
  | .call _ g args, s =>
    ofEval g s ++ after (Run.eval call f g) s fun _ t => ofEvalArgs (.ofList []) args t
  | .attr _ o _, s => ofEval o s
  | .subscript _ o i, s => ofEval o s ++ after (Run.eval call f o) s fun _ t => ofEval i t

/-- The names that the evaluation of expressions looks up. -/
def ofEvalAll : List Expr → Store → List (String × Store)
  | [], _ => []
  | e :: es, s => ofEval e s ++ after (Run.eval call f e) s fun _ t => ofEvalAll es t

/-- The names that the evaluation of the entries of a dict looks up. -/
def ofEvalEntries : List (Expr × Expr) → Store → List (String × Store)
  | [], _ => []
  | (k, e) :: es, s =>
    ofEval k s ++ after (do Run.dictKey (← Run.eval call f k)) s fun _ t =>
      ofEval e t ++ after (Run.eval call f e) t fun _ u => ofEvalEntries es u

/-- The names that the evaluation of arguments looks up. -/
def ofEvalArgs (before : Arguments) : List (Arg Expr) → Store → List (String × Store)
  | [], _ => []
  | ⟨role, e⟩ :: args, s =>
    ofEval e s ++ after (do Run.addArgument before role (← Run.eval call f e)) s fun now t =>
      ofEvalArgs now args t

end

mutual

/-- The names that the assignment of a value looks up. -/
def ofAssign : Expr → Value → Store → List (String × Store)
  | .tuple _ ts, v, s | .list _ ts, v, s =>
    after (do let vs ← Run.items v; Run.checkUnpack ts.length vs; return vs) s fun vs t =>
      ofAssignAll ts vs t
  | .attr _ o _, _, s => ofEval call f o s
  | .subscript _ o i, _, s =>
    ofEval call f o s ++ after (Run.eval call f o) s fun _ t => ofEval call f i t
  | _, _, _ => []

/-- The names that the assignment of values, one to each target, looks up. -/
def ofAssignAll : List Expr → List Value → Store → List (String × Store)
  | t :: ts, v :: vs, s =>
    ofAssign t v s ++ after (Run.assign call f t v) s fun _ u => ofAssignAll ts vs u
  | _, _, _ => []

end

/-- The names that the assignment of one value to every target looks up. -/
def ofTargets (v : Value) : List Expr → Store → List (String × Store)
  | [], _ => []
  | t :: ts, s => ofAssign call f t v s ++ after (Run.assign call f t v) s fun _ u =>
      ofTargets v ts u

/-- The names that the evaluation of defaults looks up. -/
def ofParams : List (Param Expr) → Store → List (String × Store)
  | [], _ => []
  | p :: ps, s =>
    match p.default? with
    | none => ofParams ps s
    | some e => ofEval call f e s ++ after (Run.eval call f e) s fun _ t => ofParams ps t

/-- The names that a definition looks up by itself. -/
def ofDefine (d : Definition) (s : Store) : List (String × Store) :=
  ofEvalAll call f d.decorators s ++ after (Run.evalAll call f d.decorators) s fun _ t =>
    ofParams call f d.params t

end Expressions

/-- The moments of a loop over items, given those of its rounds. -/
def ofItems {β : Type} (body : Value → Run Flow) (ofBody : Value → Store → List β) :
    List Run.Member → Store → List β
  | [], _ => []
  | m :: ms, s => after m.take s fun v t => ofBody v t ++ after (body v) t fun flow u =>
    match flow with
    | .next | .cont => ofItems body ofBody ms u
    | _ => []

/-- The moments of a loop under a test, given those of its tests and rounds. -/
def ofRounds {β : Type} (test : Run Bool) (body : Run Flow) (ofTest ofBody : Store → List β) :
    Nat → Store → List β
  | 0, _ => []
  | rounds + 1, s => ofTest s ++ after test s fun holds t =>
    if holds then ofBody t ++ after body t fun flow u =>
      match flow with
      | .next | .cont => ofRounds test body ofTest ofBody rounds u
      | _ => []
    else []

/-- Lookups as moments in a frame. -/
def inFrame (classes bound : List String) (f : Frame) (lookups : List (String × Store)) :
    List Moment :=
  lookups.map fun (x, s) => ⟨classes, f, bound, .read x, s⟩

section Statements

variable (call : Caller) (rounds : Nat)

mutual

/-- The moments of the execution of a statement. -/
def ofExec (classes bound : List String) (f : Frame) : Stmt → Store → List Moment
  | .expr _ e, s => inFrame classes bound f (ofEval call f e s)
  | .assign _ ts e, s =>
    inFrame classes bound f (ofEval call f e s ++ after (Run.eval call f e) s fun v t =>
      ofTargets call f v ts t)
  | .pass _, _ | .ret _ none, _ | .brk _, _ | .cont _, _ => []
  | .ret _ (some e), s => inFrame classes bound f (ofEval call f e s)
  | .cond _ test a b, s =>
    inFrame classes bound f (ofEval call f test s) ++ after (Run.eval call f test) s fun v t =>
      if t.isTruthy v then ofExecAll classes bound f a t else ofExecAll classes bound f b t
  | .loop _ test body, s =>
    ofRounds (do Run.isTruthy (← Run.eval call f test)) (Run.execAll call rounds f body)
      (fun t => inFrame classes bound f (ofEval call f test t))
      (fun t => ofExecAll classes bound f body t) rounds s
  | .each _ target iter body elseBody, s =>
    let round (v : Value) : Run Flow := do
      Run.assign call f target v
      Run.execAll call rounds f body
    let ofRound (v : Value) (t : Store) : List Moment :=
      inFrame classes bound f (ofAssign call f target v t) ++
        after (Run.assign call f target v) t fun _ u => ofExecAll classes bound f body u
    inFrame classes bound f (ofEval call f iter s) ++
      after (do Run.members (← Run.eval call f iter)) s fun ms t =>
      ofItems round ofRound ms t ++ after (Run.eachItem round ms) t fun flow u =>
        match flow with
        | .next | .cont => ofExecAll classes bound f elseBody u
        | _ => []
  | .define span name decorators params body, s =>
    ⟨classes, f, bound, .define span ⟨name, decorators, params, body⟩, s⟩ ::
      inFrame classes bound f (ofDefine call f ⟨name, decorators, params, body⟩ s)
  | .class_ _ name base body, s =>
    inFrame classes bound f (base.elim [] fun e => ofEval call f e s) ++
      after (do Run.checkBase call f name base; Run.make (·.newNamespace .empty)) s fun r t =>
        ofExecAll (name :: classes) (Stmt.bindsAll body) (f.inside r) body t

/-- The moments of the execution of statements. -/
def ofExecAll (classes bound : List String) (f : Frame) :
    List Stmt → Store → List Moment
  | [], _ => []
  | st :: ss, s => ofExec classes bound f st s ++ after (Run.exec call rounds f st) s fun flow t =>
    match flow with
    | .next => ofExecAll classes bound f ss t
    | _ => []

end

end Statements

end Moment

end StagedScript
