import StagedScript.Proofs.Control.Library
import StagedScript.Proofs.Control.Sited

/-!
# Errors are located by the innermost statement

Execution finds the place of an error as the error leaves statements: the first one that it leaves
counts.  Execution that knows where it is gives the same place to the same error, and is the same in
everything else.
-/

namespace StagedScript

namespace Run

variable {α β : Type}

/-! ## Places given to errors -/

theorem leaving_none (x : Run α) : leaving none x = x := by
  funext s
  unfold leaving
  generalize x s = r
  cases r with
  | ok a t => rfl
  | error stop t =>
    cases stop with
    | outOfFuel | aborted _ => rfl
    | error e =>
      obtain ⟨location?, cause⟩ := e
      cases location? <;> rfl

theorem leaving_bind (here : Option Location) (x : Run α) (k : α → Run β) :
    leaving here (x >>= k) = leaving here x >>= fun a => leaving here (k a) := by
  funext s
  change leaving here (EStateM.bind x k) s =
    EStateM.bind (leaving here x) (fun a => leaving here (k a)) s
  cases h : x s with
  | ok a t => simp only [leaving, EStateM.bind, h]
  | error stop t => cases stop <;> simp only [leaving, EStateM.bind, h]

/-- The first place counts. -/
theorem leaving_locating (here : Option Location) (l : Location) (x : Run α) :
    leaving here (locating (fun _ => l) x) = leaving (some l) x := by
  funext s
  unfold leaving locating
  generalize x s = r
  cases r with
  | ok a t => rfl
  | error stop t =>
    cases stop with
    | outOfFuel | aborted _ => rfl
    | error e =>
      obtain ⟨location?, cause⟩ := e
      cases location? <;> rfl

end Run

namespace Sited

variable {α β γ : Type}

instance : LawfulMonad Sited := LawfulMonad.mk' Sited
  (fun x => funext fun here => bind_pure (x here)) (fun _ _ => rfl)
  (fun x k l => funext fun here => bind_assoc (x here) _ _)

/-- The computation that knows where it is ends like the other one as it leaves the statement. -/
def Agrees (y : Sited α) (x : Run α) : Prop := ∀ here, y here = Run.leaving here x

namespace Agrees

variable {x : Run α} {y : Sited α}

theorem pure (a : α) : Agrees (Pure.pure a) (Pure.pure a) := fun _ => rfl

theorem bind {k : α → Run β} {k' : α → Sited β} (hxy : Agrees y x)
    (hk : ∀ a, Agrees (k' a) (k a)) : Agrees (y >>= k') (x >>= k) := by
  intro here
  have hk' : (fun a => k' a here) = fun a => Run.leaving here (k a) := funext fun a => hk a here
  change y here >>= (fun a => k' a here) = _
  rw [hxy here, hk', Run.leaving_bind]

theorem map {f : α → β} (hxy : Agrees y x) : Agrees (f <$> y) (f <$> x) := by
  have hfx : f <$> x = x >>= fun a => Pure.pure (f a) := (bind_pure_comp f x).symm
  rw [hfx]
  exact hxy.bind fun a => .pure (f a)

theorem forM {f : γ → Run PUnit} {g : γ → Sited PUnit} {l : List γ}
    (hfg : ∀ c, Agrees (g c) (f c)) : Agrees (l.forM g) (l.forM f) := by
  induction l with
  | nil => exact .pure _
  | cons c l ih => exact (hfg c).bind fun _ => ih

theorem foldlM {f : α → γ → Run α} {g : α → γ → Sited α} {l : List γ}
    (hfg : ∀ a c, Agrees (g a c) (f a c)) (a : α) : Agrees (l.foldlM g a) (l.foldlM f a) := by
  induction l generalizing a with
  | nil => exact .pure a
  | cons c l ih => exact (hfg a c).bind ih

/-- An operation that executes no statement raises its errors here. -/
theorem perform (hx : Run.Plain x) : Agrees (perform x) x := by
  intro here
  funext s
  have h := hx s.functions s rfl
  unfold Sited.perform Run.leaving
  generalize x s = r at h
  cases h with
  | ok _ => rfl
  | error _ hstop =>
    cases hstop with
    | error _ | aborted _ => rfl

theorem view (f : Store → α) : Agrees (Sited.perform (Run.view f)) (Run.view f) :=
  perform (.view f)

theorem fail (cause : Fault) : Agrees (Sited.perform (Run.fail cause : Run α)) (Run.fail cause) :=
  fun _ => rfl

theorem outOfFuel : Agrees (Sited.perform (throw .outOfFuel : Run α)) (throw .outOfFuel) :=
  fun _ => rfl

/-- An error that leaves a statement is given the place of this statement, if it has none. -/
theorem within (hxy : Agrees y x) (l : Location) :
    Agrees (within l y) (Run.locating (fun _ => l) x) := by
  intro here
  rw [Run.leaving_locating]
  exact hxy (some l)

end Agrees

-- Recursive calls do not name the variables of the section, which counts as not using them.
set_option linter.unusedSectionVars false

section Expressions

variable {call : StagedScript.Caller} {call' : Caller}
  (hcall : ∀ v args, Agrees (call' v args) (call v args)) (f : Frame)
include hcall

mutual

theorem eval_agrees (e : Expr) : Agrees (eval call' f e) (Run.eval call f e) := by
  cases e with
  | int _ _ | float _ _ | bool _ _ | none_ _ => exact .pure _
  | str span text => exact .perform (.newStr text)
  | name span x => exact .perform (.lookup f x)
  | tuple span es => exact (evalAll_agrees es).bind fun vs => .perform (.newTuple vs)
  | list span es => exact (evalAll_agrees es).bind fun vs => .perform (.newList vs)
  | dict span es => exact (evalEntries_agrees es).bind fun _ => .perform (.newDict _)
  | binary span op l r =>
    exact (eval_agrees l).bind fun a => (eval_agrees r).bind fun b => .perform (.binary op a b)
  | unary span op e => exact (eval_agrees e).bind fun v => .perform (.unary op v)
  | logical span op l r =>
    refine (eval_agrees l).bind fun a => (Agrees.view _).bind fun holds => ?_
    cases op <;> cases holds
    case conj.false | disj.true => exact .pure _
    all_goals exact eval_agrees r
  | compare span op l r =>
    exact (eval_agrees l).bind fun a => (eval_agrees r).bind fun b =>
      (Agrees.perform (.compare op a b)).bind fun _ => .pure _
  | call span g args =>
    exact (eval_agrees g).bind fun callee => (evalArgs_agrees _ args).bind fun _ => hcall callee _
  | attr span o x => exact (eval_agrees o).bind fun v => .perform (.getAttr v x)
  | subscript span o i =>
    exact (eval_agrees o).bind fun c => (eval_agrees i).bind fun j => .perform (.getItem c j)

theorem evalAll_agrees (es : List Expr) : Agrees (evalAll call' f es) (Run.evalAll call f es) := by
  cases es with
  | nil => exact .pure _
  | cons e es => exact (eval_agrees e).bind fun v => (evalAll_agrees es).bind fun vs => .pure _

theorem evalEntries_agrees (es : List (Expr × Expr)) :
    Agrees (evalEntries call' f es) (Run.evalEntries call f es) := by
  cases es with
  | nil => exact .pure _
  | cons entry es =>
    obtain ⟨k, e⟩ := entry
    exact (eval_agrees k).bind fun key => (Agrees.perform (.dictKey key)).bind fun _ =>
      (eval_agrees e).bind fun _ => (evalEntries_agrees es).bind fun _ => .pure _

theorem evalArgs_agrees (before : Arguments) (args : List (Arg Expr)) :
    Agrees (evalArgs call' f before args) (Run.evalArgs call f before args) := by
  cases args with
  | nil => exact .pure _
  | cons arg args =>
    obtain ⟨role, e⟩ := arg
    exact (eval_agrees e).bind fun v => (Agrees.perform (.addArgument before role v)).bind
      fun now =>
      evalArgs_agrees now args

end

mutual

theorem assign_agrees (target : Expr) (v : Value) :
    Agrees (assign call' f target v) (Run.assign call f target v) := by
  cases target with
  | name span x => exact .perform (.bindName f x v)
  | tuple span ts | list span ts =>
    exact (Agrees.perform (.items v)).bind fun vs =>
      (Agrees.perform (.checkUnpack _ vs)).bind fun _ => assignAll_agrees ts vs
  | attr span o x => exact (eval_agrees hcall f o).bind fun w => .perform (.setAttr w v x)
  | subscript span o i =>
    exact (eval_agrees hcall f o).bind fun c => (eval_agrees hcall f i).bind fun j =>
      .perform (.setItem c j v)
  | _ => exact .fail _

theorem assignAll_agrees (targets : List Expr) (vs : List Value) :
    Agrees (assignAll call' f targets vs) (Run.assignAll call f targets vs) := by
  cases targets with
  | nil => exact .pure _
  | cons t ts =>
    cases vs with
    | nil => exact .pure _
    | cons v vs => exact (assign_agrees t v).bind fun _ => assignAll_agrees ts vs

end

theorem evalParams_agrees (ps : List (Param Expr)) :
    Agrees (evalParams call' f ps) (Run.evalParams call f ps) := by
  induction ps with
  | nil => exact .pure _
  | cons p ps ih =>
    obtain ⟨name, kind⟩ := p
    cases kind with
    | plain default? =>
      cases default? with
      | none => exact (Agrees.pure _).bind fun _ => ih.bind fun _ => .pure _
      | some e =>
        unfold evalParams Run.evalParams
        simp only [pure_bind]
        exact (eval_agrees hcall f e).bind fun _ => ih.bind fun _ => .pure _
    | star => exact (Agrees.pure _).bind fun _ => ih.bind fun _ => .pure _
    | starStar => exact (Agrees.pure _).bind fun _ => ih.bind fun _ => .pure _

theorem define_agrees (span : Span) (d : Definition) :
    Agrees (define call' f span d) (Run.define call f span d) := by
  refine (evalAll_agrees hcall f _).bind fun ds => (evalParams_agrees hcall f _).bind fun ps => ?_
  refine (Agrees.view _).bind fun captured => ?_
  -- A new function is made without an error.
  have hmake {g : Function} :
      Agrees (perform (Run.make (·.newFunction g))) (Run.make (·.newFunction g)) := fun _ => rfl
  exact hmake.bind fun r => .foldlM (fun v decorator => hcall decorator _) _

theorem checkBase_agrees (name : String) (base : Option Expr) :
    Agrees (checkBase call' f name base) (Run.checkBase call f name base) := by
  cases base with
  | none => exact .fail _
  | some e =>
    refine (eval_agrees hcall f e).bind fun v => ?_
    cases v
    case builtin b =>
      cases b
      case slots => exact .pure _
      all_goals exact .fail _
    all_goals exact .fail _

end Expressions

theorem eachItem_agrees {body : Value → Run Flow} {body' : Value → Sited Flow}
    (hbody : ∀ v, Agrees (body' v) (body v)) (ms : List Run.Member) :
    Agrees (eachItem body' ms) (Run.eachItem body ms) := by
  induction ms with
  | nil => exact .pure _
  | cons m ms ih =>
    refine (Agrees.perform (.take m)).bind fun v => (hbody v).bind fun flow => ?_
    cases flow with
    | next | cont => exact ih
    | brk | ret _ => exact .pure _

theorem whileHolds_agrees {test : Run Bool} {test' : Sited Bool} {body : Run Flow}
    {body' : Sited Flow} (htest : Agrees test' test) (hbody : Agrees body' body) (rounds : Nat) :
    Agrees (whileHolds test' body' rounds) (Run.whileHolds test body rounds) := by
  induction rounds with
  | zero => exact .outOfFuel
  | succ rounds ih =>
    refine htest.bind fun holds => ?_
    cases holds with
    | false => exact .pure _
    | true =>
      refine hbody.bind fun flow => ?_
      cases flow with
      | next | cont => exact ih
      | brk | ret _ => exact .pure _

section Statements

variable {call : StagedScript.Caller} {call' : Caller}
  (hcall : ∀ v args, Agrees (call' v args) (call v args)) (rounds : Nat)
include hcall

mutual

theorem exec_agrees (f : Frame) (s : Stmt) :
    Agrees (exec call' rounds f s) (Run.exec call rounds f s) := by
  cases s with
  | expr span e => exact (eval_agrees hcall f e).map.bind fun _ => .pure _
  | assign span ts e =>
    refine (eval_agrees hcall f e).bind fun v => ?_
    exact (Agrees.forM fun t => assign_agrees hcall f t v).bind fun _ => .pure _
  | pass span | brk span | cont span => exact .pure _
  | ret span value =>
    cases value with
    | none => exact .pure _
    | some e => exact (eval_agrees hcall f e).bind fun _ => .pure _
  | cond span test a b =>
    refine (eval_agrees hcall f test).bind fun v => (Agrees.view _).bind fun holds => ?_
    cases holds with
    | true => exact execAll_agrees f a
    | false => exact execAll_agrees f b
  | loop span test body =>
    refine whileHolds_agrees ?_ (execAll_agrees f body) rounds
    exact (eval_agrees hcall f test).bind fun v => .view _
  | each span target iter body els =>
    refine (eval_agrees hcall f iter).bind fun v => (Agrees.perform (.members v)).bind fun ms => ?_
    have hround (w : Value) := (assign_agrees hcall f target w).bind fun _ => execAll_agrees f body
    refine (eachItem_agrees hround ms).bind fun flow => ?_
    cases flow with
    | next | cont => exact execAll_agrees f els
    | brk | ret _ => exact .pure _
  | define span name ds ps body =>
    refine (define_agrees hcall f span _).bind fun v => ?_
    exact (Agrees.perform (.bindName f name v)).bind fun _ => .pure _
  | class_ span name base body =>
    refine (checkBase_agrees hcall f name base).bind fun _ => ?_
    refine (Agrees.perform (.make fun _ => rfl)).bind fun locals => ?_
    refine (execAll_agrees (f.inside locals) body).bind fun flow => ?_
    cases flow with
    | next =>
      refine (Agrees.view _).bind fun t => ?_
      refine (Agrees.perform (.newRecordType name _ t)).bind fun v => ?_
      exact (Agrees.perform (.bindName f name v)).bind fun _ => .pure _
    | _ => exact .pure _

/-- Where an error leaves the statement at a place, the statement was the innermost one, unless the
error has left another one in it before. -/
theorem execAll_agrees (f : Frame) (b : List Stmt) :
    Agrees (execAll call' rounds f b) (Run.execAll call rounds f b) := by
  cases b with
  | nil => exact .pure _
  | cons s ss =>
    -- The statement runs at its place on the one side, and its errors are located on the other.
    refine ((exec_agrees f s).within (f.location s.span)).bind fun flow => ?_
    cases flow with
    | next => exact execAll_agrees f ss
    | _ => exact .pure _

end

theorem execute_agrees (p : Program) (globals : NamespaceRef) (extraction? : Option NamespaceRef) :
    Agrees (execute call' rounds p globals extraction?)
      (p.execute call rounds globals extraction?) := by
  refine (execAll_agrees hcall rounds _ p.body).bind fun flow => ?_
  cases flow with
  | next => exact .pure _
  | _ => exact .fail _

theorem callBody_agrees (g : Function) (args : Arguments) :
    Agrees (callBody call' rounds g args) (Run.callBody call rounds g args) := by
  refine (Agrees.perform (.bindArguments g args)).bind fun t => ?_
  refine (Agrees.perform (.make fun _ => rfl)).bind fun locals => ?_
  refine (execAll_agrees hcall rounds _ g.definition.body).bind fun flow => ?_
  cases flow with
  | next | ret _ => exact .pure _
  | brk | cont => exact .fail _

theorem make_agrees (c : Closure) :
    Agrees (make call' rounds c) (Unroll.toRun (c.make call rounds)) := by
  unfold Closure.make
  simp only [Unroll.toRun_bind, Unroll.toRun_ofRun]
  refine (Agrees.perform (Unroll.plain_ofExcept Unroll.isOwn_unroll _)).bind fun script => ?_
  refine (Agrees.perform (Unroll.plain_ofExcept Unroll.isOwn_compile _)).bind fun program => ?_
  refine (Agrees.perform (.make fun _ => rfl)).bind fun r => ?_
  refine (execute_agrees hcall rounds program _ _).bind fun _ => (Agrees.view _).bind fun t => ?_
  cases t.get? SpecializeError.makerName with
  | none => exact .perform (Unroll.plain_throw Unroll.isOwn_noMaker)
  | some maker =>
    dsimp only
    rw [Unroll.toRun_ofRun]
    exact hcall maker _

theorem unrollOver_agrees (names : Table Value) (v : Value) :
    Agrees (unrollOver call' rounds names v)
      (Unroll.toRun (StagedScript.unrollOver call rounds names v)) := by
  -- What is known beforehand is looked up in the store that the closure has been made in.
  have heq : Unroll.toRun (StagedScript.unrollOver call rounds names v) = (do
      let c ← Unroll.toRun (Closure.ofFunction v names)
      let known ← Run.view (c.known · fun name => names.contains name && name != unrollName)
      Unroll.toRun ((c.unrolling known).make call rounds)) := by
    unfold StagedScript.unrollOver
    rw [Unroll.toRun_bind]
    rfl
  rw [heq]
  refine (Agrees.perform (Unroll.plain_ofFunction v names)).bind fun c => ?_
  exact (Agrees.view _).bind fun known => make_agrees hcall rounds _

/-- A native makes the same calls, and its own errors leave the statement that called it. -/
theorem callHost_agrees (host : Host) (name : String) (args : Arguments) :
    Agrees (callHost host call' name args) (host name call args) := by
  have hsame : (fun v args => call' v args none) = call := by
    funext v args
    rw [hcall v args none, Run.leaving_none]
  intro here
  rw [callHost, hsame]

theorem callNative_agrees (host : Host) (kind : Native)
    (held : List (String × Value)) (args : Arguments) :
    Agrees (callNative host call' rounds kind held args)
    (kind.call host call rounds held args) := by
  obtain ⟨places, named⟩ := args
  cases kind with
  | unrolling =>
    cases places with
    | nil => exact .perform (.newNative _ _)
    | cons v vs => exact .fail _
  | passing =>
    cases places with
    | nil => exact .perform (.newNative _ _)
    | cons v vs => exact .fail _
  | unroller =>
    rcases places with - | ⟨v, - | ⟨w, vs⟩⟩
    · exact .fail _
    · exact unrollOver_agrees hcall rounds _ v
    · exact .fail _
  | passer =>
    rcases places with - | ⟨v, - | ⟨w, vs⟩⟩
    · exact .fail _
    · exact .pure v
    · exact .fail _
  | host name => exact callHost_agrees hcall host name _

end Statements

/-- Calls agree, however deep they nest. -/
theorem callIn_agrees (host : Host) (fuel : Nat) (m : Machine) (v : Value) (args : Arguments) :
    Agrees (callIn host fuel m v args) (StagedScript.callIn host fuel m v args) := by
  -- Whatever is called within a call has less fuel, and so has the body of a function.
  induction fuel generalizing m v args with
  | zero => exact .outOfFuel
  | succ fuel ih =>
    cases v with
    | function r =>
      unfold callIn StagedScript.callIn
      dsimp only
      split
      · exact .fail _
      · refine (Agrees.view _).bind fun f? => ?_
        cases f? with
        | some f => exact callBody_agrees (ih m.deeper) fuel f args
        | none => exact .perform (.failNaming fun _ => rfl)
    | builtin b => exact .perform (.callBuiltin _ b args)
    | native i kind held => exact callNative_agrees (ih m) fuel host kind held args
    | recordType r => exact (Agrees.perform (.instantiate r args)).bind fun _ => .pure _
    | method i method => exact .perform (.callMethod method args)
    | _ => exact .perform (.failNaming fun _ => rfl)

/-- A program is executed alike. -/
theorem run_eq (host : Host) (fuel : Nat) (m : Machine) (p : Program)
    (globals : NamespaceRef) (extraction? : Option NamespaceRef) :
    run host fuel m p globals extraction? none = p.run host fuel m globals extraction? := by
  rw [run, execute_agrees (callIn_agrees host fuel m) fuel p globals extraction? none,
    Run.leaving_none]
  rfl

end Sited

end StagedScript
