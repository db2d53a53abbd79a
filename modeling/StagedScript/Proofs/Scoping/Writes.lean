import StagedScript.Proofs.Scoping.Unbound

/-!
# Where a run writes

A body binds names in the namespace of its frame.  The bodies of functions and of classes, and the
texts that functions are made anew from, are executed in namespaces made for them.  So a program
changes the bindings of no namespace that there was before it, the one that it is given to bind its
names in apart, whether it ends with a result, with an error or for want of fuel.
-/

namespace StagedScript

variable {ε α β γ : Type} {P : α → Prop} {own own' : NamespaceRef → Prop} {s t u : Store}

/-- The store that a computation leaves behind, however it ends. -/
def Run.leaves (x : EStateM ε Store α) (s : Store) : Store :=
  match x s with
  | .ok _ t | .error _ t => t

/-! ## Stores in which nothing else has been bound -/

/-- The namespaces of the first store are those of the second as well, and apart from some of them
they have the same bindings, in the same order. -/
structure Store.Extends (own : NamespaceRef → Prop) (s t : Store) : Prop where
  size : s.namespaces.size ≤ t.namespaces.size
  bindings : ∀ r : NamespaceRef, r.index < s.namespaces.size → ¬ own r → t.bindings r = s.bindings r

namespace Store.Extends

theorem refl (own : NamespaceRef → Prop) (s : Store) : s.Extends own s :=
  ⟨Nat.le_refl _, fun _ _ _ => rfl⟩

theorem trans (hst : s.Extends own t) (htu : t.Extends own u) : s.Extends own u where
  size := Nat.le_trans hst.size htu.size
  bindings r hr hown :=
    (htu.bindings r (Nat.lt_of_lt_of_le hr hst.size) hown).trans (hst.bindings r hr hown)

/-- Namespaces that were made meanwhile need not be counted as apart. -/
theorem mono (hst : s.Extends own t)
    (hown : ∀ r : NamespaceRef, r.index < s.namespaces.size → own r → own' r) :
    s.Extends own' t where
  size := hst.size
  bindings r hr h := hst.bindings r hr fun ho => h (hown r hr ho)

theorem of_namespaces_eq (h : t.namespaces = s.namespaces) : s.Extends own t where
  size := Nat.le_of_eq (congrArg Array.size h.symm)
  bindings r _ _ := by rw [Store.bindings, Store.bindings, h]

theorem newNamespace (s : Store) (b : Table Value) : s.Extends own (s.newNamespace b).2 where
  size := by simp [Store.newNamespace]
  bindings r hr _ := by
    simp only [Store.newNamespace, Store.bindings]
    rw [Array.getElem?_push, if_neg (Nat.ne_of_lt hr)]

theorem bind {r : NamespaceRef} (hr : own r) (s : Store) (x : String) (v : Value) :
    s.Extends own (s.bind r x v) where
  size := Nat.le_of_eq (s.size_bind x v r).symm
  bindings _ _ hown := Store.bindings_bind_of_ne x v fun h => hown (h ▸ hr)

end Store.Extends

/-- The stores are the same, and only in some namespaces names have been bound since a store before
them. -/
structure Store.Since (own : NamespaceRef → Prop) (s₀ s t : Store) : Prop where
  eq : s = t
  since : s₀.Extends own s

theorem Store.Since.kinship {s₀ : Store} : Kinship .nothing (Store.Since own s₀) where
  twin := by
    rintro s _ ⟨rfl, -⟩
    exact ⟨rfl, fun _ => rfl, fun r _ f hf => ⟨f, hf, rfl, rfl⟩⟩
  avoids _ := Store.avoids_nothing _
  change := by
    rintro g hg s _ ⟨rfl, h⟩ -
    exact ⟨rfl, h.trans (.of_namespaces_eq (hg.namespaces s))⟩

/-! ## Computations that bind names in some namespaces only -/

/-- Whatever the store, a computation binds names in some of its namespaces only. -/
def Run.Confined (own : NamespaceRef → Prop) (x : EStateM ε Store α) : Prop :=
  ∀ s : Store, s.Extends own (Run.leaves x s)

/-- What respects the relation to a store before it binds names in some namespaces only. -/
theorem Matches.confined {Q : α → β → Prop} {x : EStateM ε Store α} {y : EStateM ε Store β}
    (hx : ∀ s₀, Matches (Store.Since own s₀) Q x y) : Run.Confined own x := by
  intro s
  have h := hx s s s ⟨rfl, .refl own s⟩
  unfold Run.leaves
  generalize x s = r at h
  generalize y s = q at h
  cases h with
  | ok _ ht => exact ht.since
  | error ht => exact ht.since

namespace Run.Confined

variable {x : EStateM ε Store α}

theorem respects (hx : Run.Confined own x) (s₀ : Store) :
    Respects (Store.Since own s₀) anything x := by
  rintro s _ ⟨rfl, hs⟩
  have h := hx s
  unfold Run.leaves at h
  generalize x s = r at h
  cases r with
  | ok a t => exact .ok ⟨rfl, trivial⟩ ⟨rfl, hs.trans h⟩
  | error e t => exact .error ⟨rfl, hs.trans h⟩

theorem extends_of_ok (hx : Run.Confined own x) {a : α} (h : x s = .ok a t) : s.Extends own t := by
  have hextends := hx s
  unfold Run.leaves at hextends
  rwa [h] at hextends

/-- What leaves namespaces alone binds no names. -/
theorem of_kinship (hx : ∀ {R : Store → Store → Prop}, Kinship .nothing R → Respects R P x) :
    Run.Confined own x := Matches.confined fun _ => hx Store.Since.kinship

theorem pure (a : α) : Run.Confined own (Pure.pure a : EStateM ε Store α) :=
  of_kinship (P := anything) fun _ => .pure trivial

theorem throw (e : ε) : Run.Confined own (MonadExcept.throw e : EStateM ε Store α) :=
  of_kinship (P := anything) fun _ => .throw e

theorem view (f : Store → α) : Run.Confined own (Run.view f) := fun s => .refl own s

theorem bind {k : α → EStateM ε Store β} (hx : Run.Confined own x)
    (hk : ∀ a, Run.Confined own (k a)) : Run.Confined own (x >>= k) :=
  Matches.confined fun s₀ => (hx.respects s₀).bind fun a _ => (hk a).respects s₀

theorem map {f : α → β} (hx : Run.Confined own x) : Run.Confined own (f <$> x) :=
  Matches.confined fun s₀ => (hx.respects s₀).map (Q := anything) fun _ _ => trivial

theorem forM {l : List γ} {f : γ → EStateM ε Store Unit} (hf : ∀ c, Run.Confined own (f c)) :
    Run.Confined own (l.forM f) :=
  Matches.confined fun s₀ => Respects.forM fun c _ => (hf c).respects s₀

theorem ofRun {x : Run α} (hx : Run.Confined own x) : Run.Confined own (Specialize.ofRun x) :=
  Matches.confined fun s₀ => (hx.respects s₀).ofRun

theorem toRun {x : Specialize α} (hx : Run.Confined own x) : Run.Confined own (Unroll.toRun x) :=
  Matches.confined fun s₀ => Matches.toRun (hx.respects s₀)

theorem mono (hx : Run.Confined own x) (hown : ∀ r, own r → own' r) : Run.Confined own' x :=
  fun s => (hx s).mono fun r _ => hown r

/-- What binds names in a namespace that it makes itself changes none that there was. -/
theorem inNew {b : Table Value} {x : EStateM ε Store NamespaceRef}
    (hx : ∀ s, x s = .ok (s.newNamespace b).1 (s.newNamespace b).2)
    {k : NamespaceRef → EStateM ε Store α}
    (hk : ∀ r, Run.Confined (fun r' => own r' ∨ r' = r) (k r)) : Run.Confined own (x >>= k) := by
  intro s
  have hbind : Run.leaves (x >>= k) s =
      Run.leaves (k (s.newNamespace b).1) (s.newNamespace b).2 := by
    unfold Run.leaves
    rw [EStateM.bind_ok (hx s)]
  have h := (Store.Extends.newNamespace s b).trans (hk (s.newNamespace b).1 (s.newNamespace b).2)
  rw [hbind]
  exact h.mono fun r hr hown => hown.resolve_right (by rintro rfl; exact Nat.lt_irrefl _ hr)

end Run.Confined

/-- No call binds a name in a namespace that there is. -/
def Caller.Confined (call : Caller) : Prop := ∀ v args, Run.Confined (fun _ => False) (call v args)

theorem Caller.Confined.respects {call : Caller} (hcall : call.Confined) (s₀ : Store) :
    call.Respects .nothing (Store.Since own s₀) := fun v args _ _ =>
  (((hcall v args).mono fun _ => False.elim).respects s₀).mono fun w _ => w.avoids_nothing

/-- The natives of a host bind no names themselves: if the calls that they make bind none in
namespaces that there are, neither do they. -/
def Host.Confined (host : Host) : Prop :=
  ∀ {call : Caller}, call.Confined →
  ∀ name args, Run.Confined (fun _ => False) (host name call args)

/-- Natives that work with values and calls alone bind no names. -/
theorem Host.Parametric.confined {host : Host} (hhost : host.Parametric) : host.Confined :=
  fun hcall name args => Matches.confined fun s₀ =>
    hhost Store.Since.kinship (hcall.respects s₀) name args.avoids_nothing

namespace Run

/-! ## Evaluating and assigning -/

section

variable {call : Caller} (hcall : call.Confined) (f : Frame)

theorem bind_confined (hf : own f.locals) (x : String) (v : Value) :
    Confined own (Run.bind f x v) := fun s => .bind hf s x v

include hcall

theorem eval_confined (e : Expr) : Confined own (eval call f e) :=
  Matches.confined fun s₀ => Store.Since.kinship.eval (hcall.respects s₀) f.avoids_nothing e

theorem evalAll_confined (es : List Expr) : Confined own (evalAll call f es) :=
  Matches.confined fun s₀ => Store.Since.kinship.evalAll (hcall.respects s₀) f.avoids_nothing es

theorem evalParams_confined (ps : List (Param Expr)) : Confined own (evalParams call f ps) :=
  Matches.confined fun s₀ => Store.Since.kinship.evalParams (hcall.respects s₀) f.avoids_nothing ps

theorem assign_confined (hf : own f.locals) (target : Expr) (v : Value) :
    Confined own (assign call f target v) :=
  Matches.confined fun s₀ => Store.Since.kinship.assign (hcall.respects s₀) f.avoids_nothing target
    (fun x _ w _ => (bind_confined f hf x w).respects s₀) v v.avoids_nothing

theorem checkBase_confined (name : String) (base : Option Expr) :
    Confined own (checkBase call f name base) :=
  Matches.confined fun s₀ =>
    Store.Since.kinship.checkBase (hcall.respects s₀) f.avoids_nothing name base

/-- Making a function binds no name; its decorators are calls. -/
theorem define_confined (span : Span) (d : Definition) : Confined own (define call f span d) := by
  have hdecorate (ds : List Value) (v : Value) : Confined own (decorate call ds v) :=
    Matches.confined fun s₀ => Store.Since.kinship.decorate (hcall.respects s₀)
      (fun d _ => d.avoids_nothing) v.avoids_nothing
  refine (evalAll_confined hcall f _).bind fun ds => (evalParams_confined hcall f _).bind
    fun ps => ?_
  refine (Confined.view _).bind fun captured => ?_
  exact Confined.bind (fun s => .of_namespaces_eq rfl) fun r => hdecorate ds _

end

/-! ## Executing -/

theorem locating_confined {x : Run α} (hx : Confined own x) (location : Unit → Location) :
    Confined own (locating location x) :=
  Matches.confined fun s₀ => Matches.locating (hx.respects s₀) location

theorem eachItem_confined {body : Value → Run Flow} (hbody : ∀ v, Confined own (body v))
    (ms : List Member) : Confined own (eachItem body ms) := by
  have htake (m : Member) : Confined own m.take :=
    .of_kinship fun K => K.take (by cases m <;> simp [Member.Avoids, Value.avoids_nothing])
  exact Matches.confined fun s₀ => Matches.eachItem (P := anything) (A := anything) trivial
    (fun m _ => (htake m).respects s₀) fun v _ => (hbody v).respects s₀

theorem whileHolds_confined {test : Run Bool} {body : Run Flow} (htest : Confined own test)
    (hbody : Confined own body) (rounds : Nat) : Confined own (whileHolds test body rounds) :=
  Matches.confined fun s₀ => Matches.whileHolds (P := anything) (Q := anything) trivial
    (fun _ _ => trivial) (htest.respects s₀) (hbody.respects s₀) rounds

-- Recursive calls do not name the variables of the section, which counts as not using them.
set_option linter.unusedSectionVars false

section

variable {call : Caller} (hcall : call.Confined) (rounds : Nat)
include hcall

mutual

/-- A statement binds names in the namespace of its frame, and in such as are made meanwhile. -/
theorem exec_confined {own : NamespaceRef → Prop} (f : Frame) (hf : own f.locals) (s : Stmt) :
    Confined own (exec call rounds f s) := by
  cases s with
  | expr span e => exact (eval_confined hcall f e).map.bind fun _ => .pure _
  | assign span ts e =>
    refine (eval_confined hcall f e).bind fun v => ?_
    exact (Confined.forM fun t => assign_confined hcall f hf t v).bind fun _ => .pure _
  | pass span | brk span | cont span => exact .pure _
  | ret span value =>
    cases value with
    | none => exact .pure _
    | some e => exact (eval_confined hcall f e).bind fun _ => .pure _
  | cond span test a b =>
    refine (eval_confined hcall f test).bind fun v => (Confined.view _).bind fun holds => ?_
    split
    · exact execAll_confined f hf a
    · exact execAll_confined f hf b
  | loop span test body =>
    refine whileHolds_confined ?_ (execAll_confined f hf body) rounds
    exact (eval_confined hcall f test).bind fun _ => .view _
  | each span target iter body els =>
    refine (eval_confined hcall f iter).bind fun v => ?_
    refine Confined.bind (.of_kinship fun K => K.members v.avoids_nothing) fun ms => ?_
    refine (eachItem_confined (fun w => ?_) ms).bind fun flow => ?_
    · exact (assign_confined hcall f hf target w).bind fun _ => execAll_confined f hf body
    · cases flow with
      | next | cont => exact execAll_confined f hf els
      | brk | ret _ => exact .pure _
  | define span name ds ps body =>
    refine (define_confined hcall f span _).bind fun v => ?_
    exact (bind_confined f hf name v).bind fun _ => .pure _
  | class_ span name base body =>
    refine (checkBase_confined hcall f name base).bind fun _ => ?_
    -- The body binds its names in a new namespace, and the class itself is bound outside of it.
    refine Confined.inNew (fun _ => rfl) fun r => ?_
    refine (execAll_confined (f.inside r) (.inr rfl) body).bind fun flow => ?_
    cases flow with
    | next =>
      refine (Confined.view _).bind fun t => ?_
      refine Confined.bind (.of_kinship fun K => K.newRecordType name _ fun e _ =>
        e.2.avoids_nothing) fun v => ?_
      exact (bind_confined f (.inl hf) name v).bind fun _ => .pure _
    | _ => exact .pure _

theorem execAll_confined {own : NamespaceRef → Prop} (f : Frame) (hf : own f.locals)
    (b : List Stmt) : Confined own (execAll call rounds f b) := by
  cases b with
  | nil => exact .pure _
  | cons s ss =>
    refine (locating_confined (exec_confined f hf s) _).bind fun flow => ?_
    cases flow with
    | next => exact execAll_confined f hf ss
    | _ => exact .pure _

end

/-- A program binds its names in the namespace that is given for them. -/
theorem execute_confined (p : Program) (globals extraction : NamespaceRef) :
    Confined (· = extraction) (p.execute call rounds globals (some extraction)) := by
  have hbody : Confined (· = extraction) (execAll call rounds
      ⟨extraction, globals, none, p.source, p.lineOffset⟩ p.body) :=
    @execAll_confined call hcall rounds (· = extraction) _ rfl p.body
  refine hbody.bind fun flow => ?_
  split
  · exact .pure _
  · exact .throw _

/-- The body of a function binds its names in a namespace made for the call. -/
theorem callBody_confined (g : Function) (args : Arguments) :
    Confined own (callBody call rounds g args) := by
  refine Confined.bind (.of_kinship fun K => K.bindArguments ?_ args.avoids_nothing) fun t => ?_
  · exact ⟨fun _ _ v _ => v.avoids_nothing, fun e _ => e.2.avoids_nothing, id⟩
  refine Confined.inNew (fun _ => rfl) fun r => ?_
  refine (execAll_confined hcall rounds _ (.inr rfl) _).bind fun flow => ?_
  cases flow with
  | next | ret _ => exact .pure _
  | brk | cont => exact .throw _

/-! ## Specializing -/

omit hcall in
theorem ofExcept_confined {ε : Type} {wrap : ε → SpecializeError} {x : Except ε α} :
    Confined own (Specialize.ofExcept wrap x) :=
  .of_kinship fun _ => Specialize.ofExcept_respects (P := anything) fun _ _ => trivial

/-- The text of a closure binds its names in a namespace made for it. -/
theorem make_confined (c : Closure) : Confined own (c.make call rounds) := by
  unfold Closure.make
  refine ofExcept_confined.bind fun script => ofExcept_confined.bind fun program => ?_
  refine Confined.inNew (fun _ => rfl) fun r => ?_
  refine Confined.bind ?_ fun _ => (Confined.ofRun (.view _)).bind fun t => ?_
  · exact ((execute_confined hcall rounds program _ r).mono fun _ => .inr).ofRun
  · split
    · exact .throw _
    · exact ((hcall _ _).mono fun _ => False.elim).ofRun

theorem unrollOver_confined (names : Table Value) (v : Value) :
    Confined own (unrollOver call rounds names v) := by
  have hget (s₀ : Store) (r : FunctionRef) : Matches (Store.Since own s₀)
      (Function.FoundAlike .empty (fun _ => False) .nothing) (Run.view (·.getFunction? r))
      (Run.view (·.getFunction? r)) := by
    rintro s _ ⟨rfl, hs⟩
    refine .ok ?_ ⟨rfl, hs⟩
    show Function.FoundAlike .empty _ .nothing (s.getFunction? r) (s.getFunction? r)
    cases hf : s.getFunction? r with
    | none => exact .none
    | some f => exact .some (.same f) (s.avoids_nothing.functions r f id hf)
  have hclosure : Confined own (Closure.ofFunction v names) := Matches.confined fun s₀ =>
    Closure.ofFunction_matches Store.Since.kinship (fun r _ => hget s₀ r)
      fun e _ => e.2.avoids_nothing
  refine hclosure.bind fun c => ?_
  exact Confined.bind (fun s => .refl own s) fun s => make_confined hcall rounds _

end

end Run

/-! ## Calling -/

theorem Native.call_confined {host : Host} (hhost : host.Confined) {call : Caller}
    (hcall : call.Confined) (rounds : Nat) (kind : Native) (held : List (String × Value))
    (args : Arguments) : Run.Confined (fun _ => False) (kind.call host call rounds held args) := by
  have hnew (kind : Native) (held : List (String × Value)) :
      Run.Confined (fun _ => False) (Run.newNative kind held) :=
    .of_kinship fun K => K.newNative kind fun e _ => e.2.avoids_nothing
  unfold Native.call
  split
  · exact hnew _ _
  · exact hnew _ _
  · exact .throw _
  · exact .throw _
  · exact (Run.unrollOver_confined hcall rounds _ _).toRun
  · exact .pure _
  · exact .throw _
  · exact .throw _
  · exact hhost hcall _ _

/-- No call binds a name in a namespace that there is, however deep calls nest. -/
theorem callIn_confined {host : Host} (hhost : host.Confined) (fuel : Nat) (m : Machine) :
    (callIn host fuel m).Confined := by
  induction fuel generalizing m with
  | zero => exact fun _ _ => .throw _
  | succ fuel ih =>
    have hnaming (v : Value) (cause : String → Fault) :
        Run.Confined (fun _ => False) (Run.typeName v >>= fun t =>
          (Run.fail (cause t) : Run Value)) :=
      .of_kinship (P := anything) fun K => K.failNaming v cause
    intro callee args
    unfold callIn
    split
    · split
      · exact .throw _
      · refine (Run.Confined.view _).bind fun f? => ?_
        split
        · exact Run.callBody_confined (ih m.deeper) fuel _ args
        · exact hnaming _ fun t => .typing (.notCallable t)
    · exact .of_kinship fun K => K.callBuiltin _ _ args.avoids_nothing
    · exact Native.call_confined hhost (ih m) fuel _ _ args
    · exact Run.Confined.bind (.of_kinship fun K => K.instantiate _ args.avoids_nothing)
        fun _ => .pure _
    · exact .of_kinship fun K => K.callMethod _ args.avoids_nothing
    · exact hnaming _ fun t => .typing (.notCallable t)

/-- However a program ends, its run has changed the bindings of no namespace that there was before,
the one apart that it binds its names in: through all calls, definitions, classes and decorators,
and where functions are made anew meanwhile. -/
theorem Program.run_writes_own {host : Host} (hhost : host.Confined) (fuel : Nat) (m : Machine)
    (p : Program) (globals extraction : NamespaceRef) (s : Store) {r : NamespaceRef}
    (hr : r.index < s.namespaces.size) (hne : r ≠ extraction) :
    (Run.leaves (p.run host fuel m globals (some extraction)) s).bindings r = s.bindings r :=
  (Run.execute_confined (callIn_confined hhost fuel m) fuel p globals extraction s).bindings r hr
  hne

section Sample

/-- A program that binds, by a call, a name that is a global as well:

    def f(x):
        y = x
        return y
    x = f(5)
-/
def sampleWriter : Program where
  body :=
    [.define ⟨0, 32⟩ "f" [] [⟨"x", .plain none⟩]
      [.assign ⟨14, 19⟩ [.name ⟨14, 15⟩ "y"] (.name ⟨18, 19⟩ "x"),
        .ret ⟨24, 32⟩ (some (.name ⟨31, 32⟩ "y"))],
      .assign ⟨33, 41⟩ [.name ⟨33, 34⟩ "x"]
        (.call ⟨37, 41⟩ (.name ⟨37, 38⟩ "f") [⟨.positional, .int ⟨39, 40⟩ 5⟩])]
  source := ⟨"sample", "def f(x):\n    y = x\n    return y\nx = f(5)\n"⟩
  lineOffset := 0
  wellPlaced := rfl

/-- Globals in which `x` is `7`, and an empty namespace. -/
def samplePlaces : Store :=
  { Store.empty with namespaces := #[.ofList [("x", .int 7)], .empty] }

/-- The program binds `x` to `5` in the namespace that it is given, and leaves the globals. -/
theorem sampleWriter_spares_globals :
    let t := Run.leaves (sampleWriter.run .probe 3 .captured ⟨0⟩ (some ⟨1⟩)) samplePlaces
    Host.probe.Confined ∧ (t.bindings ⟨1⟩).get? "x" = some (.int 5) ∧
      t.bindings ⟨0⟩ = .ofList [("x", .int 7)] :=
  ⟨Host.parametric_probe.confined, by with_unfolding_all rfl,
    sampleWriter.run_writes_own Host.parametric_probe.confined 3 .captured ⟨0⟩ ⟨1⟩ samplePlaces
      (by decide) (by decide)⟩

end Sample

end StagedScript
