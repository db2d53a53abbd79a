import StagedScript.Proofs.Control.Library
import StagedScript.Proofs.Tables
import StagedScript.Proofs.Within
import StagedScript.Run.Call

/-!
# What execution keeps

Only definitions and calls change the functions in a store.  So execution keeps a property of these
if calls do, and if making the functions that the statements define does.
-/

namespace StagedScript

/-- Every call keeps a property of the store, and what stops it has another. -/
def Caller.Keeps (I : Store → Prop) (E : Stop → Store → Prop) (call : Caller) : Prop :=
  ∀ v args, Run.Keeps I E (call v args)

/-- The function is one that a statement of a text defines. -/
structure Function.MadeBy (g : Function) (source : Source) (s : Stmt) : Prop where
  stmt : s = .define g.origin.span g.definition.name g.definition.decorators g.definition.params
    g.definition.body
  name : g.name = g.definition.name
  source : g.origin.source = source
  captured : g.captured.keys ⊆ g.definition.freeNames

/-- A function that is found after another one has been made is that one, or was there before. -/
theorem Store.getFunction?_newFunction {s : Store} {f g : Function} {r : FunctionRef}
    (h : (s.newFunction f).2.getFunction? r = some g) : g = f ∨ s.getFunction? r = some g := by
  simp only [newFunction, getFunction?, Array.getElem?_push] at h ⊢
  split at h
  · exact .inl (Option.some.inj h).symm
  · exact .inr h

/-- A function captures no names but those that it needs from outside. -/
theorem Frame.keys_capture_subset (f : Frame) (s : Store) (names : List String) :
    (f.capture s names).keys ⊆ names := by
  intro x hx
  unfold capture at hx
  split at hx
  · cases hx
  · rw [Table.ofList, Table.mem_keys_insertAll] at hx
    rcases hx with hx | hx
    · cases hx
    · obtain ⟨e, he, rfl⟩ := List.mem_map.1 hx
      obtain ⟨y, hy, he⟩ := List.mem_filterMap.1 he
      obtain ⟨v, -, rfl⟩ := Option.map_eq_some_iff.1 he
      exact hy

namespace Run

variable {α β γ : Type} {I : Store → Prop} {E : Stop → Store → Prop}

/-- An expression can be assigned to, or else a stop because it cannot be has the property that is
asked of stops. -/
def Assigns (E : Stop → Store → Prop) (target : Expr) : Prop :=
  target.Target ∨ ∀ t, E (.error ⟨none, .typing .notAssignable⟩) t

/-- Making the functions that statements of a text define keeps a property of the store, and what
the statements assign to can be assigned to. -/
structure Admits (I : Store → Prop) (E : Stop → Store → Prop) (source : Source) (ss : List Stmt) :
    Prop where
  making : ∀ {s : Stmt} {g : Function} {t : Store}, s ∈ ss → g.MadeBy source s → I t →
    I (t.newFunction g).2
  targets : ∀ {s : Stmt} {target : Expr}, s ∈ ss → target ∈ s.targets → Assigns E target

theorem Admits.mono {source : Source} {ss ts : List Stmt} (h : Admits I E source ts)
    (hss : ss ⊆ ts) :
    Admits I E source ss := ⟨fun hs => h.making (hss hs), fun hs => h.targets (hss hs)⟩

/-- The property of stores is one of the functions alone, and what is asked of stops holds of those
that are not about statements, and of errors wherever they leave a statement. -/
structure Steady (I : Store → Prop) (E : Stop → Store → Prop) : Prop where
  functions : ∀ {s t : Store}, t.functions = s.functions → I s → I t
  plain : ∀ {stop : Stop} {t : Store}, stop.Plain t → E stop t
  fuel : ∀ t, E .outOfFuel t
  leaving : ∀ {e : RuntimeError} {t : Store} (location : Location),
    E (.error e) t → E (.error (e.leaving location)) t

theorem Plain.kept {x : Run α} (hx : Plain x) (h : Steady I E) : Keeps I E x :=
  hx.keeps h.functions h.plain

theorem Keeps.view_bind {f : Store → α} {k : α → Run β}
    (hk : ∀ s, I s → Keeps I E (k (f s))) : Keeps I E (Run.view f >>= k) :=
  fun s hs => hk s hs s hs

/-- What follows a computation is only asked about the results that the computation has. -/
theorem Keeps.bind_result {x : Run α} {k : α → Run β} (hx : Keeps I E x)
    (hk : ∀ {s a t}, x s = .ok a t → Keeps I E (k a)) : Keeps I E (x >>= k) := by
  intro s hs
  change Landing I E (EStateM.bind x k s)
  unfold EStateM.bind
  have h := hx s hs
  cases hresult : x s with
  | ok a t =>
    rw [hresult] at h
    cases h with
    | ok ht => exact hk hresult t ht
  | error stop t =>
    rw [hresult] at h
    cases h with
    | error ht hstop => exact .error ht hstop

theorem Keeps.locating {x : Run α} (hx : Keeps I E x) (h : Steady I E)
    (location : Unit → Location) :
    Keeps I E (locating location x) := by
  intro s hs
  have hx := hx s hs
  unfold Run.locating
  generalize x s = r at hx
  cases hx with
  | ok ht => exact .ok ht
  | @error stop t ht hstop =>
    cases stop with
    | outOfFuel | aborted _ => exact .error ht hstop
    | error e => exact .error ht (h.leaving _ hstop)

/-! ## Evaluating -/

-- Recursive calls do not name the variables of the section, which counts as not using them.
set_option linter.unusedSectionVars false

section

variable (h : Steady I E) {call : Caller} (hcall : call.Keeps I E) (f : Frame)
include h hcall

mutual

theorem eval_kept (e : Expr) : Keeps I E (eval call f e) := by
  cases e with
  | int _ _ | float _ _ | bool _ _ | none_ _ => exact .pure _
  | str span text => exact (Plain.newStr text).kept h
  | name span x => exact (Plain.lookup f x).kept h
  | tuple span es => exact (evalAll_kept es).bind fun vs => (Plain.newTuple vs).kept h
  | list span es => exact (evalAll_kept es).bind fun vs => (Plain.newList vs).kept h
  | dict span es => exact (evalEntries_kept es).bind fun _ => (Plain.newDict _).kept h
  | binary span op l r =>
    exact (eval_kept l).bind fun a => (eval_kept r).bind fun b =>
      (Plain.binary op a b).kept h
  | unary span op e => exact (eval_kept e).bind fun v => (Plain.unary op v).kept h
  | logical span op l r =>
    refine (eval_kept l).bind fun a => (Keeps.view _).bind fun holds => ?_
    split
    · exact .pure _
    · exact .pure _
    · exact eval_kept r
  | compare span op l r =>
    exact (eval_kept l).bind fun a => (eval_kept r).bind fun b =>
      ((Plain.compare op a b).kept h).bind fun _ => .pure _
  | call span g args =>
    exact (eval_kept g).bind fun callee => (evalArgs_kept _ args).bind fun _ => hcall callee _
  | attr span o x => exact (eval_kept o).bind fun v => (Plain.getAttr v x).kept h
  | subscript span o i =>
    exact (eval_kept o).bind fun c => (eval_kept i).bind fun j => (Plain.getItem c j).kept h

theorem evalAll_kept (es : List Expr) : Keeps I E (evalAll call f es) := by
  cases es with
  | nil => exact .pure _
  | cons e es => exact (eval_kept e).bind fun v => (evalAll_kept es).bind fun vs => .pure _

theorem evalEntries_kept (es : List (Expr × Expr)) : Keeps I E (evalEntries call f es) := by
  cases es with
  | nil => exact .pure _
  | cons entry es =>
    obtain ⟨k, e⟩ := entry
    exact (eval_kept k).bind fun key => ((Plain.dictKey key).kept h).bind fun _ =>
      (eval_kept e).bind fun _ => (evalEntries_kept es).bind fun _ => .pure _

theorem evalArgs_kept (before : Arguments) (args : List (Arg Expr)) :
    Keeps I E (evalArgs call f before args) := by
  cases args with
  | nil => exact .pure _
  | cons arg args =>
    obtain ⟨role, e⟩ := arg
    exact (eval_kept e).bind fun v => ((Plain.addArgument before role v).kept h).bind fun now =>
      evalArgs_kept now args

end

mutual

theorem assign_kept (target : Expr) (ht : Assigns E target) (v : Value) :
    Keeps I E (assign call f target v) := by
  cases target with
  | name span x => exact (Plain.bindName f x v).kept h
  | tuple span ts =>
    refine ((Plain.items v).kept h).bind fun vs => ((Plain.checkUnpack _ vs).kept h).bind
      fun _ => ?_
    exact assignAll_kept ts (fun t hmem => ht.imp (fun | .tuple _ h => h t hmem) id) vs
  | list span ts =>
    refine ((Plain.items v).kept h).bind fun vs => ((Plain.checkUnpack _ vs).kept h).bind
      fun _ => ?_
    exact assignAll_kept ts (fun t hmem => ht.imp (fun | .list _ h => h t hmem) id) vs
  | attr span o x => exact (eval_kept h hcall f o).bind fun w => (Plain.setAttr w v x).kept h
  | subscript span o i =>
    exact (eval_kept h hcall f o).bind fun c => (eval_kept h hcall f i).bind fun j =>
      (Plain.setItem c j v).kept h
  | _ => exact .throw (ht.resolve_left nofun)

theorem assignAll_kept (targets : List Expr) (hts : ∀ t ∈ targets, Assigns E t) (vs : List Value) :
    Keeps I E (assignAll call f targets vs) := by
  cases targets with
  | nil => exact .pure _
  | cons t ts =>
    obtain ⟨ht, hts⟩ := List.forall_mem_cons.1 hts
    cases vs with
    | nil => exact .pure _
    | cons v vs => exact (assign_kept t ht v).bind fun _ => assignAll_kept ts hts vs

end

theorem evalParams_kept (ps : List (Param Expr)) : Keeps I E (evalParams call f ps) := by
  induction ps with
  | nil => exact .pure _
  | cons p ps ih =>
    obtain ⟨name, kind⟩ := p
    cases kind with
    | plain default? =>
      cases default? with
      | none => exact (Keeps.pure _).bind fun _ => ih.bind fun _ => .pure _
      | some e =>
        unfold evalParams
        simp only [pure_bind]
        exact (eval_kept h hcall f e).bind fun _ => ih.bind fun _ => .pure _
    | star => exact (Keeps.pure _).bind fun _ => ih.bind fun _ => .pure _
    | starStar => exact (Keeps.pure _).bind fun _ => ih.bind fun _ => .pure _

/-- Defining a function keeps what making it keeps. -/
theorem define_kept {span : Span} {d : Definition} {ss : List Stmt} (hss : Admits I E f.source ss)
    (hd : .define span d.name d.decorators d.params d.body ∈ ss) :
    Keeps I E (define call f span d) := by
  refine (evalAll_kept h hcall f _).bind fun ds => (evalParams_kept h hcall f _).bind fun ps => ?_
  refine .view_bind fun s _ => ?_
  have hkeys := f.keys_capture_subset s d.freeNames
  refine (Keeps.make fun t ht => hss.making hd ⟨rfl, rfl, rfl, hkeys⟩ ht).bind fun r => ?_
  exact .foldlM (fun v decorator => hcall decorator _) _

theorem checkBase_kept (name : String) (base : Option Expr) :
    Keeps I E (checkBase call f name base) := by
  cases base with
  | none => exact (Plain.failTyping rfl).kept h
  | some e =>
    refine (eval_kept h hcall f e).bind fun v => ?_
    split
    · exact .pure _
    · exact (Plain.failTyping rfl).kept h

end

/-! ## Executing -/

theorem eachItem_kept (h : Steady I E) {body : Value → Run Flow} (hbody : ∀ v, Keeps I E (body v))
    (ms : List Member) : Keeps I E (eachItem body ms) := by
  induction ms with
  | nil => exact .pure _
  | cons m ms ih =>
    refine ((Plain.take m).kept h).bind fun v => (hbody v).bind fun flow => ?_
    cases flow with
    | next | cont => exact ih
    | brk | ret _ => exact .pure _

theorem whileHolds_kept (h : Steady I E) {test : Run Bool} {body : Run Flow}
    (htest : Keeps I E test) (hbody : Keeps I E body) (rounds : Nat) :
    Keeps I E (whileHolds test body rounds) := by
  induction rounds with
  | zero => exact .throw h.fuel
  | succ rounds ih =>
    refine htest.bind fun holds => ?_
    split
    · refine hbody.bind fun flow => ?_
      cases flow with
      | next | cont => exact ih
      | brk | ret _ => exact .pure _
    · exact .pure _

section

variable (h : Steady I E) {call : Caller} (hcall : call.Keeps I E) (rounds : Nat)
include h hcall

mutual

theorem exec_kept (f : Frame) (s : Stmt) (hs : Admits I E f.source s.within) :
    Keeps I E (exec call rounds f s) := by
  cases s with
  | expr span e => exact (eval_kept h hcall f e).map.bind fun _ => .pure _
  | assign span ts e =>
    refine (eval_kept h hcall f e).bind fun v => ?_
    refine (Keeps.forM_mem fun t ht => ?_).bind fun _ => .pure _
    exact assign_kept h hcall f t (hs.targets List.mem_cons_self ht) v
  | pass span | brk span | cont span => exact .pure _
  | ret span value =>
    cases value with
    | none => exact .pure _
    | some e => exact (eval_kept h hcall f e).bind fun _ => .pure _
  | cond span test a b =>
    refine (eval_kept h hcall f test).bind fun v => (Keeps.view _).bind fun holds => ?_
    split
    · exact execAll_kept f a (hs.mono fun t ht =>
        List.mem_cons_of_mem _ (List.mem_append_left _ ht))
    · exact execAll_kept f b (hs.mono fun t ht =>
        List.mem_cons_of_mem _ (List.mem_append_right _ ht))
  | loop span test body =>
    refine whileHolds_kept h ?_ (execAll_kept f body (hs.mono (List.subset_cons_self _ _))) rounds
    exact (eval_kept h hcall f test).bind fun _ => .view _
  | each span target iter body els =>
    refine (eval_kept h hcall f iter).bind fun v => ((Plain.members v).kept h).bind fun ms => ?_
    have hround (w : Value) : Keeps I E (do assign call f target w; execAll call rounds f body) :=
      (assign_kept h hcall f target (hs.targets List.mem_cons_self List.mem_cons_self) w).bind
      fun _ =>
        execAll_kept f body (hs.mono fun t ht => List.mem_cons_of_mem _ (List.mem_append_left _ ht))
    refine (eachItem_kept h hround ms).bind fun flow => ?_
    cases flow with
    | next | cont =>
      exact execAll_kept f els (hs.mono fun t ht =>
        List.mem_cons_of_mem _ (List.mem_append_right _ ht))
    | brk | ret _ => exact .pure _
  | define span name ds ps body =>
    refine (define_kept (d := ⟨name, ds, ps, body⟩) h hcall f hs List.mem_cons_self).bind
      fun v => ?_
    exact ((Plain.bindName f name v).kept h).bind fun _ => .pure _
  | class_ span name base body =>
    refine (checkBase_kept h hcall f name base).bind fun _ => ?_
    refine ((Plain.make fun _ => rfl).kept h).bind fun locals => ?_
    refine (execAll_kept (f.inside locals) body (hs.mono (List.subset_cons_self _ _))).bind
      fun flow => ?_
    cases flow with
    | next =>
      refine (Keeps.view _).bind fun t => ((Plain.newRecordType name _ t).kept h).bind fun v => ?_
      exact ((Plain.bindName f name v).kept h).bind fun _ => .pure _
    | _ => exact .pure _

/-- Executing statements keeps what making the functions within them keeps. -/
theorem execAll_kept (f : Frame) (b : List Stmt) (hb : Admits I E f.source (Stmt.withinAll b)) :
    Keeps I E (execAll call rounds f b) := by
  cases b with
  | nil => exact .pure _
  | cons s ss =>
    have hs := exec_kept f s (hb.mono fun t ht => List.mem_append_left _ ht)
    refine (hs.locating h _).bind fun flow => ?_
    cases flow with
    | next => exact execAll_kept f ss (hb.mono fun t ht => List.mem_append_right _ ht)
    | _ => exact .pure _

end

end

end Run

/-! ## Calling -/

section

variable {I : Store → Prop} {E : Stop → Store → Prop} (h : Run.Steady I E) {host : Host}
  (hhost : ∀ {call : Caller}, call.Keeps I E → ∀ name args, Run.Keeps I E (host name call args))
  (hunroll : ∀ {call : Caller}, call.Keeps I E → ∀ rounds names v,
    Run.Keeps I E (Unroll.toRun (unrollOver call rounds names v)))
include h hhost hunroll

theorem Native.call_kept {call : Caller} (hcall : call.Keeps I E) (rounds : Nat) (kind : Native)
    (held : List (String × Value)) (args : Arguments) :
    Run.Keeps I E (kind.call host call rounds held args) := by
  unfold Native.call
  split
  · exact (Run.Plain.newNative _ _).kept h
  · exact (Run.Plain.newNative _ _).kept h
  · exact (Run.Plain.fail rfl).kept h
  · exact (Run.Plain.fail rfl).kept h
  · exact hunroll hcall rounds _ _
  · exact .pure _
  · exact (Run.Plain.fail rfl).kept h
  · exact (Run.Plain.fail rfl).kept h
  · exact hhost hcall _ _

/-- Calls keep what the bodies of functions, making functions anew and the natives of the host keep
as long as the calls that they make do. -/
theorem callIn_kept
    (hbody : ∀ {call : Caller}, call.Keeps I E → ∀ rounds {s : Store} {r f}, I s →
      s.getFunction? r = some f → ∀ args, Run.Keeps I E (Run.callBody call rounds f args))
    (fuel : Nat) (m : Machine) : (callIn host fuel m).Keeps I E := by
  induction fuel generalizing m with
  | zero => exact fun _ _ => .throw h.fuel
  | succ fuel ih =>
    intro callee args
    unfold callIn
    split
    · split
      · exact (Run.Plain.fail rfl).kept h
      · refine Run.Keeps.view_bind fun s hs => ?_
        cases hf : s.getFunction? _ with
        | some f => exact hbody (ih m.deeper) fuel hs hf args
        | none => exact (Run.Plain.failNaming fun _ => rfl).kept h
    · exact (Run.Plain.callBuiltin _ _ args).kept h
    · exact Native.call_kept h hhost hunroll (ih m) fuel _ _ args
    · exact ((Run.Plain.instantiate _ args).bind fun _ => .pure _).kept h
    · exact (Run.Plain.callMethod _ args).kept h
    · exact (Run.Plain.failNaming fun _ => rfl).kept h

end

/-- The natives for trying things out keep what the calls that they make keep. -/
theorem Host.probe_kept {I : Store → Prop} {E : Stop → Store → Prop} (h : Run.Steady I E)
    {call : Caller} (hcall : call.Keeps I E) (name : String) (args : Arguments) :
    Run.Keeps I E (Host.probe name call args) := by
  unfold Host.probe
  split
  · exact (Run.Plain.echo args).kept h
  · exact (Run.Plain.failWith _ args).kept h
  · unfold Host.applyFirst
    split
    · exact (Run.Plain.fail rfl).kept h
    · exact hcall _ _
  · exact (Run.Plain.fail rfl).kept h

end StagedScript
