import StagedScript.Proofs.Control.Kept
import StagedScript.Proofs.Within

/-!
# Computations for which some fuel is enough

With enough fuel a computation settles: it ends, not for want of fuel, and with any more of it in
the same way.  What the parts of a computation settle to may depend on the functions in the store,
so a property of these is kept all along the way.  It may be given up for another one, which is
never lost again.
-/

namespace StagedScript

/-- What stopped a computation is not that its fuel is used up, and it is no comparison without an
end, unless a container holds itself. -/
structure Stop.Final (stop : Stop) (t : Store) : Prop where
  fueled : stop ≠ .outOfFuel
  founded : stop.Founded t

theorem Stop.Plain.final {stop : Stop} {t : Store} (h : stop.Plain t) : stop.Final t where
  fueled := by cases h <;> exact Stop.noConfusion
  founded := h.founded

theorem Stop.Final.error (e : RuntimeError) (t : Store) : Stop.Final (.error e) t := ⟨nofun, nofun⟩

namespace Run

variable {α β γ : Type} {I T : Store → Prop}

/-! ## Settling -/

/-- From a store with the property `I` the computation settles and leaves a store with this
property, or else with enough fuel it leaves a store with the property `T`.  Stores with `T` keep
it. -/
structure Settles (I T : Store → Prop) (X : Nat → Run α) : Prop where
  keeps : ∀ n, Keeps T (fun _ _ => True) (X n)
  ends : ∀ s, I s → ∃ n, (∃ r, Landing I Stop.Final r ∧ ∀ k, n ≤ k → X k s = r) ∨
    ∀ k, n ≤ k → Landing T (fun _ _ => True) (X k s)

/-- Both are properties of the functions alone, and the second one is not lost when functions are
made. -/
structure Watched (I T : Store → Prop) : Prop where
  functions : ∀ {s t : Store}, t.functions = s.functions → I s → I t
  steady : Steady T (fun _ _ => True)
  grown : ∀ {t : Store} (g : Function), T t → T (t.newFunction g).2

/-- There is no `while` loop among statements of a text, and making the functions that they define
keeps `I` or leads to `T`. -/
structure Leads (I T : Store → Prop) (source : Source) (ss : List Stmt) : Prop where
  loopless : ∀ s ∈ ss, s.isLoop = false
  making : ∀ {s : Stmt} {g : Function} {t : Store}, s ∈ ss → g.MadeBy source s → I t →
    I (t.newFunction g).2 ∨ T (t.newFunction g).2

theorem Leads.mono {source : Source} {ss ts : List Stmt} (h : Leads I T source ts) (hss : ss ⊆ ts) :
    Leads I T source ss := ⟨fun s hs => h.loopless s (hss hs), fun hs => h.making (hss hs)⟩

theorem Landing.bind {E : Stop → Store → Prop} {x : Run α} {k : α → Run β} {s : Store}
    (hx : Landing I E (x s)) (hk : ∀ a, Keeps I E (k a)) : Landing I E ((x >>= k) s) := by
  change Landing I E (EStateM.bind x k s)
  unfold EStateM.bind
  generalize x s = r at hx
  cases hx with
  | ok ht => exact hk _ _ ht
  | error ht hstop => exact .error ht hstop

namespace Settles

theorem of_plain {x : Run α} (hx : Plain x) (h : Watched I T) : Settles I T (fun _ => x) where
  keeps _ := hx.kept h.steady
  ends s hs := ⟨0, .inl ⟨x s, hx.keeps h.functions Stop.Plain.final s hs, fun _ _ => rfl⟩⟩

theorem pure (a : α) (h : Watched I T) : Settles I T (fun _ => Pure.pure a) := of_plain (.pure a) h

theorem throw (e : RuntimeError) :
    Settles I T (fun _ => (MonadExcept.throw (.error e) : Run α)) where
  keeps _ := .throw fun _ => trivial
  ends s hs := ⟨0, .inl ⟨.error (.error e) s, .error hs (.error e s), fun _ _ => rfl⟩⟩

theorem bind {X : Nat → Run α} {K : Nat → α → Run β} (hX : Settles I T X)
    (hK : ∀ a, Settles I T (fun n => K n a)) : Settles I T (fun n => X n >>= K n) where
  keeps n := (hX.keeps n).bind fun a => (hK a).keeps n
  ends s hs := by
    obtain ⟨n, ⟨r, hr, hX⟩ | hX⟩ := hX.ends s hs
    · cases hr with
      | @ok a t ht =>
        have hbind {k : Nat} (hk : n ≤ k) : (X k >>= K k) s = K k a t := EStateM.bind_ok (hX k hk)
        obtain ⟨m, ⟨r, hr, hK⟩ | hK⟩ := (hK a).ends t ht
        · exact ⟨max n m, .inl ⟨r, hr, fun k hk => by rw [hbind (by omega), hK k (by omega)]⟩⟩
        · exact ⟨max n m, .inr fun k hk => by rw [hbind (by omega)]; exact hK k (by omega)⟩
      | @error stop t ht hstop =>
        refine ⟨n, .inl ⟨.error stop t, .error ht hstop, fun k hk => ?_⟩⟩
        change EStateM.bind (X k) (K k) s = _
        unfold EStateM.bind
        rw [hX k hk]
    · exact ⟨n, .inr fun k hk => (hX k hk).bind fun a => (hK a).keeps k⟩

theorem map {X : Nat → Run α} {f : α → β} (hX : Settles I T X) (h : Watched I T) :
    Settles I T (fun n => f <$> X n) := by
  have hmap (n : Nat) : f <$> X n = X n >>= fun a => Pure.pure (f a) :=
    (bind_pure_comp f (X n)).symm
  simp only [hmap]
  exact hX.bind fun a => .pure (f a) h

theorem forM {F : Nat → γ → Run PUnit} {l : List γ} (hF : ∀ c, Settles I T (fun n => F n c))
    (h : Watched I T) : Settles I T (fun n => l.forM (F n)) := by
  induction l with
  | nil => exact .pure () h
  | cons c l ih => exact (hF c).bind fun _ => ih

theorem foldlM {F : Nat → α → γ → Run α} {l : List γ} (hF : ∀ a c, Settles I T (fun n => F n a c))
    (h : Watched I T) (a : α) : Settles I T (fun n => l.foldlM (F n) a) := by
  induction l generalizing a with
  | nil => exact .pure a h
  | cons c l ih =>
    simp only [List.foldlM_cons]
    exact (hF a c).bind ih

theorem locating {X : Nat → Run α} (hX : Settles I T X) (h : Watched I T)
    (location : Unit → Location) :
    Settles I T (fun n => locating location (X n)) where
  keeps n := (hX.keeps n).locating h.steady location
  ends s hs := by
    obtain ⟨n, ⟨r, hr, hX⟩ | hX⟩ := hX.ends s hs
    · refine ⟨n, .inl ⟨Run.locating location (fun _ => r) s, ?_, fun k hk => ?_⟩⟩
      · unfold Run.locating
        cases hr with
        | ok ht => exact .ok ht
        | @error stop t ht hstop =>
          cases stop with
          | outOfFuel => exact absurd rfl hstop.fueled
          | error e => exact .error ht (.error _ t)
          | aborted why => exact .error ht hstop
      · unfold Run.locating
        rw [hX k hk]
    · refine ⟨n, .inr fun k hk => ?_⟩
      have hX := hX k hk
      unfold Run.locating
      generalize X k s = r at hX
      cases hX with
      | ok ht => exact .ok ht
      | @error stop t ht _ => cases stop <;> exact .error ht trivial

end Settles

/-! ## Evaluating -/

-- Recursive calls do not name the variables of the section, which counts as not using them.
set_option linter.unusedSectionVars false

section

variable (h : Watched I T) {calls : Nat → Caller}
    (hcalls : ∀ v args, Settles I T (fun n => calls n v args))
  (f : Frame)
include h hcalls

mutual

theorem eval_settles (e : Expr) : Settles I T (fun n => eval (calls n) f e) := by
  cases e with
  | int _ _ | float _ _ | bool _ _ | none_ _ => exact .pure _ h
  | str span text => exact .of_plain (.newStr text) h
  | name span x => exact .of_plain (.lookup f x) h
  | tuple span es => exact (evalAll_settles es).bind fun vs => .of_plain (.newTuple vs) h
  | list span es => exact (evalAll_settles es).bind fun vs => .of_plain (.newList vs) h
  | dict span es => exact (evalEntries_settles es).bind fun _ => .of_plain (.newDict _) h
  | binary span op l r =>
    exact (eval_settles l).bind fun a => (eval_settles r).bind fun b => .of_plain (.binary op a b) h
  | unary span op e => exact (eval_settles e).bind fun v => .of_plain (.unary op v) h
  | logical span op l r =>
    refine (eval_settles l).bind fun a => (Settles.of_plain (.view _) h).bind fun holds => ?_
    split
    · exact .pure _ h
    · exact .pure _ h
    · exact eval_settles r
  | compare span op l r =>
    exact (eval_settles l).bind fun a => (eval_settles r).bind fun b =>
      (Settles.of_plain (.compare op a b) h).bind fun _ => .pure _ h
  | call span g args =>
    exact (eval_settles g).bind fun callee => (evalArgs_settles _ args).bind fun _ =>
      hcalls callee _
  | attr span o x => exact (eval_settles o).bind fun v => .of_plain (.getAttr v x) h
  | subscript span o i =>
    exact (eval_settles o).bind fun c => (eval_settles i).bind fun j => .of_plain (.getItem c j) h

theorem evalAll_settles (es : List Expr) : Settles I T (fun n => evalAll (calls n) f es) := by
  cases es with
  | nil => exact .pure _ h
  | cons e es => exact (eval_settles e).bind fun v => (evalAll_settles es).bind fun vs => .pure _ h

theorem evalEntries_settles (es : List (Expr × Expr)) :
    Settles I T (fun n => evalEntries (calls n) f es) := by
  cases es with
  | nil => exact .pure _ h
  | cons entry es =>
    obtain ⟨k, e⟩ := entry
    exact (eval_settles k).bind fun key => (Settles.of_plain (.dictKey key) h).bind fun _ =>
      (eval_settles e).bind fun _ => (evalEntries_settles es).bind fun _ => .pure _ h

theorem evalArgs_settles (before : Arguments) (args : List (Arg Expr)) :
    Settles I T (fun n => evalArgs (calls n) f before args) := by
  cases args with
  | nil => exact .pure _ h
  | cons arg args =>
    obtain ⟨role, e⟩ := arg
    exact (eval_settles e).bind fun v => (Settles.of_plain (.addArgument before role v) h).bind
      fun now =>
      evalArgs_settles now args

end

mutual

theorem assign_settles (target : Expr) (v : Value) :
    Settles I T (fun n => assign (calls n) f target v) := by
  cases target with
  | name span x => exact .of_plain (.bindName f x v) h
  | tuple span ts | list span ts =>
    exact (Settles.of_plain (.items v) h).bind fun vs =>
      (Settles.of_plain (.checkUnpack _ vs) h).bind fun _ => assignAll_settles ts vs
  | attr span o x =>
    exact (eval_settles h hcalls f o).bind fun w => .of_plain (.setAttr w v x) h
  | subscript span o i =>
    exact (eval_settles h hcalls f o).bind fun c => (eval_settles h hcalls f i).bind fun j =>
      .of_plain (.setItem c j v) h
  | _ => exact .throw _

theorem assignAll_settles (targets : List Expr) (vs : List Value) :
    Settles I T (fun n => assignAll (calls n) f targets vs) := by
  cases targets with
  | nil => exact .pure _ h
  | cons t ts =>
    cases vs with
    | nil => exact .pure _ h
    | cons v vs => exact (assign_settles t v).bind fun _ => assignAll_settles ts vs

end

theorem evalParams_settles (ps : List (Param Expr)) :
    Settles I T (fun n => evalParams (calls n) f ps) := by
  induction ps with
  | nil => exact .pure _ h
  | cons p ps ih =>
    obtain ⟨name, kind⟩ := p
    have hrest (kind : ParamKind Value) : Settles I T (fun n => (do
        return ⟨name, kind⟩ :: (← evalParams (calls n) f ps) : Run _)) := ih.bind fun _ => .pure _ h
    cases kind with
    | plain default? =>
      cases default? with
      | none => exact hrest _
      | some e =>
        unfold evalParams
        simp only [pure_bind]
        exact (eval_settles h hcalls f e).bind fun _ => ih.bind fun _ => .pure _ h
    | star | starStar => exact hrest _

/-- Defining a function leads where making it leads. -/
theorem define_settles {span : Span} {d : Definition} {ss : List Stmt} (hss : Leads I T f.source ss)
    (hd : .define span d.name d.decorators d.params d.body ∈ ss) :
    Settles I T (fun n => define (calls n) f span d) := by
  refine (evalAll_settles h hcalls f _).bind fun ds => (evalParams_settles h hcalls f _).bind
    fun ps => ?_
  have hmade : Settles I T (fun _ => do
      let captured ← view (f.capture · d.freeNames)
      Run.make (·.newFunction ⟨d.name, d, ps, f.globals, captured, f.origin span⟩)) := by
    constructor
    · exact fun _ => .view_bind fun s _ => .make fun _ => h.grown _
    · intro s hs
      have hg :=
        hss.making (g := ⟨d.name, d, ps, f.globals, f.capture s d.freeNames, f.origin span⟩) hd
        ⟨rfl, rfl, rfl, f.keys_capture_subset s d.freeNames⟩ hs
      rcases hg with hg | hg
      · exact ⟨0, .inl ⟨_, .ok hg, fun _ _ => rfl⟩⟩
      · exact ⟨0, .inr fun _ _ => .ok hg⟩
  have hdecorated (r : FunctionRef) : Settles I T (fun n => decorate (calls n) ds (.function r)) :=
    .foldlM (fun v decorator => hcalls decorator _) h _
  exact hmade.bind hdecorated

theorem checkBase_settles (name : String) (base : Option Expr) :
    Settles I T (fun n => checkBase (calls n) f name base) := by
  cases base with
  | none => exact .of_plain (.failTyping rfl) h
  | some e =>
    refine (eval_settles h hcalls f e).bind fun v => ?_
    split
    · exact .pure _ h
    · exact .of_plain (.failTyping rfl) h

end

/-! ## Executing -/

theorem eachItem_settles (h : Watched I T) {body : Nat → Value → Run Flow}
    (hbody : ∀ v, Settles I T (fun n => body n v)) (ms : List Member) :
    Settles I T (fun n => eachItem (body n) ms) := by
  induction ms with
  | nil => exact .pure _ h
  | cons m ms ih =>
    refine (Settles.of_plain (.take m) h).bind fun v => (hbody v).bind fun flow => ?_
    cases flow with
    | next | cont => exact ih
    | brk | ret _ => exact .pure _ h

section

variable (h : Watched I T) {calls : Nat → Caller}
    (hcalls : ∀ v args, Settles I T (fun n => calls n v args))
include h hcalls

mutual

theorem exec_settles (f : Frame) (s : Stmt) (hs : Leads I T f.source s.within) :
    Settles I T (fun n => exec (calls n) n f s) := by
  cases s with
  | expr span e => exact ((eval_settles h hcalls f e).map h).bind fun _ => .pure _ h
  | assign span ts e =>
    refine (eval_settles h hcalls f e).bind fun v => ?_
    exact (Settles.forM (fun t => assign_settles h hcalls f t v) h).bind fun _ => .pure _ h
  | pass span | brk span | cont span => exact .pure _ h
  | ret span value =>
    cases value with
    | none => exact .pure _ h
    | some e => exact (eval_settles h hcalls f e).bind fun _ => .pure _ h
  | cond span test a b =>
    refine (eval_settles h hcalls f test).bind fun v => (Settles.of_plain (.view _) h).bind
      fun holds => ?_
    split
    · exact execAll_settles f a (hs.mono fun t ht =>
        List.mem_cons_of_mem _ (List.mem_append_left _ ht))
    · exact execAll_settles f b (hs.mono fun t ht =>
        List.mem_cons_of_mem _ (List.mem_append_right _ ht))
  | loop span test body => exact absurd (hs.loopless _ List.mem_cons_self) (by simp [Stmt.isLoop])
  | each span target iter body els =>
    refine (eval_settles h hcalls f iter).bind fun v => (Settles.of_plain (.members v) h).bind
      fun ms => ?_
    -- The items are those that there are when the loop starts, so there are so many rounds at most.
    have hround (w : Value) : Settles I T (fun n => do
        assign (calls n) f target w; execAll (calls n) n f body) :=
      (assign_settles h hcalls f target w).bind fun _ => execAll_settles f body
        (hs.mono fun t ht => List.mem_cons_of_mem _ (List.mem_append_left _ ht))
    refine (eachItem_settles h hround ms).bind fun flow => ?_
    cases flow with
    | next | cont =>
      exact execAll_settles f els
        (hs.mono fun t ht => List.mem_cons_of_mem _ (List.mem_append_right _ ht))
    | brk | ret _ => exact .pure _ h
  | define span name ds ps body =>
    refine (define_settles (d := ⟨name, ds, ps, body⟩) h hcalls f hs List.mem_cons_self).bind
      fun v => ?_
    exact (Settles.of_plain (.bindName f name v) h).bind fun _ => .pure _ h
  | class_ span name base body =>
    refine (checkBase_settles h hcalls f name base).bind fun _ => ?_
    refine (Settles.of_plain (.make fun _ => rfl) h).bind fun locals => ?_
    refine (execAll_settles (f.inside locals) body (hs.mono (List.subset_cons_self _ _))).bind
      fun flow => ?_
    cases flow with
    | next =>
      refine (Settles.of_plain (.view _) h).bind fun t =>
        (Settles.of_plain (.newRecordType name _ t) h).bind fun v => ?_
      exact (Settles.of_plain (.bindName f name v) h).bind fun _ => .pure _ h
    | _ => exact .pure _ h

/-- Executing statements without loops settles if calls do. -/
theorem execAll_settles (f : Frame) (b : List Stmt) (hb : Leads I T f.source (Stmt.withinAll b)) :
    Settles I T (fun n => execAll (calls n) n f b) := by
  cases b with
  | nil => exact .pure _ h
  | cons s ss =>
    have hs := exec_settles f s (hb.mono fun t ht => List.mem_append_left _ ht)
    refine (hs.locating h _).bind fun flow => ?_
    cases flow with
    | next => exact execAll_settles f ss (hb.mono fun t ht => List.mem_append_right _ ht)
    | _ => exact .pure _ h

end

end

end Run

end StagedScript
