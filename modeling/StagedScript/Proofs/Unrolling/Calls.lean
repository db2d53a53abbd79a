import StagedScript.Proofs.Unrolling.Execution
import StagedScript.Run.Call

/-!
# Calls of unrolled functions

Calling a function and calling the same with its loops unrolled ends in the same way.  The induction
is on the fuel; the step executes the body, or specializes a function, which reads its text and
not its body.
-/

namespace StagedScript

open Run

variable {known : Table Extent} {base : Fact → Prop} {h : Hidden} {facts : Fact → Prop}

/-! ## Frames for code that is the same -/

/-- A frame in a new namespace is ready for any code, where nothing is to be unrolled. -/
theorem Frame.ready_of_fresh {f : Frame} (hf : f.Avoids h)
    (hfresh : ∀ φ, base φ ∨ facts φ → φ.place ≠ f.locals) (b : List Stmt) :
    f.Ready .empty base h facts (fun _ => True) ⟨fun _ => none, none, fun _ => none⟩ b where
  avoids := hf
  sight := ⟨fun _ hx => absurd trivial hx, fun _ hx => absurd trivial hx,
    fun _ _ hx => absurd trivial hx⟩
  resolved := Stmt.resolvedAll_empty b
  free φ hφ hplace := absurd hplace (hfresh φ hφ)

/-! ## Bodies -/

theorem Function.bindArguments_withBody (f : Function) (b : List Stmt) (args : Arguments) :
    Run.bindArguments (f.withBody b) args = Run.bindArguments f args := by
  have hfillings (ps : List (Param Value)) (places : List Value) :
      (f.withBody b).fillings args ps places = f.fillings args ps places := by
    induction ps generalizing places with
    | nil => rfl
    | cons p ps ih =>
      unfold fillings
      simp only [ih]
      rfl
  have hnames (count : Nat) (es : List (String × Value)) :
      (f.withBody b).checkNames count es = f.checkNames count es := by
    induction es with
    | nil => rfl
    | cons e es ih =>
      unfold checkNames
      rw [ih]
      rfl
  unfold Run.bindArguments Function.bindArguments
  rw [hfillings, hnames]
  rfl

/-- The frame of a call, in a new namespace, is ready for the body. -/
theorem Function.Sees.ready {f : Function} {hidden : String → Prop} {σ : Sight}
    (hf : f.Sees known base hidden σ) {r : NamespaceRef}
    (havoids : Frame.Avoids h ⟨r, f.globals, some f.captured, f.origin.source, f.origin.lineOffset⟩)
    (hfresh : ∀ φ, base φ ∨ facts φ → φ.place ≠ r) :
    Frame.Ready known base h (fun φ => facts φ ∨ φ.Unbound hidden r) hidden σ
      ⟨r, f.globals, some f.captured, f.origin.source, f.origin.lineOffset⟩ f.definition.body where
  avoids := havoids
  sight := {
    here := fun x hx => Or.inr (Or.inr ⟨rfl, hf.here x, hx⟩)
    around := hf.around
    beyond := hf.beyond }
  resolved := hf.resolved
  free := by
    rintro φ (hφ | hφ | hφ) hplace
    · exact absurd hplace (hfresh φ (Or.inl hφ))
    · exact absurd hplace (hfresh φ (Or.inr hφ))
    · exact fun hx => hφ.name (hf.binds _ hx)

section

variable {call : Caller} (hcall : ∀ facts, call.Respects h (Related known base h facts))
  (rounds : Nat)
include hcall

/-- The body of a function and the same unrolled are executed alike, if the frame of the call is
ready for it whatever the parameters are bound to. -/
theorem Function.callBody_matches {known' : Table Extent}
    (hknown : known' = known ∨ known' = .empty) {f : Function} {b : List Stmt}
    (hb : Unrolls known' f.definition.body b) {args : Arguments} {P : Table Value → Prop}
    (hargs : Respects (Related known base h facts) (fun t => t.Avoids h ∧ P t)
      (Run.bindArguments f args))
    (hidden : String → Prop) {σ : Sight} (more : NamespaceRef → Fact → Prop)
    (hmore : ∀ t, P t → ∀ r φ, more r φ → φ.place = r ∧ t.get? φ.name = φ.value?)
    (hready : ∀ r, ¬ h.namespaces r → (∀ φ, base φ ∨ facts φ → φ.place ≠ r) →
      Frame.Ready known' base h (fun φ => facts φ ∨ more r φ) hidden σ
        ⟨r, f.globals, some f.captured, f.origin.source, f.origin.lineOffset⟩ f.definition.body) :
    Matches (Related known base h facts) (fun a b => a = b ∧ a.Avoids h)
      (callBody call rounds f args) (callBody call rounds (f.withBody b) args) := by
  unfold callBody
  rw [f.bindArguments_withBody]
  refine hargs.bind_matches fun t ⟨ht, hP⟩ => ?_
  refine Related.newNamespace (P := fun a b => a = b ∧ a.Avoids h) ht more (hmore t hP)
    (fun r hr hfresh => hb.execAll_matches hcall rounds hknown (hready r hr hfresh)) ?_
  rintro r _ flow _ ⟨rfl, hflow⟩
  cases flow with
  | next => exact .pure ⟨rfl, trivial⟩
  | ret v => exact .pure ⟨rfl, hflow⟩
  | brk => exact Kinship.fail _
  | cont => exact Kinship.fail _

/-- The bodies of functions that differ by unrolling are executed alike. -/
theorem Function.Alike.callBody_matches {f g : Function} (hfg : f.Alike known base g)
    (hf : f.Avoids h) {args : Arguments} (hargs : args.Avoids h) :
    Matches (Related known base h facts) (fun a b => a = b ∧ a.Avoids h)
      (callBody call rounds f args) (callBody call rounds g args) := by
  have K : Kinship h (Related known base h facts) := Related.kinship
  have hbind := K.bindArguments hf hargs
  have haround : ∀ t, some f.captured = some t → t.Avoids h := by
    rintro t ht
    cases ht
    exact hf.captured
  cases hfg with
  | same =>
    refine Function.callBody_matches hcall rounds (Or.inr rfl) (Unrolls.refl _) hbind
      _ (fun _ _ => False) (fun _ _ _ _ hφ => hφ.elim) fun r hr hfresh =>
        Frame.ready_of_fresh ⟨hr, hf.globals, haround⟩ ?_ _
    rintro φ (hφ | hφ | hφ)
    · exact hfresh φ (Or.inl hφ)
    · exact hfresh φ (Or.inr hφ)
    · exact hφ.elim
  | @unrolled b hb hidden σ hsees =>
    refine Function.callBody_matches hcall rounds (Or.inl rfl) hb hbind _ _
      (fun t hkeys r φ hφ => ⟨hφ.place, ?_⟩)
      fun r hr hfresh => hsees.ready ⟨hr, hf.globals, haround⟩ hfresh
    rw [hφ.value, Table.get?_eq_none_iff]
    exact fun hx => hφ.name (hsees.params _ (hkeys _ hx))

/-! ## Programs -/

/-- A program is executed alike in a new namespace. -/
theorem Program.execute_respects (p : Program) {globals r : NamespaceRef}
    (hglobals : ¬ h.namespaces globals) (hr : ¬ h.namespaces r)
    (hfresh : ∀ φ, base φ ∨ facts φ → φ.place ≠ r) :
    Respects (Related known base h facts) anything (p.execute call rounds globals (some r)) := by
  have hbody := (Unrolls.refl p.body).execAll_matches hcall rounds (Or.inr rfl)
    (Frame.ready_of_fresh (f := ⟨r, globals, none, p.source, p.lineOffset⟩)
      ⟨hr, hglobals, fun _ ht => by cases ht⟩ hfresh p.body)
  refine Respects.bind hbody fun flow _ => ?_
  split
  · exact .pure trivial
  · exact Kinship.fail _

end

/-! ## Specialization -/

section

variable {R : Store → Store → Prop} {α β : Type} {Q : α → β → Prop}

theorem Outcome.ofRun {x : Run α} {y : Run β} {s t : Store} (h : Outcome R Q (x s) (y t)) :
    Outcome R Q (Specialize.ofRun x s) (Specialize.ofRun y t) := by
  unfold Specialize.ofRun
  generalize x s = r at h
  generalize y t = q at h
  cases h with
  | ok hab hst' => exact .ok hab hst'
  | error hst' => exact .error hst'

theorem Matches.ofRun {x : Run α} {y : Run β} (hxy : Matches R Q x y) :
    Matches R Q (Specialize.ofRun x) (Specialize.ofRun y) := fun s t hst => (hxy s t hst).ofRun

theorem Specialize.ofRun_bind (x : Run α) (k : α → Run β) :
    Specialize.ofRun (x >>= k) = Specialize.ofRun x >>= fun a => Specialize.ofRun (k a) := by
  funext s
  change Specialize.ofRun (EStateM.bind x k) s =
    EStateM.bind (Specialize.ofRun x) (fun a => Specialize.ofRun (k a)) s
  unfold Specialize.ofRun EStateM.bind
  dsimp only
  cases x s <;> rfl

theorem Respects.ofRun {P : α → Prop} {x : Run α} (hx : Respects R P x) :
    Respects R P (Specialize.ofRun x) := Matches.ofRun hx

theorem Matches.toRun {x : Specialize α} {y : Specialize β} (hxy : Matches R Q x y) :
    Matches R Q (Unroll.toRun x) (Unroll.toRun y) := by
  intro s t hst
  have h := hxy s t hst
  unfold Unroll.toRun
  generalize x s = r at h
  generalize y t = q at h
  cases h with
  | ok hab hst' => exact .ok hab hst'
  | error hst' => exact .error hst'

theorem Specialize.ofExcept_respects {ε : Type} {P : α → Prop} {wrap : ε → SpecializeError}
    {x : Except ε α} (hx : ∀ a, x = .ok a → P a) : Respects R P (Specialize.ofExcept wrap x) := by
  cases x with
  | ok a => exact .pure (hx a rfl)
  | error e => exact .throw _

end

namespace Closure

/-- The closures differ in the body of the function, and what they hold is not hidden. -/
structure Alike (known : Table Extent) (base : Fact → Prop) (h : Hidden) (c d : Closure) :
    Prop where
  function : c.function.Alike known base d.function
  eq : d = { c with function := d.function }
  avoids : c.function.Avoids h
  vars : c.vars.Avoids h

section

variable {R : Store → Store → Prop} (K : Kinship h R)
include K

theorem fixed_respects {v : Value} (hv : v.Avoids h) :
    Respects R (Value.Avoids h) (Closure.fixed v) := by
  unfold Closure.fixed
  split
  · exact (K.items hv).bind fun vs hvs => K.newTuple hvs
  · exact (K.items hv).bind fun vs hvs => K.newTuple hvs
  · exact (K.items hv).bind fun vs hvs => K.newTuple hvs
  · exact (K.items hv).bind fun vs hvs => K.newTuple hvs
  · exact .pure hv

theorem fixedAll_respects {es : List (String × Value)} (hes : ∀ e ∈ es, e.2.Avoids h) :
    Respects R (fun es => ∀ e ∈ es, e.2.Avoids h) (Closure.fixedAll es) := by
  induction es with
  | nil => exact .pure (by simp)
  | cons e es ih =>
    obtain ⟨name, v⟩ := e
    have hrest := ih fun e he => hes e (List.mem_cons_of_mem _ he)
    unfold Closure.fixedAll
    dsimp only
    split
    · exact (Respects.throw (P := fun _ => False) _).bind fun _ hf => hf.elim
    · split
      · exact hrest
      · refine Respects.bind (fixed_respects K (hes (name, v) (by simp))).ofRun fun w hw => ?_
        exact hrest.bind fun es hes => .pure (List.forall_mem_cons.2 ⟨hw, hes⟩)

end

theorem varsOf_avoids {given : List (String × Value)} (hgiven : ∀ e ∈ given, e.2.Avoids h)
    {captured : Table Value} (hcaptured : captured.Avoids h) {passing : Value}
    (hpassing : passing.Avoids h) : (varsOf given captured passing).Avoids h := by
  refine ((Table.Avoids.ofList hgiven).insertAll fun e he => ?_).insert hpassing _
  exact hcaptured e (List.mem_filter.1 he).1

/-- The text around a definition is made from the text that the definition was read in. -/
theorem render_congr (f : Function) (d : Definition) :
    Closure.render { f with definition := d } = Closure.render f := by
  funext names
  unfold Closure.render Closure.write Function.sourceText
  dsimp only

/-- A closure is made of what functions that differ by unrolling have in common. -/
theorem ofFunction_matches {R : Store → Store → Prop} (K : Kinship h R) {v : Value}
    (hget : ∀ r, v = .function r → Matches R (Function.FoundAlike known base h)
      (Run.view (·.getFunction? r)) (Run.view (·.getFunction? r)))
    {given : Table Value} (hgiven : given.Avoids h) :
    Matches R (Closure.Alike known base h) (Closure.ofFunction v given)
      (Closure.ofFunction v given) := by
  unfold Closure.ofFunction
  refine (K.typeName v).ofRun.bind_matches fun type _ => ?_
  split
  · next r =>
    refine (hget r rfl).ofRun.bind ?_
    rintro _ _ (_ | @⟨f, g, hfg, hf⟩)
    · exact .throw _
    · obtain ⟨d, rfl⟩ : ∃ d, g = { f with definition := d } := ⟨_, hfg.twin.eq⟩
      dsimp only
      rw [render_congr f d]
      refine (fixedAll_respects K hgiven).bind_matches fun es hes => ?_
      refine (K.newNative .passing (by simp)).ofRun.bind_matches fun passing hpassing => ?_
      refine (Specialize.ofExcept_respects (P := anything) fun _ _ => trivial).bind_matches
        fun text _ => ?_
      refine (Specialize.ofExcept_respects (P := anything) fun _ _ => trivial).bind_matches
        fun script _ => ?_
      exact .pure ⟨hfg, rfl, hf, varsOf_avoids hes hf.captured hpassing⟩
  · exact .throw _

theorem Alike.known_eq {c d : Closure} (hcd : Closure.Alike known base h c d) {s t : Store}
    (hst : s.Twin h t) (p : String → Bool) : d.known t p = c.known s p := by
  have htype : t.typeName = s.typeName := by
    funext v
    rw [hst.eq]
    cases v <;> rfl
  have hextent : extentOf t = extentOf s := by
    funext v
    cases v <;> simp only [extentOf, htype]
  rw [hcd.eq]
  unfold Closure.known
  rw [hextent]

section

variable {call : Caller} (hcall : ∀ facts, call.Respects h (Related known base h facts))
  (rounds : Nat)
include hcall

/-- What makes a function anew reads only what the closures have in common. -/
theorem Alike.make_matches {c d : Closure} (hcd : Closure.Alike known base h c d) :
    Matches (Related known base h facts) (fun v w => v = w ∧ v.Avoids h)
      (c.make call rounds) (d.make call rounds) := by
  have K : Kinship h (Related known base h facts) := Related.kinship
  obtain ⟨g, hfg, rfl⟩ : ∃ g, c.function.Alike known base g ∧ d = { c with function := g } :=
    ⟨_, hcd.function, hcd.eq⟩
  have hglobals : g.globals = c.function.globals := by rw [hfg.twin.eq]
  have hunrolled : Closure.unrolled { c with function := g } = c.unrolled := rfl
  -- The text is executed in a namespace of its own, in which the maker is found then.
  have hmaker (program : Program) : Respects (Related known base h facts) (Table.Avoids h)
      (Run.make (·.newNamespace .empty) >>= fun r =>
        program.execute call rounds c.function.globals (some r) >>= fun _ =>
        Run.view (·.bindings r)) := by
    refine Related.newNamespace (P := fun _ _ => True) Table.avoids_empty (fun _ _ => False)
      (fun _ _ hφ => hφ.elim) (fun r hr hfresh => ?_) fun r hr _ _ _ => ?_
    · refine Matches.mono (program.execute_respects hcall rounds hcd.avoids.globals hr ?_)
        fun _ _ _ => trivial
      rintro φ (hφ | hφ | hφ)
      · exact hfresh φ (Or.inl hφ)
      · exact hfresh φ (Or.inr hφ)
      · exact hφ.elim
    · exact K.view (fun _ _ => rfl) fun s hs => hs.bindings hr
  unfold Closure.make
  rw [hunrolled]
  dsimp only
  rw [hglobals]
  refine (Specialize.ofExcept_respects (P := anything) fun _ _ => trivial).bind_matches
    fun script _ => ?_
  refine (Specialize.ofExcept_respects (P := anything) fun _ _ => trivial).bind_matches
    fun program _ => ?_
  have hrun {k : Table Value → Specialize Value} (hnone : ∀ t : Table Value,
        t.get? SpecializeError.makerName = none → k t = throw .noMaker)
      (hsome : ∀ (t : Table Value) (maker : Value), t.get? SpecializeError.makerName = some maker →
        k t = Specialize.ofRun (call maker ⟨[], c.vars⟩)) :
      Respects (Related known base h facts) (Value.Avoids h)
        (Specialize.ofRun (Run.make (·.newNamespace .empty) >>= fun r =>
          program.execute call rounds c.function.globals (some r) >>= fun _ =>
          Run.view (·.bindings r)) >>= k) := by
    refine (hmaker program).ofRun.bind fun t ht => ?_
    cases hfound : t.get? SpecializeError.makerName with
    | none =>
      rw [hnone t hfound]
      exact .throw _
    | some maker =>
      rw [hsome t maker hfound]
      exact (hcall _ maker _ (ht.get? hfound) ⟨by simp, hcd.vars⟩).ofRun
  simp only [Specialize.ofRun_bind, bind_assoc] at hrun
  exact hrun (fun t ht => by rw [ht]) (fun t maker ht => by rw [ht])

end

end Closure

/-! ## All calls -/

/-- The natives of a host work with values and calls alone: they respect what calls respect. -/
def Host.Parametric (host : Host) : Prop :=
  ∀ {h : Hidden} {R : Store → Store → Prop}, Kinship h R → ∀ {call : Caller}, call.Respects h R →
    ∀ (name : String) {args : Arguments}, args.Avoids h →
      Respects R (Value.Avoids h) (host name call args)

/-- The host for trying out native callables works with values and calls alone. -/
theorem Host.parametric_probe : Host.Parametric Host.probe := by
  intro h R K call hcall name args hargs
  unfold Host.probe
  split
  · exact (K.newTuple hargs.positional).bind fun places hplaces =>
      (K.newDict hargs.named).bind fun names hnames => K.newTuple (by simp [hplaces, hnames])
  · unfold Host.failWith
    split
    · exact .throw _
    · exact (K.text _).bind fun _ _ => .throw _
  · unfold Host.applyFirst
    split
    · exact .throw _
    · next callee places hpositional =>
      have hpos := hargs.positional
      rw [hpositional] at hpos
      exact hcall callee _ (hpos callee (by simp))
        ⟨fun v hv => hpos v (List.mem_cons_of_mem _ hv), hargs.named⟩
  · exact .throw _

section

variable {call : Caller} (hcall : ∀ facts, call.Respects h (Related known base h facts))
  (rounds : Nat)
include hcall

theorem unrollOver_respects {names : Table Value} (hnames : names.Avoids h) {v : Value}
    (hv : v.Avoids h) :
    Respects (Related known base h facts) (Value.Avoids h)
      (unrollOver call rounds names v) := by
  have hget : ∀ r, v = .function r → Matches (Related known base h facts)
      (Function.FoundAlike known base h) (Run.view (·.getFunction? r))
      (Run.view (·.getFunction? r)) := by
    rintro r rfl
    exact Related.getFunction? hv
  refine (Closure.ofFunction_matches Related.kinship hget hnames).bind fun c d hcd => ?_
  intro s t hst
  have hknown := hcd.known_eq (Related.kinship.twin hst) fun name =>
    names.contains name && name != unrollName
  have hunrolling : Closure.Alike known base h (c.unrolling (c.known s fun name =>
      names.contains name && name != unrollName)) (d.unrolling (d.known t fun name =>
      names.contains name && name != unrollName)) := by
    rw [hknown, hcd.eq]
    exact ⟨hcd.function, rfl, hcd.avoids, hcd.vars⟩
  exact hunrolling.make_matches hcall rounds s t hst

theorem Native.call_respects {host : Host} (hhost : host.Parametric) (kind : Native)
    {held : List (String × Value)} (hheld : ∀ e ∈ held, e.2.Avoids h) {args : Arguments}
    (hargs : args.Avoids h) :
    Respects (Related known base h facts) (Value.Avoids h)
      (kind.call host call rounds held args) := by
  have K : Kinship h (Related known base h facts) := Related.kinship
  have hpos := hargs.positional
  unfold Native.call
  split
  · exact K.newNative _ hargs.named
  · exact K.newNative _ (by simp)
  · exact .throw _
  · exact .throw _
  · next v hv =>
    rw [hv] at hpos
    exact (unrollOver_respects hcall rounds (Table.Avoids.ofList hheld) (hpos v (by simp))).toRun
  · next v hv =>
    rw [hv] at hpos
    exact .pure (hpos v (by simp))
  · exact .throw _
  · exact .throw _
  · exact hhost K (hcall _) _ hargs

end

/-- From stores that differ by unrolling every call ends in the same way. -/
theorem callIn_respects {host : Host} (hhost : host.Parametric) (fuel : Nat) (m : Machine)
    (facts : Fact → Prop) :
    (callIn host fuel m).Respects h (Related known base h facts) := by
  induction fuel generalizing m facts with
  | zero => exact fun _ _ _ _ => .throw _
  | succ fuel ih =>
    have K : Kinship h (Related known base h facts) := Related.kinship
    intro callee args hcallee hargs
    unfold callIn
    split
    · next r =>
      split
      · exact Kinship.fail _
      · refine (Related.getFunction? hcallee).bind ?_
        rintro _ _ (_ | @⟨f, g, hfg, hf⟩)
        · exact K.failNaming _ fun t => .typing (.notCallable t)
        · exact hfg.callBody_matches (fun facts => ih m.deeper facts) fuel hf hargs
    · exact K.callBuiltin _ _ hargs
    · exact Native.call_respects (fun facts => ih m facts) fuel hhost _
        (Value.avoids_native.1 hcallee) hargs
    · exact (K.instantiate _ hargs).bind fun _ _ => .pure trivial
    · exact K.callMethod _ hargs
    · exact K.failNaming _ fun t => .typing (.notCallable t)

end StagedScript
