import StagedScript.Proofs.Closures
import StagedScript.Proofs.Control.Kept
import StagedScript.Proofs.Programs

/-!
# Stores that a host comes to

A host executes programs that come from texts, calls values, and makes functions anew.  What holds
of every function that a text defines holds of every function in the stores that the host comes to,
and what stops no program and no call in such a store is known from the statements of the texts.
-/

namespace StagedScript

/-! ## Scripts -/

/-- A script that has been read, or that has been made of such a one. -/
inductive Script.Arises : Script → Prop
  | parse {text label : String} {script : Script} :
      Script.parse text label = .ok script → Arises script
  | shift {script : Script} (n : Int) : Arises script → Arises (script.shift n)
  | relabel {script : Script} (label : String) : Arises script → Arises (script.relabel label)
  | unroll {script script' : Script} {known : Table Extent} : Arises script →
      Script.unroll known script = .ok () script' → Arises script'

/-- What is executed of a script has been read as well. -/
theorem Script.Arises.program {script : Script} (h : script.Arises) {label : String} {p : Program}
    (hp : Program.ofScript script label = .ok p) : p.toScript.Arises := by
  rw [Program.toScript_of_ofScript hp]
  exact h.relabel label

namespace Closure

variable {c : Closure}

/-- What unrolling keeps holds of the script of a closure with its unrollings done. -/
theorem unrolled_induction {P : Script → Prop} (hP : ∀ {known : Table Extent}
    {script script' : Script}, P script → Script.unroll known script = .ok () script' → P script')
    (h : P c.script) {script : Script} (hscript : c.unrolled = .ok script) : P script := by
  have hall (knowns : List (Table Extent)) {script script' : Script} (h : P script)
      (hscript : knowns.forM Script.unroll script = .ok () script') : P script' := by
    induction knowns generalizing script with
    | nil =>
      cases hscript
      exact h
    | cons known knowns ih =>
      obtain ⟨_, script₁, hone, hrest⟩ := EStateM.bind_eq_ok.1 hscript
      exact ih (hP h hone) hrest
  unfold unrolled at hscript
  split at hscript
  · next script' hrun =>
    cases hscript
    exact hall c.unrollings h hrun
  · cases hscript

theorem arises_unrolled (h : c.script.Arises) {script : Script}
    (hscript : c.unrolled = .ok script) :
    script.Arises := unrolled_induction (fun h => h.unroll) h hscript

/-- The text around the definition of a closure has been read. -/
theorem arises_of_ofFunction {v : Value} {given : Table Value} {s t : Store}
    (hc : ofFunction v given s = .ok c t) : c.script.Arises := by
  obtain ⟨script, text, hwritten⟩ := written_of_ofFunction hc
  rw [hwritten.script]
  exact .shift _ (.parse hwritten.parse)

end Closure

/-! ## What programs and calls carry on -/

/-- All functions in a store have a property. -/
def Store.AllFunctions (F : Function → Prop) (s : Store) : Prop :=
  ∀ r f, s.getFunction? r = some f → F f

theorem Store.AllFunctions.of_functions_eq {F : Function → Prop} {s t : Store}
    (hs : s.AllFunctions F) (hst : t.functions = s.functions) : t.AllFunctions F :=
  fun r f hf => hs r f (by rwa [getFunction?, ← hst])

theorem Store.AllFunctions.newFunction {F : Function → Prop} {s : Store} (hs : s.AllFunctions F)
    {f : Function} (hf : F f) : (s.newFunction f).2.AllFunctions F := by
  intro r g hg
  rcases getFunction?_newFunction hg with rfl | hg
  · exact hf
  · exact hs r g hg

namespace Run

/-- What the texts of scripts, and those of functions with a property, define are functions with the
property; and nothing stops the statements of these texts but what has the property that is asked of
stops. -/
structure Carries (F : Function → Prop) (E : Stop → Store → Prop) : Prop where
  steady : Steady (Store.AllFunctions F) E
  stray : ∀ {what : Fault.Stray} (t : Store), E (.error ⟨none, .stray what⟩) t
  script : ∀ {script : Script}, script.Arises →
    Admits (Store.AllFunctions F) E script.source (Stmt.withinAll script.body)
  body : ∀ {f : Function}, F f →
    Admits (Store.AllFunctions F) E f.origin.source (Stmt.withinAll f.definition.body)

namespace Carries

variable {F : Function → Prop} {E : Stop → Store → Prop} (h : Carries F E)
include h

section

variable {call : Caller} (hcall : call.Keeps (Store.AllFunctions F) E) (rounds : Nat)
include hcall

theorem callBody {g : Function} (hg : F g) (args : Arguments) :
    Keeps (Store.AllFunctions F) E (callBody call rounds g args) := by
  refine ((Plain.bindArguments g args).kept h.steady).bind fun t => ?_
  refine ((Plain.make fun _ => rfl).kept h.steady).bind fun locals => ?_
  refine (execAll_kept h.steady hcall rounds _ _ (h.body hg)).bind fun flow => ?_
  cases flow with
  | next | ret v => exact .pure _
  | brk | cont => exact .throw h.stray

theorem execute {p : Program} (hp : p.toScript.Arises) (globals : NamespaceRef)
    (extraction? : Option NamespaceRef) :
    Keeps (Store.AllFunctions F) E (p.execute call rounds globals extraction?) := by
  refine (execAll_kept h.steady hcall rounds ⟨_, globals, none, p.source, p.lineOffset⟩ _
    (h.script hp)).bind fun flow => ?_
  split
  · exact .pure _
  · exact .throw h.stray

theorem make {c : Closure} (hc : c.script.Arises) :
    Keeps (Store.AllFunctions F) E (Unroll.toRun (c.make call rounds)) := by
  unfold Closure.make
  simp only [Unroll.toRun_bind, Unroll.toRun_ofRun]
  refine ((Unroll.plain_ofExcept Unroll.isOwn_unroll _).kept h.steady).bind_result fun hscript => ?_
  have hscript := Closure.arises_unrolled hc
    (Specialize.ofExcept_eq_ok.1 (Unroll.toRun_eq_ok.1 hscript)).1
  refine ((Unroll.plain_ofExcept Unroll.isOwn_compile _).kept h.steady).bind_result
    fun hprogram => ?_
  have hprogram := hscript.program (Specialize.ofExcept_eq_ok.1 (Unroll.toRun_eq_ok.1 hprogram)).1
  refine ((Plain.make fun _ => rfl).kept h.steady).bind fun r => ?_
  refine (h.execute hcall rounds hprogram _ _).bind fun _ => (Keeps.view _).bind fun t => ?_
  split
  · exact (Unroll.plain_throw Unroll.isOwn_noMaker).kept h.steady
  · rw [Unroll.toRun_ofRun]
    exact hcall _ _

theorem unrollOver (names : Table Value) (v : Value) :
    Keeps (Store.AllFunctions F) E (Unroll.toRun (unrollOver call rounds names v)) := by
  unfold StagedScript.unrollOver
  rw [Unroll.toRun_bind]
  refine ((Unroll.plain_ofFunction v names).kept h.steady).bind_result fun {_ c _} hc => ?_
  have hc := Closure.arises_of_ofFunction (Unroll.toRun_eq_ok.1 hc)
  intro s hs
  have hmade := h.make hcall rounds (c := c.unrolling (c.known s fun name =>
    names.contains name && name != unrollName)) hc
  exact hmade s hs

end

/-- Calls carry on what the natives of the host do, as long as the calls that these make do. -/
theorem callIn {host : Host} (hhost : ∀ {call : Caller}, call.Keeps (Store.AllFunctions F) E →
    ∀ name args, Keeps (Store.AllFunctions F) E (host name call args)) (fuel : Nat) (m : Machine) :
    (callIn host fuel m).Keeps (Store.AllFunctions F) E :=
  callIn_kept h.steady hhost (fun hcall rounds names v => h.unrollOver hcall rounds names v)
    (fun hcall rounds _ _ _ hs hf args => h.callBody hcall rounds (hs _ _ hf) args) fuel m

end Carries

end Run

/-! ## Stores -/

/-- The store that a computation leaves, whether it has a result or not. -/
def Store.after {ε α : Type} : EStateM.Result ε Store α → Store
  | .ok _ t => t
  | .error _ t => t

/-- A store that a host comes to.  It executes programs, calls values, and specializes functions;
whatever else it does to the store, it makes no functions by itself. -/
inductive Store.Reached (host : Host) : Store → Prop
  | empty : Reached host .empty
  | other {s t : Store} : Reached host s → t.functions = s.functions → Reached host t
  | run {s : Store} {p : Program} (fuel : Nat) (m : Machine) (globals : NamespaceRef)
      (extraction? : Option NamespaceRef) : Reached host s → p.toScript.Arises →
      Reached host (after (p.run host fuel m globals extraction? s))
  | call {s : Store} (fuel : Nat) (m : Machine) (v : Value) (args : Arguments) : Reached host s →
      Reached host (after (callIn host fuel m v args s))
  | make {s s₁ t₁ : Store} {v : Value} {given : Table Value} {c : Closure} (fuel rounds : Nat)
      (m : Machine) (unrollings : List (Table Extent)) : Reached host s →
      Closure.ofFunction v given s₁ = .ok c t₁ →
      Reached host (after (Closure.make (callIn host fuel m) rounds { c with unrollings } s))
  | clone {s : Store} (v : Value) : Reached host s → Reached host (after (cloneFunction v s))

theorem Run.Landing.after {α : Type} {I : Store → Prop} {E : Stop → Store → Prop}
    {r : EStateM.Result Stop Store α} (h : Landing I E r) : I (Store.after r) := by
  cases h with
  | ok ht => exact ht
  | error ht _ => exact ht

theorem Run.Keeps.after {α : Type} {I : Store → Prop} {E : Stop → Store → Prop} {x : Run α}
    (hx : Keeps I E x) {s : Store} (hs : I s) : I (Store.after (x s)) := (hx s hs).after

theorem Unroll.after_toRun {α : Type} (x : Specialize α) (s : Store) :
    Store.after (toRun x s) = Store.after (x s) := by
  unfold toRun
  cases x s <;> rfl

namespace Store

variable {F : Function → Prop}

/-- A copy of a function is the function once more. -/
theorem AllFunctions.clone {s : Store} (hs : s.AllFunctions F) (v : Value) :
    (after (cloneFunction v s)).AllFunctions F := by
  cases v with
  | function r =>
    have hview : Specialize.ofRun (Run.view (·.getFunction? r)) s = .ok (s.getFunction? r) s := rfl
    have htype : Specialize.ofRun (Run.typeName (.function r)) s = .ok "function" s := rfl
    unfold cloneFunction
    rw [EStateM.bind_ok htype]
    dsimp only
    rw [EStateM.bind_ok hview]
    cases hf : s.getFunction? r with
    | none => exact hs
    | some f => exact hs.newFunction (hs r f hf)
  | _ => exact hs

/-- What programs and calls carry on holds of all functions in a store that a host comes to. -/
theorem Reached.allFunctions {E : Stop → Store → Prop} (h : Run.Carries F E) {host : Host}
    (hhost : ∀ {call : Caller}, call.Keeps (AllFunctions F) E →
      ∀ name args, Run.Keeps (AllFunctions F) E (host name call args)) {s : Store} (hs :
      s.Reached host) :
    s.AllFunctions F := by
  induction hs with
  | empty => exact fun _ _ hf => by cases hf
  | other _ hst ih => exact ih.of_functions_eq hst
  | run fuel m globals extraction? _ hp ih =>
    exact (h.execute (h.callIn hhost fuel m) fuel hp globals extraction?).after ih
  | call fuel m v args _ ih => exact (h.callIn hhost fuel m v args).after ih
  | @make s s₁ t₁ v given c fuel rounds m unrollings _ hc ih =>
    have hscript := Closure.arises_of_ofFunction hc
    have hmade := h.make (h.callIn hhost fuel m) rounds (c := { c with unrollings }) hscript
    have hafter := hmade.after ih
    rwa [Unroll.after_toRun] at hafter
  | clone v _ ih => exact ih.clone v

end Store

end StagedScript
