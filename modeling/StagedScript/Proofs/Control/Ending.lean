import StagedScript.Proofs.Alike.Flow
import StagedScript.Proofs.Control.Agreement
import StagedScript.Proofs.Control.Kept
import StagedScript.Proofs.Unrolling.Calls

/-!
# How programs end

A program that is executed over functions that come from programs ends with a result, or with an
error that has one place: that of the innermost statement that was being executed when the error was
raised.  No control statement leaves what it stands in, neither in programs nor in calls.
-/

/-!
## Control statements stay within their bodies

In a store whose functions were defined in programs, no call and no program fails because of a
control statement that has left what it stands in, and the functions that are made meanwhile were
defined in programs as well.
-/

namespace StagedScript

open Run

/-- Functions come from programs: in the body of each, every control statement stands where it
may. -/
def Store.Placed (s : Store) : Prop :=
  ∀ r f, s.getFunction? r = some f → Stmt.misplacedIn? .function f.definition.body = none

theorem Store.placed_empty : Store.empty.Placed := by
  intro r f hf
  cases hf

theorem Store.Placed.of_functions_eq {s t : Store} (hst : t.functions = s.functions)
    (hs : s.Placed) : t.Placed := by
  intro r f hf
  rw [Store.getFunction?, hst] at hf
  exact hs r f hf

theorem Store.Placed.newFunction {s : Store} (hs : s.Placed) {f : Function}
    (hf : Stmt.misplacedIn? .function f.definition.body = none) : (s.newFunction f).2.Placed := by
  intro r g hg
  rcases Store.getFunction?_newFunction hg with rfl | hg
  · exact hf
  · exact hs r g hg

/-- What stopped a computation is not about a control statement, and it is no comparison without an
end, unless a container holds itself. -/
structure Stop.Orderly (stop : Stop) (t : Store) : Prop where
  cause : ∀ e, stop = .error e → e.cause.stray? = none
  founded : stop.Founded t

theorem Stop.orderly_error {e : RuntimeError} {t : Store} (h : e.cause.stray? = none) :
    Stop.Orderly (.error e) t where
  cause e' he' := by
    cases he'
    exact h
  founded := nofun

namespace Run

variable {α β γ : Type}

/-- A computation that makes no function but such as come from programs, and that does not stop
because of a control statement. -/
abbrev Orderly (x : Run α) : Prop := Keeps Store.Placed Stop.Orderly x

/-- What is known of the results of a computation by itself is known to what follows it. -/
theorem Keeps.bind_of {I : Store → Prop} {E : Stop → Store → Prop} {P : α → Prop} {x : Run α}
    {k : α → Run β} (hx : Keeps I E x) (hP : Respects Eq P x) (hk : ∀ a, P a → Keeps I E (k a)) :
    Keeps I E (x >>= k) := by
  refine hx.bind_result fun {s a t} hresult => hk a ?_
  have h := hP s s rfl
  rw [hresult] at h
  cases h with
  | ok ha _ => exact ha.2

/-- Whether stores and stops are orderly is steady. -/
theorem steady_orderly : Steady Store.Placed Stop.Orderly where
  functions hst hs := hs.of_functions_eq hst
  plain h := by
    cases h with
    | error hcause => exact Stop.orderly_error (Fault.stray?_of_isOrdinary hcause)
    | aborted hfounded => exact ⟨nofun, hfounded⟩
  fuel _ := ⟨nofun, nofun⟩
  leaving {e _} _ h := Stop.orderly_error (h.cause e rfl)

theorem Plain.orderly {x : Run α} (hx : Plain x) : Orderly x := hx.kept steady_orderly

end Run

/-- Every call is orderly. -/
def Caller.Orderly (call : Caller) : Prop := ∀ v args, Run.Orderly (call v args)

namespace Run

/-! ### Executing -/

/-- The functions of a body come from programs if all control statements in the body stand where
they may. -/
theorem admits_orderly {c : Surroundings} {b : List Stmt} (hb : Stmt.misplacedIn? c b = none)
    (source : Source) : Admits Store.Placed Stop.Orderly source (Stmt.withinAll b) where
  making hs hg ht := ht.newFunction (Stmt.placed_of_withinAll hb (hg.stmt ▸ hs))
  targets _ _ := .inr fun _ => Stop.orderly_error rfl

section

variable {call : Caller} (hcall : call.Orderly) (rounds : Nat)
include hcall

/-- Executing statements whose control statements stand where they may is orderly. -/
theorem execAll_orderly (f : Frame) (c : Surroundings) (b : List Stmt)
    (hb : Stmt.misplacedIn? c b = none) : Orderly (execAll call rounds f b) :=
  execAll_kept steady_orderly hcall rounds f b (admits_orderly hb _)

/-- Nothing leaves a program. -/
theorem execTop_orderly (f : Frame) {b : List Stmt} (hb : Stmt.misplacedIn? .top b = none) :
    Orderly (execTop call rounds f b) := by
  -- A body in no function and no loop can only go on to its end.
  refine (execAll_orderly hcall rounds f .top b hb).bind_of
    (execAll_fits call rounds f .top b hb) fun flow hflow => ?_
  rcases hflow.next_or_ret rfl with rfl | ⟨v, rfl⟩
  · exact .pure _
  · exact absurd hflow (by simp [Flow.Fits, Surroundings.top])

/-- Nothing but a result leaves the body of a function. -/
theorem callBody_orderly {g : Function} (hg : Stmt.misplacedIn? .function g.definition.body = none)
    (args : Arguments) : Orderly (callBody call rounds g args) := by
  refine (Plain.bindArguments g args).orderly.bind fun t => ?_
  refine (Plain.make fun _ => rfl).orderly.bind fun locals => ?_
  refine (execAll_orderly hcall rounds _ .function _ hg).bind_of
    (execAll_fits call rounds _ .function _ hg) fun flow hflow => ?_
  rcases hflow.next_or_ret rfl with rfl | ⟨v, rfl⟩
  · exact .pure _
  · exact .pure _

theorem execute_orderly (p : Program) (globals : NamespaceRef) (extraction? : Option NamespaceRef) :
    Orderly (p.execute call rounds globals extraction?) :=
  execTop_orderly hcall rounds _ p.wellPlaced

/-! ### Calling -/

theorem make_orderly (c : Closure) : Orderly (Unroll.toRun (c.make call rounds)) := by
  unfold Closure.make
  simp only [Unroll.toRun_bind, Unroll.toRun_ofRun]
  refine (Unroll.plain_ofExcept Unroll.isOwn_unroll _).orderly.bind fun script => ?_
  -- What has been read from the text of the closure is a program, with control statements in place.
  refine (Unroll.plain_ofExcept Unroll.isOwn_compile _).orderly.bind fun program => ?_
  refine (Plain.make fun _ => rfl).orderly.bind fun r => ?_
  refine (execute_orderly hcall rounds program _ _).bind fun _ => (Keeps.view _).bind fun t => ?_
  split
  · exact (Unroll.plain_throw Unroll.isOwn_noMaker).orderly
  · rw [Unroll.toRun_ofRun]
    exact hcall _ _

theorem unrollOver_orderly (names : Table Value) (v : Value) :
    Orderly (Unroll.toRun (unrollOver call rounds names v)) := by
  unfold unrollOver
  rw [Unroll.toRun_bind]
  refine (Unroll.plain_ofFunction v names).orderly.bind fun c => ?_
  intro s hs
  exact make_orderly hcall rounds _ s hs

end

end Run

/-- The natives of a host make no function but such as come from programs, and are not stopped by
control statements, as long as the calls that they make are not. -/
def Host.Orderly (host : Host) : Prop :=
  ∀ {call : Caller}, call.Orderly → ∀ name args, Run.Orderly (host name call args)

/-- Calls are orderly, however deep they nest. -/
theorem callIn_orderly {host : Host} (hhost : host.Orderly) (fuel : Nat) (m : Machine) :
    (callIn host fuel m).Orderly :=
  callIn_kept Run.steady_orderly hhost
    (fun hcall rounds names v => Run.unrollOver_orderly hcall rounds names v)
    -- The function comes from the store, and so from a program.
    (fun hcall rounds _ _ _ hs hf args => Run.callBody_orderly hcall rounds (hs _ _ hf) args) fuel m

/-- What stopped a program has a place, and is not about a control statement; it is no comparison
without an end, unless a container holds itself. -/
structure Stop.Located (stop : Stop) (t : Store) : Prop where
  error : ∀ e, stop = .error e → e.location?.isSome = true ∧ e.cause.stray? = none
  founded : stop.Founded t

/-- An error that leaves a program has a place, unless a control statement has left the program. -/
theorem Program.location_of_execute {call : Caller} {rounds : Nat} {p : Program}
    {globals : NamespaceRef} {extraction? : Option NamespaceRef} {s t : Store} {e : RuntimeError}
    (h : p.execute call rounds globals extraction? s = .error (.error e) t)
    (he : e.cause.stray? = none) : e.location?.isSome = true := by
  change EStateM.bind _ _ s = _ at h
  unfold EStateM.bind at h
  split at h
  · next flow s' hflow =>
    cases flow with
    | next => cases h
    | ret v | brk | cont =>
      cases h
      cases he
  · next stop s' hstop =>
    cases h
    exact Run.located_execAll call rounds _ p.body s e t hstop

/-- Control flow never leaks, and errors are located once.  From a store whose functions come from
programs, with natives that raise no control flow of their own,

* a program ends without an error, or with one that has a place and is not about a control
  statement (or it was given too little fuel, or the process is brought down, by a comparison only
  where a container holds itself);
* its run is that of the execution which knows where it is: the place of the error is that of the
  innermost statement that was being executed when the error was raised;
* no call ends because of a control statement;

and the functions in the store come from programs afterwards. -/
theorem control_never_leaks {host : Host} (hhost : host.Orderly) (fuel : Nat) (m : Machine)
    {s : Store} (hs : s.Placed) :
    (∀ (p : Program) (globals : NamespaceRef) (extraction? : Option NamespaceRef),
      Run.Landing Store.Placed Stop.Located (p.run host fuel m globals extraction? s) ∧
      p.run host fuel m globals extraction? s =
        Sited.run host fuel m p globals extraction? none s) ∧
    ∀ (v : Value) (args : Arguments),
      Run.Landing Store.Placed Stop.Orderly (callIn host fuel m v args s) := by
  have hcalls : (callIn host fuel m).Orderly := callIn_orderly hhost fuel m
  refine ⟨fun p globals extraction? => ⟨?_, ?_⟩, fun v args => hcalls v args s hs⟩
  · have hrun := Run.execute_orderly hcalls fuel p globals extraction? s hs
    unfold Program.run
    generalize hend : p.execute (callIn host fuel m) fuel globals extraction? s = r at hrun
    cases hrun with
    | ok ht => exact .ok ht
    | error ht hstop =>
      -- An error that is not about a control statement has left a statement of the program.
      refine .error ht ⟨fun e he => ?_, hstop.founded⟩
      subst he
      have hcause := hstop.cause e rfl
      exact ⟨p.location_of_execute hend hcause, hcause⟩
  · rw [Sited.run_eq]

/-! ## An error in a function -/

/-- The host for trying out natives raises no control flow. -/
theorem Host.orderly_probe : Host.probe.Orderly :=
  fun hcall => Host.probe_kept Run.steady_orderly hcall

/-- A function that looks up a name without a value, and a call of it:

    def f():
        return y
    f()
-/
def sampleFault : Program where
  body := [.define ⟨0, 21⟩ "f" [] [] [.ret ⟨13, 21⟩ (some (.name ⟨20, 21⟩ "y"))],
    .expr ⟨22, 25⟩ (.call ⟨22, 25⟩ (.name ⟨22, 23⟩ "f") [])]
  source := ⟨"sample", "def f():\n    return y\nf()\n"⟩
  lineOffset := 0
  wellPlaced := by decide

/-- A store with one namespace, in which nothing is bound. -/
def sampleStart : Store := { Store.empty with namespaces := #[.empty] }

theorem sampleStart_placed : sampleStart.Placed := Store.placed_empty.of_functions_eq rfl

/-- The error is raised by the `return` in the second line and not by the call in the third. -/
theorem sampleFault_located :
    Host.probe.Orderly ∧ sampleStart.Placed ∧
    (∃ t, sampleFault.run .probe 2 .captured ⟨0⟩ none sampleStart =
      .error (.error ⟨some ⟨"sample", 2, 5⟩, .undefined "y"⟩) t) ∧
    sampleFault.run .probe 2 .captured ⟨0⟩ none sampleStart =
      Sited.run .probe 2 .captured sampleFault ⟨0⟩ none none sampleStart := by
  have hends := control_never_leaks Host.orderly_probe 2 .captured sampleStart_placed
  exact ⟨Host.orderly_probe, sampleStart_placed, ⟨_, by with_unfolding_all rfl⟩,
    (hends.1 sampleFault ⟨0⟩ none).2⟩

end StagedScript
