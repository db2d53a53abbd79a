import StagedScript.Proofs.Alike.Matching
import StagedScript.Run.Exec
import StagedScript.Specialize.Unroll

/-!
# Control flow

Loops match if their rounds do.  A body in which every control statement stands where it may ends
only in ways that its surroundings allow, and an error that leaves a body has a location already.
-/

namespace StagedScript

variable {α β γ : Type} {R : Store → Store → Prop}

/-! ## Matching control flow -/

theorem Matches.locating {Q : α → β → Prop} {x : Run α} {y : Run β} (hxy : Matches R Q x y)
    (location : Unit → Location) :
    Matches R Q (Run.locating location x) (Run.locating location y) := by
  intro s t hst
  have h := hxy s t hst
  unfold Run.locating
  generalize x s = r at h
  generalize y t = q at h
  cases h with
  | ok hab hst' => exact .ok hab hst'
  | @error e _ _ hst' => cases e <;> exact .error hst'

namespace Matches

variable {P : Flow → Prop} (hP : P .next)
include hP

/-- Loops over the same items match if their rounds do. -/
theorem eachItem {A : Value → Prop} {body body' : Value → Run Flow} {ms : List Run.Member}
    (htake : ∀ m ∈ ms, Respects R A m.take)
    (hbody : ∀ v, A v → Matches R (fun a b => a = b ∧ P a) (body v) (body' v)) :
    Matches R (fun a b => a = b ∧ P a) (Run.eachItem body ms) (Run.eachItem body' ms) := by
  induction ms with
  | nil => exact .pure ⟨rfl, hP⟩
  | cons m ms ih =>
    refine (htake m (by simp)).bind_matches fun v hv => (hbody v hv).bind ?_
    rintro flow _ ⟨rfl, hflow⟩
    have hrest := ih fun m' hm' => htake m' (List.mem_cons_of_mem _ hm')
    cases flow with
    | next => exact hrest
    | cont => exact hrest
    | brk => exact .pure ⟨rfl, hflow⟩
    | ret v => exact .pure ⟨rfl, hflow⟩

omit hP in
/-- Loops with the same test match if their bodies do. -/
theorem whileHolds {Q : Flow → Prop} (hnext : Q .next) (hret : ∀ v, P (.ret v) → Q (.ret v))
    {test : Run Bool} {body body' : Run Flow} (htest : Respects R anything test)
    (hbody : Matches R (fun a b => a = b ∧ P a) body body') (rounds : Nat) :
    Matches R (fun a b => a = b ∧ Q a) (Run.whileHolds test body rounds)
      (Run.whileHolds test body' rounds) := by
  induction rounds with
  | zero => exact .throw _
  | succ rounds ih =>
    refine htest.bind_matches fun holds _ => ?_
    cases holds with
    | false => exact .pure ⟨rfl, hnext⟩
    | true =>
      refine hbody.bind ?_
      rintro flow _ ⟨rfl, hflow⟩
      cases flow with
      | next => exact ih
      | cont => exact ih
      | brk => exact .pure ⟨rfl, hnext⟩
      | ret v => exact .pure ⟨rfl, hret v hflow⟩

end Matches

namespace Run

variable (call : Caller) (rounds : Nat)

theorem execAll_append (f : Frame) (b b' : List Stmt) :
    execAll call rounds f (b ++ b') = (do
      match ← execAll call rounds f b with
      | .next => execAll call rounds f b'
      | flow => return flow) := by
  induction b with
  | nil => rfl
  | cons s ss ih =>
    rw [List.cons_append, execAll, execAll, ih, bind_assoc]
    congr
    funext flow
    cases flow <;> rfl

/-! ## How bodies end -/

end Run

namespace Flow

/-- The surroundings have what the flow leaves. -/
def Fits (c : Surroundings) : Flow → Prop
  | next => True
  | ret _ => c.inFunction = true
  | brk | cont => c.inLoop = true

theorem Fits.next_or_ret {c : Surroundings} (hc : c.inLoop = false) {flow : Flow}
    (hflow : flow.Fits c) : flow = .next ∨ ∃ v, flow = .ret v := by
  cases flow with
  | next => exact Or.inl rfl
  | ret v => exact Or.inr ⟨v, rfl⟩
  | brk => exact absurd hflow (by simp [Fits, hc])
  | cont => exact absurd hflow (by simp [Fits, hc])

end Flow

namespace Stmt

mutual

/-- For a statement that does not leave the loop around it, that loop makes no difference. -/
theorem misplaced?_loop (c : Surroundings) (s : Stmt) (hs : exit? s = none) :
    misplaced? c.loop s = misplaced? c s := by
  cases s with
  | cond span test a b =>
    obtain ⟨ha, hb⟩ := Option.or_eq_none_iff.1 hs
    rw [misplaced?, misplaced?, misplacedIn?_loop c a ha, misplacedIn?_loop c b hb]
  | each span target iter b e =>
    rw [misplaced?, misplaced?, misplacedIn?_loop c e hs]
    rfl
  | brk span | cont span => cases hs
  | expr _ _ | assign _ _ _ | pass _ | ret _ _ | loop _ _ _ | define _ _ _ _ _ | class_ _ _ _ _ =>
      rfl

theorem misplacedIn?_loop (c : Surroundings) (b : List Stmt) (hb : exitIn? b = none) :
    misplacedIn? c.loop b = misplacedIn? c b := by
  cases b with
  | nil => rfl
  | cons s ss =>
    obtain ⟨hs, hss⟩ := Option.or_eq_none_iff.1 hb
    rw [misplacedIn?, misplacedIn?, misplaced?_loop c s hs, misplacedIn?_loop c ss hss]

end

end Stmt

/-- What is known of the results of the first computation by itself adds to a match. -/
theorem Matches.and {ε : Type} {Q : α → β → Prop} {P : α → Prop} {x : EStateM ε Store α}
    {y : EStateM ε Store β} (hxy : Matches R Q x y) (hx : Respects Eq P x) :
    Matches R (fun a b => Q a b ∧ P a) x y := by
  intro s t hst
  have hone := hx s s rfl
  have hboth := hxy s t hst
  revert hone hboth
  generalize x s = r
  generalize y t = q
  intro hone hboth
  cases hboth with
  | ok hab hst' =>
    cases hone with
    | ok ha _ => exact .ok ⟨hab, ha.2⟩ hst'
  | error hst' => exact .error hst'

/-- Any computation matches itself from one and the same store. -/
theorem Respects.same {ε : Type} (x : EStateM ε Store α) : Respects Eq StagedScript.anything x := by
  rintro s _ rfl
  cases x s with
  | ok a t => exact .ok ⟨rfl, trivial⟩ rfl
  | error e t => exact .error rfl

namespace Run

variable (call : Caller) (rounds : Nat)

mutual

theorem exec_fits (f : Frame) (c : Surroundings) (s : Stmt) (hs : Stmt.misplaced? c s = none) :
    Respects Eq (Flow.Fits c) (exec call rounds f s) := by
  cases s with
  | expr span e => exact (Respects.same _).bind fun _ _ => .pure trivial
  | assign span ts e =>
    exact (Respects.same _).bind fun _ _ => (Respects.same _).bind fun _ _ => .pure trivial
  | pass span => exact .pure trivial
  | ret span value =>
    have hc : c.inFunction = true := by
      by_contra hc
      simp [Stmt.misplaced?, hc] at hs
    cases value with
    | none => exact .pure hc
    | some e => exact (Respects.same _).bind fun _ _ => .pure hc
  | brk span | cont span =>
    have hc : c.inLoop = true := by
      by_contra hc
      simp [Stmt.misplaced?, hc] at hs
    exact .pure hc
  | cond span test a b =>
    obtain ⟨ha, hb⟩ := Option.or_eq_none_iff.1 hs
    refine (Respects.same _).bind fun v _ => (Respects.same _).bind fun holds _ => ?_
    split
    · exact execAll_fits f c a ha
    · exact execAll_fits f c b hb
  | loop span test body =>
    refine Matches.whileHolds (P := Flow.Fits c.loop) (Q := Flow.Fits c) trivial (fun _ hv => hv)
      (.same _) ?_ rounds
    exact execAll_fits f c.loop body hs
  | each span target iter body els =>
    obtain ⟨hbody, hels⟩ := Option.or_eq_none_iff.1 hs
    refine (Respects.same _).bind fun v _ => (Respects.same _).bind fun ms _ => ?_
    -- The body is in the loop, and what is executed after the last round is not.
    have hround (v : Value) : Respects Eq (Flow.Fits c.loop)
        (do assign call f target v; execAll call rounds f body) :=
      (Respects.same _).bind fun _ _ => execAll_fits f c.loop body hbody
    refine (Matches.eachItem (P := Flow.Fits c.loop) trivial (A := anything)
      (fun m _ => .same m.take) fun v _ => hround v).bind ?_
    rintro flow _ ⟨rfl, hflow⟩
    cases flow with
    | next => exact execAll_fits f c els hels
    | ret v => exact .pure ⟨rfl, hflow⟩
    | brk => exact .pure ⟨rfl, trivial⟩
    | cont => exact execAll_fits f c els hels
  | define span name ds ps body =>
    exact (Respects.same _).bind fun _ _ => (Respects.same _).bind fun _ _ => .pure trivial
  | class_ span name base body =>
    refine (Respects.same _).bind fun _ _ => (Respects.same _).bind fun locals _ => ?_
    refine (execAll_fits (f.inside locals) .top body hs).bind fun flow hflow => ?_
    cases flow with
    | next =>
      refine (Respects.same _).bind fun _ _ => (Respects.same _).bind fun _ _ => ?_
      exact (Respects.same _).bind fun _ _ => .pure trivial
    | ret v => cases hflow
    | brk => cases hflow
    | cont => cases hflow

/-- A body whose control statements stand where they may ends as its surroundings allow. -/
theorem execAll_fits (f : Frame) (c : Surroundings) (b : List Stmt)
    (hb : Stmt.misplacedIn? c b = none) : Respects Eq (Flow.Fits c) (execAll call rounds f b) := by
  cases b with
  | nil => exact .pure trivial
  | cons s ss =>
    obtain ⟨hs, hss⟩ := Option.or_eq_none_iff.1 hb
    refine (Matches.locating (exec_fits f c s hs) _).bind ?_
    rintro flow _ ⟨rfl, hflow⟩
    cases flow with
    | next => exact execAll_fits f c ss hss
    | ret v => exact .pure ⟨rfl, hflow⟩
    | brk => exact .pure ⟨rfl, hflow⟩
    | cont => exact .pure ⟨rfl, hflow⟩

end

/-! ## Where errors are -/

/-- An error of the computation has a location. -/
def Located (x : Run α) : Prop := ∀ s e t, x s = .error (.error e) t → e.location?.isSome = true

/-- The computation does nothing but to give a result. -/
theorem located_pure (a : α) : Located (pure a : Run α) := by
  intro s e t h
  cases h

theorem located_locating (location : Unit → Location) (x : Run α) :
    Located (locating location x) := by
  intro s e t h
  unfold locating at h
  split at h
  · cases h
    simp [RuntimeError.leaving]
  · next hx => exact absurd h (hx e t)

theorem located_bind {x : Run α} {k : α → Run β} (hx : Located x) (hk : ∀ a, Located (k a)) :
    Located (x >>= k) := by
  intro s e t h
  change EStateM.bind x k s = _ at h
  unfold EStateM.bind at h
  split at h
  · next a s' hxs => exact hk a s' e t h
  · next e' s' hxs =>
    cases h
    exact hx s e t hxs

theorem located_execAll (f : Frame) (b : List Stmt) : Located (execAll call rounds f b) := by
  induction b with
  | nil => exact located_pure _
  | cons s ss ih =>
    refine located_bind (located_locating _ _) fun flow => ?_
    cases flow with
    | next => exact ih
    | _ => exact located_pure _

/-- Errors are given a location step by step. -/
theorem locating_bind (location : Unit → Location) (x : Run α) (k : α → Run β) :
    locating location (x >>= k) = locating location x >>= fun a => locating location (k a) := by
  funext s
  change locating location (EStateM.bind x k) s =
    EStateM.bind (locating location x) (fun a => locating location (k a)) s
  unfold locating EStateM.bind
  dsimp only
  generalize x s = r
  cases r with
  | ok a t => rfl
  | error e t => cases e <;> rfl

theorem locating_of_located (location : Unit → Location) {x : Run α} (hx : Located x) :
    locating location x = x := by
  funext s
  unfold locating
  generalize hxs : x s = r
  cases r with
  | ok a t => rfl
  | error e t =>
    cases e with
    | outOfFuel | aborted _ => rfl
    | error e =>
      obtain ⟨l, hl⟩ := Option.isSome_iff_exists.1 (hx s e t hxs)
      have hleave : e.leaving (location ()) = e := by
        unfold RuntimeError.leaving
        rw [hl, Option.some_or, ← hl]
      dsimp only
      rw [hleave]

end Run

end StagedScript
