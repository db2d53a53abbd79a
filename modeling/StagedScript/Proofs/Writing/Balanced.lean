import StagedScript.Proofs.Writing.Emission

/-!
# Balanced writing

A plan is any computation made of the operations that write: lines, blocks of text, blocks below a
header, functions and scopes.  What it does next depends on how the last operation ended, so that a
body may pass an error on or go on as if there was none.

The trace of an operation tells the lines that it writes, each with the number of blocks around it,
and how it ends.  It is told from the plan alone, with the depth handed down from block to block.
The depth of the buffer is counted up in front of a body and down behind it, whatever the body has
made of it.  What is proved is that every plan ends at the depth that it starts at, however it ends,
so that this is the depth in front of the block and the lines in the buffer are the ones of the
trace.
-/

namespace StagedScript

namespace Emit

mutual

/-- A computation that writes. -/
inductive Plan where
  /-- Ends, with an error of its own or without one. -/
  | stop (r : Except EmitError Unit)
  /-- An operation, and what follows on how it ends. -/
  | step (op : Action) (next : Except EmitError Unit → Plan)

/-- An operation that writes, with the names that it binds. -/
inductive Action where
  /-- A line of words. -/
  | words (parts : List String) (subs : Bindings)
  /-- The lines of a block of text. -/
  | lines (text : String) (subs : Bindings)
  /-- A block, below a header if there is one. -/
  | block (header? : Option String) (subs : Bindings) (body : Plan)
  /-- A function. -/
  | function (name : String) (params : List ArgText) (star? starStar? : Option String) (body : Plan)
  /-- A scope, in which further names are bound. -/
  | scope (subs : Bindings) (body : Plan)

end

/-- The bindings in the header and the body of a function. -/
def inFunction (scope : Bindings) (name : String) (params : List ArgText)
    (star? starStar? : Option String) : Bindings :=
  scope.extend (functionBindings name (ArgText.list params star? starStar?))

/-- Whether an operation is a block, so that there is a line in it if it succeeds. -/
def Action.isBlock : Action → Bool
  | .block _ _ _ | .function _ _ _ _ _ => true
  | .words _ _ | .lines _ _ | .scope _ _ => false

section

variable {σ : Type}

/-- An operation, and then what follows on its result.  An error is a result like any other. -/
def caught (x : Emit σ Unit) (next : Except EmitError Unit → Emit σ Unit) : Emit σ Unit := fun e =>
  match x e with
  | .ok _ e => next (.ok ()) e
  | .error err e => next (.error err) e

mutual

/-- Follows a plan in a scope. -/
def Plan.run (scope : Bindings) : Plan → Emit σ Unit
  | .stop r => ended r
  | .step op next => caught (op.run scope) fun r => (next r).run scope

/-- Carries out an operation in a scope. -/
def Action.run (scope : Bindings) : Action → Emit σ Unit
  | .words parts subs => Emit.words (scope.extend subs) parts
  | .lines text subs => Emit.block (scope.extend subs) text
  | .block header? subs body => under (scope.extend subs) header? (body.run (scope.extend subs))
  | .function name params star? starStar? body =>
    under (inFunction scope name params star? starStar?) (some functionHeader)
      (body.run (inFunction scope name params star? starStar?))
  | .scope subs body => body.run (scope.extend subs)

end

end

/-! ## Traces -/

/-- What is written, each line with its depth and without its indentation, and how that ends. -/
structure Trace where
  /-- The lines. -/
  lines : List (Nat × String)
  /-- The end. -/
  result : Except EmitError Unit

namespace Trace

/-- Nothing. -/
def none : Trace := ⟨[], .ok ()⟩

/-- A trace, and behind it what follows on its end. -/
def caught (t : Trace) (next : Except EmitError Unit → Trace) : Trace :=
  ⟨t.lines ++ (next t.result).lines, (next t.result).result⟩

/-- A trace, and behind it another one unless the first ends with an error. -/
def andThen (t u : Trace) : Trace :=
  match t.result with
  | .ok _ => ⟨t.lines ++ u.lines, u.result⟩
  | .error _ => t

/-- The trace of templates for lines at one depth.  The first that cannot be filled in is the
last. -/
def filling (bindings : Bindings) (depth : Nat) : List String → Trace
  | [] => none
  | template :: templates =>
    match bindings.format template with
    | .ok text =>
      ⟨(depth, text) :: (filling bindings depth templates).lines,
        (filling bindings depth templates).result⟩
    | .error err => ⟨[], .error err⟩

/-- The trace of a block with its body: the header at the depth, and then the body or the
placeholder. -/
def under (placeholder : String) (bindings : Bindings) (depth : Nat) (header? : Option String)
    (body : Trace) : Trace :=
  (filling bindings depth header?.toList).andThen
    ⟨filled placeholder (depth + 1) body.result body.lines, body.result⟩

end Trace

mutual

/-- The trace of a plan in a scope. -/
def Plan.trace (placeholder : String) (scope : Bindings) (depth : Nat) : Plan → Trace
  | .stop r => ⟨[], r⟩
  | .step op next => (op.trace placeholder scope depth).caught fun r =>
      (next r).trace placeholder scope depth

/-- The trace of an operation in a scope. -/
def Action.trace (placeholder : String) (scope : Bindings) (depth : Nat) : Action → Trace
  | .words parts subs => .filling (scope.extend subs) depth [" ".intercalate parts]
  | .lines text subs => .filling (scope.extend subs) depth (blockOf text)
  | .block header? subs body => .under placeholder (scope.extend subs) depth header?
      (body.trace placeholder (scope.extend subs) (depth + 1))
  | .function name params star? starStar? body =>
    .under placeholder (inFunction scope name params star? starStar?) depth (some functionHeader)
      (body.trace placeholder (inFunction scope name params star? starStar?) (depth + 1))
  | .scope subs body => body.trace placeholder (scope.extend subs) depth

end

/-! ## Lines are written as they are traced -/

section

variable {σ : Type}

/-- A computation writes what a trace tells, at the end of an emission, and leaves all else as it
is. -/
def Follows (x : Emit σ Unit) (e : Emission σ) (t : Trace) : Prop :=
  x e = ended t.result (e.placed t.lines)

namespace Follows

theorem pure (e : Emission σ) : Follows (Pure.pure ()) e .none := by
  rw [Follows, Trace.none, e.placed_nil]
  rfl

/-- A line is written if its template can be filled in, and nothing otherwise. -/
theorem line (bindings : Bindings) (template : String) (e : Emission σ) :
    Follows (Emit.line bindings template) e (.filling bindings e.buffer.depth [template]) := by
  cases h : bindings.format template with
  | ok text =>
    rw [Follows, line_ok h, Trace.filling, h]
    rfl
  | error err =>
    rw [Follows, Emit.line, h, Trace.filling, h, e.placed_nil]
    rfl

theorem andThen {x y : Emit σ Unit} {e : Emission σ} {t u : Trace} (hx : Follows x e t)
    (hy : Follows y (e.placed t.lines) u) : Follows (x >>= fun _ => y) e (t.andThen u) := by
  unfold Follows at hx hy ⊢
  obtain ⟨ls, r⟩ := t
  cases r with
  | error err => rw [EStateM.bind_error hx]; rfl
  | ok _ =>
    rw [EStateM.bind_ok hx, hy, Trace.andThen, Emission.placed_append]

theorem caught {x : Emit σ Unit} {next : Except EmitError Unit → Emit σ Unit} {e : Emission σ}
    {t : Trace} {u : Except EmitError Unit → Trace} (hx : Follows x e t)
    (hnext : Follows (next t.result) (e.placed t.lines) (u t.result)) :
    Follows (Emit.caught x next) e (t.caught u) := by
  unfold Follows at hx hnext ⊢
  rw [Emit.caught, hx, Trace.caught, Emission.placed_append]
  obtain ⟨ls, r⟩ := t
  cases r <;> exact hnext

/-- The lines of templates are written up to the first that cannot be filled in. -/
theorem forM (bindings : Bindings) (templates : List String) (e : Emission σ) :
    Follows (templates.forM (Emit.line bindings)) e
      (.filling bindings e.buffer.depth templates) := by
  induction templates generalizing e with
  | nil => exact pure e
  | cons template templates ih =>
    have h := (line bindings template e).andThen (ih _)
    change Follows (Emit.line bindings template >>= fun _ => templates.forM _) _ _
    rw [Trace.filling] at h ⊢
    cases hformat : bindings.format template <;> rw [hformat] at h <;> exact h

/-- A block is written below its header, one step deeper.  That the body follows its trace says also
that it ends in the block in which it starts. -/
theorem under {body : Emit σ Unit} {e : Emission σ} {t : Trace} (bindings : Bindings)
    (header? : Option String) (hbody : ∀ ls,
      Follows body (e.placed ls).enter t) :
    Follows (Emit.under bindings header? body) e
      (.under e.buffer.config.placeholder bindings e.buffer.depth header? t) := by
  have hdeeper (ls) : Follows (deeper body) (e.placed ls) ⟨filled e.buffer.config.placeholder
      (e.buffer.depth + 1) t.result t.lines, t.result⟩ := deeper_ended (hbody ls)
  cases header? with
  | none => exact (pure e).andThen (hdeeper _)
  | some header => exact (line bindings header e).andThen (hdeeper _)

end Follows

mutual

/-- What is written on a plan is what the trace of the plan tells. -/
theorem Plan.run_follows (plan : Plan) (scope : Bindings) (e : Emission σ) :
    Follows (plan.run scope) e (plan.trace e.buffer.config.placeholder scope e.buffer.depth) := by
  match plan with
  | .stop r => rw [Follows, Plan.run, Plan.trace, e.placed_nil]
  | .step op next =>
    rw [Plan.run, Plan.trace]
    exact (op.run_follows scope e).caught ((next _).run_follows scope _)

/-- What is written by an operation is what its trace tells. -/
theorem Action.run_follows (op : Action) (scope : Bindings) (e : Emission σ) :
    Follows (op.run scope) e (op.trace e.buffer.config.placeholder scope e.buffer.depth) := by
  match op with
  | .words parts subs => exact Follows.line _ _ e
  | .lines text subs => exact Follows.forM _ _ e
  | .block header? subs body =>
    have hbody (ls) := body.run_follows (scope.extend subs) (e.placed ls).enter
    exact Follows.under _ header? hbody
  | .function name params star? starStar? body =>
    have hbody (ls) := body.run_follows (inFunction scope name params star? starStar?)
      (e.placed ls).enter
    exact Follows.under (e := e) _ (some functionHeader) hbody
  | .scope subs body => exact body.run_follows _ e

end

end

/-! ## Depths of traces -/

/-- All lines of a trace are at a depth or deeper. -/
def Trace.From (depth : Nat) (t : Trace) : Prop := ∀ l ∈ t.lines, depth ≤ l.1

namespace Trace

variable {depth : Nat} {t u : Trace}

theorem From.none (depth : Nat) : Trace.none.From depth := fun _ h => absurd h List.not_mem_nil

theorem From.caught {next : Except EmitError Unit → Trace} (ht : t.From depth)
    (hnext : ∀ r, (next r).From depth) : (t.caught next).From depth := fun l hl =>
  (List.mem_append.1 hl).elim (ht l) (hnext _ l)

theorem From.andThen (ht : t.From depth) (hu : u.From depth) : (t.andThen u).From depth := by
  unfold Trace.andThen
  split
  · exact fun l hl => (List.mem_append.1 hl).elim (ht l) (hu l)
  · exact ht

theorem from_filling (bindings : Bindings) (depth : Nat) (templates : List String) :
    (filling bindings depth templates).From depth := by
  induction templates with
  | nil => exact From.none depth
  | cons template templates ih =>
    unfold filling
    split
    · exact List.forall_mem_cons.2 ⟨depth.le_refl, ih⟩
    · exact From.none depth

theorem From.filled (placeholder : String) (ht : t.From depth) (r : Except EmitError Unit) :
    Trace.From depth ⟨Emit.filled placeholder depth r t.lines, r⟩ := by
  unfold Trace.From Emit.filled
  split
  · exact List.forall_mem_singleton.2 depth.le_refl
  · exact ht

theorem From.mono {depth' : Nat} (ht : t.From depth') (h : depth ≤ depth') : t.From depth :=
  fun l hl => Nat.le_trans h (ht l hl)

theorem From.under {placeholder : String} {bindings : Bindings} {header? : Option String}
    (ht : t.From (depth + 1)) : (under placeholder bindings depth header? t).From depth :=
  (from_filling bindings depth _).andThen ((ht.filled placeholder t.result).mono depth.le_succ)

/-- Below its header a block that succeeds has a line, if all there is in it is deeper. -/
theorem exists_inner {placeholder : String} {bindings : Bindings} {header? : Option String}
    (ht : t.From (depth + 1)) (h : (under placeholder bindings depth header? t).result = .ok ()) :
    ∃ l ∈ (under placeholder bindings depth header? t).lines, depth + 1 ≤ l.1 := by
  unfold under Trace.andThen at h ⊢
  split at h
  case h_2 err herr => exact absurd (herr.symm.trans h) nofun
  case h_1 =>
    obtain ⟨l, hl⟩ : ∃ l, l ∈ Emit.filled placeholder (depth + 1) t.result t.lines := by
      change t.result = .ok () at h
      rw [h, filled_ok]
      cases t.lines with
      | nil => exact ⟨_, List.mem_singleton_self _⟩
      | cons l ls => exact ⟨l, List.mem_cons_self⟩
    exact ⟨l, List.mem_append_right _ hl, ht.filled placeholder t.result l hl⟩

end Trace

mutual

/-- Nothing on a plan is written further out than where it starts. -/
theorem Plan.from_trace (plan : Plan) (placeholder : String) (scope : Bindings) (depth : Nat) :
    (plan.trace placeholder scope depth).From depth := by
  match plan with
  | .stop r => exact Trace.From.none depth
  | .step op next =>
    rw [Plan.trace]
    exact (op.from_trace placeholder scope depth).caught fun r =>
      (next r).from_trace placeholder scope depth

/-- Nothing is written by an operation further out than where it starts. -/
theorem Action.from_trace (op : Action) (placeholder : String) (scope : Bindings) (depth : Nat) :
    (op.trace placeholder scope depth).From depth := by
  match op with
  | .words parts subs => exact Trace.from_filling _ depth _
  | .lines text subs => exact Trace.from_filling _ depth _
  | .block header? subs body => exact (body.from_trace placeholder _ (depth + 1)).under
  | .function name params star? starStar? body =>
    exact (body.from_trace placeholder _ (depth + 1)).under
  | .scope subs body => exact body.from_trace placeholder _ depth

end

/-- A block that succeeds has a line deeper than its header. -/
theorem Action.exists_inner {op : Action} (hop : op.isBlock = true) {placeholder : String}
    {scope : Bindings} {depth : Nat} (h : (op.trace placeholder scope depth).result = .ok ()) :
    ∃ l ∈ (op.trace placeholder scope depth).lines, depth + 1 ≤ l.1 := by
  cases op with
  | words parts subs => exact absurd hop Bool.false_ne_true
  | lines text subs => exact absurd hop Bool.false_ne_true
  | scope subs body => exact absurd hop Bool.false_ne_true
  | block header? subs body =>
    exact Trace.exists_inner (body.from_trace placeholder _ (depth + 1)) h
  | function name params star? starStar? body =>
    exact Trace.exists_inner (body.from_trace placeholder _ (depth + 1)) h

/-- Writing only appends, and its depth is balanced.  However an operation ends, the depth, the
layout and the rest are what they were before it, and the lines that were there are followed by
those of its trace: each is a text, filled in as its template says, behind as many spaces as the
blocks around it ask for.  None is further out than where the operation starts, and in a block that
succeeds there is one deeper than that. -/
theorem Action.run_balanced {σ : Type} (op : Action) (scope : Bindings) (e : Emission σ) :
    let t := op.trace e.buffer.config.placeholder scope e.buffer.depth
    (∃ e', op.run scope e = ended t.result e' ∧ e'.buffer.depth = e.buffer.depth ∧
      e'.buffer.config = e.buffer.config ∧ e'.rest = e.rest ∧
      e'.buffer.lines.toList = e.buffer.lines.toList ++ t.lines.map fun l =>
        String.ofList (List.replicate (l.1 * e.buffer.config.indentWidth) ' ') ++ l.2) ∧
    (∀ l ∈ t.lines, e.buffer.depth ≤ l.1) ∧
    (op.isBlock = true → t.result = .ok () → ∃ l ∈ t.lines, e.buffer.depth + 1 ≤ l.1) := by
  refine ⟨⟨_, op.run_follows scope e, rfl, rfl, rfl, ?_⟩, op.from_trace _ scope _,
    fun hop h => op.exists_inner hop h⟩
  simp only [Emission.placed, Array.toList_append]
  rfl

end Emit

end StagedScript
