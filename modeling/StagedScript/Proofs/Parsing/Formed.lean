import StagedScript.Proofs.Formed
import StagedScript.Proofs.Layout.Resolved
import StagedScript.Proofs.Parsing.Consumption
import StagedScript.Proofs.Parsing.Yields
import StagedScript.Proofs.Parsing.Statements

/-!
# What is read is well-formed

Every tree that is read from tokens without an error is well-formed, and no body in it is empty: the
layout marks no block that has no line, and every line that is read gives a statement.
-/

namespace StagedScript

open Parse

/-! ## The tokens ahead -/

/-- The names ahead of the cursor have a property, and no block ahead is empty. -/
structure Cursor.Sound (N : String → Prop) (c : Cursor) : Prop where
  names : ∀ x, .ident x ∈ c.ahead → N x
  filled : c.ahead.IsChain fun k l => k = .indent → l ≠ .dedent

/-- Statements of a body: there are some, and they are well-formed. -/
def Stmt.Lines (N : String → Prop) (ss : List Stmt) : Prop :=
  ss ≠ [] ∧ ∀ s ∈ ss, s.Formed N (· ≠ [])

namespace Cursor.Sound

variable {N : String → Prop} {c : Cursor}

theorem advance (h : c.Sound N) : c.advance.Sound N := by
  rcases c.ahead_eq with heq | heq
  · exact ⟨heq ▸ h.names, heq ▸ h.filled⟩
  · have hnames := h.names
    have hfilled := h.filled
    rw [heq] at hnames hfilled
    exact ⟨fun x hx => hnames x (List.mem_cons_of_mem _ hx), hfilled.tail⟩

theorem kind (h : c.Sound N) {x : String} (hx : c.kind = .ident x) : N x := by
  have hnames := h.names
  rw [Cursor.ahead_advance_of_kind hx (by simp)] at hnames
  exact hnames x List.mem_cons_self

/-- A block does not end where it starts. -/
theorem kind_advance (h : c.Sound N) (hc : c.kind = .indent) : c.advance.kind ≠ .dedent := by
  intro hdedent
  have hfilled := h.filled
  rw [Cursor.ahead_advance_of_kind hc (by simp),
    Cursor.ahead_advance_of_kind hdedent (by simp)] at hfilled
  exact (List.isChain_cons_cons.1 hfilled).1 rfl rfl

theorem skipNewlines (h : c.Sound N) : c.skipNewlines.Sound N := by
  unfold Cursor.skipNewlines
  generalize c.bound = n
  induction n generalizing c with
  | zero => exact h
  | succ n ih =>
    unfold Cursor.skipNewlinesFrom
    split
    · exact ih h.advance
    · exact h

end Cursor.Sound

/-- Where the tokens ahead are sound, what is read has a property, and the tokens behind it are
sound. -/
def Gives {α : Type} (N : String → Prop) (P : α → Prop) (x : Parse α) : Prop :=
  ∀ c : Cursor, c.Sound N → Ensures x c fun a c' => P a ∧ c'.Sound N

namespace Gives

variable {α β : Type} {N : String → Prop} {P : α → Prop} {Q : β → Prop}

theorem pure {a : α} (h : P a) : Gives N P (Pure.pure a) := fun _ hc => Ensures.pure ⟨h, hc⟩

theorem failAt {span : Span} {cause : SyntaxError.Cause} :
    Gives N P (Parse.failAt span cause : Parse α) :=
  fun _ _ => Ensures.failAt

/-- Behind a check, what was checked is known. -/
theorem check {b : Bool} {span : Span} {cause : SyntaxError.Cause} {x : Parse β}
    (hx : b = false → Gives N Q x) :
    Gives N Q (if b = true then (Parse.failAt span cause : Parse α) >>= fun _ => x else x) := by
  cases b with
  | true => rintro _ _ _ _ ⟨⟩
  | false => exact hx rfl

theorem throw {e : SyntaxError} : Gives N P (MonadExcept.throw e : Parse α) := by
  rintro _ _ _ _ ⟨⟩

theorem missing {what : SyntaxError.Expected} : Gives N P (Parse.missing what : Parse α) := by
  rintro _ _ _ _ ⟨⟩

theorem require {b : Bool} {what : SyntaxError.Expected} {x : Parse β} (hx : Gives N Q x) :
    Gives N Q (if b = true then (Parse.missing what : Parse α) >>= fun _ => x else x) := by
  cases b with
  | true => rintro _ _ _ _ ⟨⟩
  | false => exact hx

theorem bind {x : Parse α} {f : α → Parse β} (hx : Gives N P x) (hf : ∀ a, P a → Gives N Q (f a)) :
    Gives N Q (x >>= f) := fun c hc => (hx c hc).bind fun a c' h => hf a h.1 c' h.2

/-- Of the first step nothing needs to be known. -/
theorem then_ {x : Parse α} {f : α → Parse β} (hx : Gives N (fun _ => True) x)
    (hf : ∀ a, Gives N Q (f a)) : Gives N Q (x >>= f) := hx.bind fun a _ => hf a

theorem map {x : Parse α} {f : α → β} (hx : Gives N P x) (hf : ∀ a, P a → Q (f a)) :
    Gives N Q (f <$> x) := by
  rw [map_eq_pure_bind]
  exact hx.bind fun a ha => .pure (hf a ha)

theorem get {f : Cursor → Parse β} (hf : ∀ c : Cursor, c.Sound N → Gives N Q (f c)) :
    Gives N Q (MonadState.get >>= f) := fun c hc => hf c hc c hc

theorem kind {f : Token.Kind → Parse β}
    (hf : ∀ k, (∀ x, k = .ident x → N x) → Gives N Q (f k)) :
    Gives N Q (Parse.kind >>= f) := fun c hc => hf c.kind (fun _ => hc.kind) c hc

theorem here : Gives N (fun _ => True) Parse.here := by
  rintro c hc _ _ ⟨⟩
  exact ⟨trivial, hc⟩

theorem sees (k : Token.Kind) : Gives N (fun _ => True) (Parse.sees k) := by
  rintro c hc _ _ ⟨⟩
  exact ⟨trivial, hc⟩

theorem rounds : Gives N (fun _ => True) Parse.rounds := by
  rintro c hc _ _ ⟨⟩
  exact ⟨trivial, hc⟩

theorem spanFrom (start : Nat) : Gives N (fun _ => True) (Parse.spanFrom start) := by
  rintro c hc _ _ ⟨⟩
  exact ⟨trivial, hc⟩

theorem blockSpanFrom (start : Nat) : Gives N (fun _ => True) (Parse.blockSpanFrom start) := by
  rintro c hc _ _ ⟨⟩
  exact ⟨trivial, hc⟩

theorem advance : Gives N (fun _ => True) Parse.advance := by
  rintro c hc _ _ ⟨⟩
  exact ⟨trivial, hc.advance⟩

theorem skipNewlines : Gives N (fun _ => True) (modify Cursor.skipNewlines) := by
  rintro c hc _ _ ⟨⟩
  exact ⟨trivial, hc.skipNewlines⟩

theorem accept (k : Token.Kind) : Gives N (fun _ => True) (Parse.accept k) := by
  refine (sees k).then_ fun b => ?_
  split
  · exact advance.then_ fun _ => .pure trivial
  · exact .pure trivial

theorem expect (k : Token.Kind) : Gives N (fun _ => True) (Parse.expect k) := by
  refine (sees k).then_ fun b => ?_
  split
  · exact advance
  · exact missing

theorem name : Gives N N Parse.name := by
  refine .kind fun k hk => ?_
  split
  · exact advance.then_ fun _ => .pure (hk _ rfl)
  · exact missing

end Gives

/-! ## Expressions -/

variable {N : String → Prop}

theorem gives_moreStrings (n : Nat) (text : String) :
    Gives N (fun _ => True) (moreStrings n text) := by
  induction n generalizing text with
  | zero => exact .pure trivial
  | succ n ih =>
    unfold moreStrings
    refine .kind fun k _ => ?_
    split
    · exact Gives.advance.then_ fun _ => ih _
    · exact .pure trivial

section

variable {sub : Nat → Parse Expr} (hsub : ∀ least, Gives N (·.Formed N) (sub least))
include hsub

theorem gives_commaList (close : Token.Kind) (n : Nat) :
    Gives N (fun es => ∀ e ∈ es, e.Formed N) (commaList sub close n) := by
  induction n with
  | zero => exact .pure fun _ he => absurd he List.not_mem_nil
  | succ n ih =>
    unfold commaList
    refine .get fun c _ => ?_
    split
    · exact .pure fun _ he => absurd he List.not_mem_nil
    · refine (hsub 0).bind fun e he => (Gives.accept _).then_ fun b => ?_
      split
      · exact ih.bind fun es hes => .pure (List.forall_mem_cons.2 ⟨he, hes⟩)
      · exact .pure (List.forall_mem_singleton.2 he)

theorem gives_moreItems (n : Nat) : Gives N (fun es => ∀ e ∈ es, e.Formed N) (moreItems sub n) := by
  induction n with
  | zero => exact .pure fun _ he => absurd he List.not_mem_nil
  | succ n ih =>
    unfold moreItems
    refine (Gives.accept _).then_ fun b => ?_
    split
    · refine .kind fun k _ => ?_
      split
      · refine (hsub 0).bind fun e he => ih.bind fun es hes => .pure ?_
        exact List.forall_mem_cons.2 ⟨he, hes⟩
      · exact .pure fun _ he => absurd he List.not_mem_nil
    · exact .pure fun _ he => absurd he List.not_mem_nil

theorem gives_exprList : Gives N (·.Formed N) (exprList sub) := by
  unfold exprList
  refine Gives.here.then_ fun span => (hsub 0).bind fun e he => (Gives.sees _).then_ fun b => ?_
  split
  · refine Gives.rounds.then_ fun n => (gives_moreItems hsub n).bind fun es hes => ?_
    exact (Gives.spanFrom _).then_ fun _ => .pure (.tuple _ (List.forall_mem_cons.2 ⟨he, hes⟩))
  · exact .pure he

theorem gives_entries (n : Nat) :
    Gives N (fun es => (∀ e ∈ es, e.1.Formed N) ∧ ∀ e ∈ es, e.2.Formed N) (entries sub n) := by
  have hnone : (∀ e ∈ ([] : List (Expr × Expr)), e.1.Formed N) ∧
      ∀ e ∈ ([] : List (Expr × Expr)), e.2.Formed N := by simp
  induction n with
  | zero => exact .pure hnone
  | succ n ih =>
    unfold entries
    refine .get fun c _ => ?_
    split
    · exact .pure hnone
    · refine (hsub 0).bind fun k hk => (Gives.expect _).then_ fun _ => ?_
      refine (hsub 0).bind fun v hv => (Gives.accept _).then_ fun b => ?_
      split
      · refine ih.bind fun es hes => .pure ?_
        exact ⟨List.forall_mem_cons.2 ⟨hk, hes.1⟩, List.forall_mem_cons.2 ⟨hv, hes.2⟩⟩
      · exact .pure ⟨List.forall_mem_singleton.2 hk, List.forall_mem_singleton.2 hv⟩

theorem gives_paren : Gives N (·.Formed N) (paren sub) := by
  unfold paren
  refine Gives.here.then_ fun span => Gives.advance.then_ fun _ => (Gives.accept _).then_
    fun b => ?_
  split
  · exact (Gives.spanFrom _).then_ fun _ => .pure (.tuple _ fun _ he => absurd he List.not_mem_nil)
  · refine (hsub 0).bind fun e he => (Gives.accept _).then_ fun b => ?_
    split
    · refine Gives.rounds.then_ fun n => (gives_commaList hsub _ n).bind fun es hes => ?_
      refine (Gives.expect _).then_ fun _ => (Gives.spanFrom _).then_ fun _ => .pure ?_
      exact .tuple _ (List.forall_mem_cons.2 ⟨he, hes⟩)
    · exact (Gives.expect _).then_ fun _ => .pure he

theorem gives_operand : Gives N (·.Formed N) (operand sub) := by
  have hliteral {f : Span → Expr} {start : Nat} (hf : ∀ span, (f span).Formed N) :
      Gives N (·.Formed N) (advance >>= fun _ => spanFrom start >>= fun span => pure (f span)) :=
    Gives.advance.then_ fun _ => (Gives.spanFrom _).then_ fun span => .pure (hf span)
  unfold operand
  refine .get fun c hc => ?_
  dsimp only
  split
  · exact hliteral fun span => .int span _
  · exact hliteral fun span => .float span _
  · refine Gives.advance.then_ fun _ => Gives.rounds.then_ fun n => ?_
    exact (gives_moreStrings n _).then_ fun text => (Gives.spanFrom _).then_ fun _ =>
      .pure (.str _ text)
  · next x hx =>
    exact Gives.advance.then_ fun _ => (Gives.spanFrom _).then_ fun _ =>
      .pure (.name _ (hc.kind hx))
  · exact hliteral fun span => .bool span _
  · exact hliteral fun span => .bool span _
  · exact hliteral fun span => .none_ span
  · exact gives_paren hsub
  · refine Gives.advance.then_ fun _ => Gives.rounds.then_ fun n => ?_
    refine (gives_commaList hsub _ n).bind fun es hes => (Gives.expect _).then_ fun _ => ?_
    exact (Gives.spanFrom _).then_ fun _ => .pure (.list _ hes)
  · refine Gives.advance.then_ fun _ => Gives.rounds.then_ fun n => ?_
    refine (gives_entries hsub n).bind fun es hes => (Gives.expect _).then_ fun _ => ?_
    exact (Gives.spanFrom _).then_ fun _ => .pure (.dict _ hes.1 hes.2)
  · exact .failAt
  · split
    · refine Gives.advance.then_ fun _ => (hsub _).bind fun e he => ?_
      exact (Gives.spanFrom _).then_ fun _ => .pure (.unary _ _ he)
    · exact .missing

/-- Behind an argument by name there is none by place. -/
theorem gives_argument (named : Bool) :
    Gives N (fun arg => arg.value.Formed N ∧ (named = true → arg.role ≠ .positional))
      (argument sub named) := by
  have hvalue {role : ArgRole} (hrole : named = true → role ≠ .positional) :
      Gives N (fun arg : Arg Expr => arg.value.Formed N ∧ (named = true → arg.role ≠ .positional))
        (sub 0 >>= fun e => pure ⟨role, e⟩) := (hsub 0).bind fun e he => .pure ⟨he, hrole⟩
  unfold argument
  refine .get fun c hc => ?_
  split
  · exact Gives.advance.then_ fun _ => hvalue (by simp)
  · exact Gives.advance.then_ fun _ => hvalue (by simp)
  · exact Gives.advance.then_ fun _ => Gives.advance.then_ fun _ => hvalue (by simp)
  · split
    · exact .failAt
    · next hnamed => exact hvalue fun h => absurd h hnamed

theorem gives_arguments (n : Nat) (named : Bool) :
    Gives N (fun args => (∀ arg ∈ args, arg.value.Formed N) ∧
      args.Pairwise (fun a b => namesArgument a.role = true → b.role ≠ .positional) ∧
      (named = true → ∀ arg ∈ args, arg.role ≠ .positional)) (arguments sub n named) := by
  induction n generalizing named with
  | zero => exact .pure ⟨by simp, .nil, by simp⟩
  | succ n ih =>
    unfold arguments
    refine .get fun c _ => ?_
    split
    · exact .pure ⟨by simp, .nil, by simp⟩
    · refine (gives_argument hsub named).bind fun arg harg => (Gives.accept _).then_ fun b => ?_
      split
      · refine (ih _).bind fun args hargs => .pure ?_
        obtain ⟨hvalues, horder, hplace⟩ := hargs
        rw [Bool.or_eq_true] at hplace
        refine ⟨List.forall_mem_cons.2 ⟨harg.1, hvalues⟩, ?_, fun hnamed => ?_⟩
        · exact List.pairwise_cons.2 ⟨fun b hb hrole => hplace (.inr hrole) b hb, horder⟩
        · exact List.forall_mem_cons.2 ⟨harg.2 hnamed, hplace (.inl hnamed)⟩
      · exact .pure ⟨List.forall_mem_singleton.2 harg.1, List.pairwise_singleton _ _,
          fun hnamed => List.forall_mem_singleton.2 (harg.2 hnamed)⟩

theorem gives_trailer {object : Expr} (hobject : object.Formed N) :
    Gives N (·.Formed N) (trailer sub object) := by
  unfold trailer
  refine .kind fun k _ => ?_
  split
  · refine Gives.advance.then_ fun _ => Gives.rounds.then_ fun n => ?_
    refine (gives_arguments hsub n false).bind fun args hargs => (Gives.expect _).then_ fun _ => ?_
    exact (Gives.spanFrom _).then_ fun _ => .pure (.call _ hobject hargs.1 hargs.2.1)
  · refine Gives.advance.then_ fun _ => Gives.name.bind fun x _ => ?_
    exact (Gives.spanFrom _).then_ fun _ => .pure (.attr _ x hobject)
  · refine Gives.advance.then_ fun _ => (gives_exprList hsub).bind fun e he => ?_
    exact (Gives.expect _).then_ fun _ => (Gives.spanFrom _).then_ fun _ =>
      .pure (.subscript _ hobject he)
  · exact .pure hobject

theorem gives_continuation (start least n : Nat) {left : Expr} (hleft : left.Formed N)
    (compared : Bool) : Gives N (·.Formed N) (continuation sub start least n left compared) := by
  induction n generalizing left compared with
  | zero => exact .pure hleft
  | succ n ih =>
    unfold continuation
    refine .get fun c _ => ?_
    split
    · exact (gives_trailer hsub hleft).bind fun e he => ih he compared
    · split
      · exact .pure hleft
      · next op two hop =>
        have hright : Gives N (·.Formed N) (do
            let right ← sub op.strength.2
            continuation sub start least n (op.apply ⟨start, right.span.stop⟩ left right)
              op.isCompare) := by
          refine (hsub _).bind fun right hright => ih ?_ _
          cases op with
          | logical op => exact .logical _ op hleft hright
          | compare op => exact .compare _ op hleft hright
          | binary op => exact .binary _ op hleft hright
        split
        · exact .pure hleft
        · refine Gives.advance.then_ fun _ => ?_
          dsimp only
          split
          · exact Gives.advance.then_ fun _ => .check fun _ => hright
          · exact .check fun _ => hright

end

theorem gives_exprWithin (depth least : Nat) : Gives N (·.Formed N) (exprWithin depth least) := by
  induction depth generalizing least with
  | zero => exact Gives.here.then_ fun _ => .failAt
  | succ depth ih =>
    unfold exprWithin
    refine Gives.here.then_ fun span => (gives_operand ih).bind fun left hleft => ?_
    exact Gives.rounds.then_ fun n => gives_continuation ih _ _ _ hleft _

theorem gives_exprAbove (least : Nat) : Gives N (·.Formed N) (exprAbove least) :=
  Gives.rounds.then_ fun n => gives_exprWithin n least

theorem gives_expr : Gives N (·.Formed N) expr := gives_exprAbove 0

theorem gives_exprs : Gives N (·.Formed N) exprs := gives_exprList gives_exprAbove

/-! ## Simple statements -/

theorem gives_checkTarget (e : Expr) : Gives N (fun _ => e.Target) (checkTarget e) := by
  unfold checkTarget
  split
  · exact .throw
  · next hnone => exact .pure ((Expr.targetFault?_eq_none_iff e).1 hnone)

theorem gives_checkTargets (es : List Expr) :
    Gives N (fun _ => ∀ e ∈ es, e.Target) (checkTargets es) := by
  unfold checkTargets
  split
  · exact .throw
  · next hnone => exact .pure ((Expr.targetFaults?_eq_none_iff es).1 hnone)

theorem Expr.target_of_isAugmentedTarget {e : Expr} (h : e.isAugmentedTarget = true) :
    e.Target := by
  cases e with
  | name span x => exact .name span x
  | attr span o x => exact .attr span o x
  | subscript span o i => exact .subscript span o i
  | _ => cases h

theorem gives_assigned (n : Nat) :
    Gives N (fun r => (∀ e ∈ r.1, e.Formed N) ∧ r.2.Formed N) (assigned n) := by
  induction n with
  | zero => exact Gives.here.then_ fun _ => .failAt
  | succ n ih =>
    unfold assigned
    refine Gives.advance.then_ fun _ => gives_exprs.bind fun e he => (Gives.sees _).then_
      fun b => ?_
    split
    · exact ih.bind fun r hr => .pure ⟨List.forall_mem_cons.2 ⟨he, hr.1⟩, hr.2⟩
    · exact .pure ⟨fun _ he => absurd he List.not_mem_nil, he⟩

theorem gives_exprStmt (start : Nat) : Gives N (·.Formed N (· ≠ [])) (exprStmt start) := by
  unfold exprStmt
  refine gives_exprs.bind fun first hfirst => (Gives.sees _).then_ fun b => ?_
  split
  · refine Gives.rounds.then_ fun n => (gives_assigned n).bind fun r hr => ?_
    refine (gives_checkTargets _).bind fun _ htargets => (Gives.spanFrom _).then_ fun _ => .pure ?_
    exact .assign _ htargets (List.forall_mem_cons.2 ⟨hfirst, hr.1⟩) hr.2
  · refine .kind fun k _ => ?_
    split
    · refine Gives.advance.then_ fun _ => .check fun htarget => ?_
      have htarget : first.Target := Expr.target_of_isAugmentedTarget (by simpa using htarget)
      refine gives_expr.bind fun e he => (Gives.spanFrom _).then_ fun _ => .pure ?_
      exact .assign _ (List.forall_mem_singleton.2 htarget) (List.forall_mem_singleton.2 hfirst)
        (.binary _ _ hfirst he)
    · exact (Gives.spanFrom _).then_ fun _ => .pure (.expr _ hfirst)

theorem gives_simple : Gives N (·.Formed N (· ≠ [])) simple := by
  have hword {f : Span → Stmt} {start : Nat} (hf : ∀ span, (f span).Formed N (· ≠ [])) :
      Gives N (·.Formed N (· ≠ [])) (advance >>= fun _ => spanFrom start >>= fun span =>
        pure (f span)) :=
    Gives.advance.then_ fun _ => (Gives.spanFrom _).then_ fun span => .pure (hf span)
  unfold simple
  refine .get fun c _ => ?_
  dsimp only
  split
  · exact hword .pass
  · exact hword .brk
  · exact hword .cont
  · refine Gives.advance.then_ fun _ => .get fun c' _ => ?_
    split
    · exact (Gives.spanFrom _).then_ fun _ => .pure (.ret _ (by simp))
    · exact gives_exprs.bind fun e he => (Gives.spanFrom _).then_ fun _ =>
        .pure (.ret _ (by simpa using he))
  · exact .failAt
  · exact gives_exprStmt _

theorem gives_moreSimple (n : Nat) :
    Gives N (fun ss => ∀ s ∈ ss, s.Formed N (· ≠ [])) (moreSimple n) := by
  induction n with
  | zero => exact .pure fun _ hs => absurd hs List.not_mem_nil
  | succ n ih =>
    unfold moreSimple
    refine (Gives.accept _).then_ fun b => ?_
    split
    · refine (Gives.sees _).then_ fun b => ?_
      split
      · exact .pure fun _ hs => absurd hs List.not_mem_nil
      · exact gives_simple.bind fun s hs => ih.bind fun ss hss =>
          .pure (List.forall_mem_cons.2 ⟨hs, hss⟩)
    · exact .pure fun _ hs => absurd hs List.not_mem_nil

theorem gives_simpleLine : Gives N (Stmt.Lines N) simpleLine := by
  unfold simpleLine
  refine gives_simple.bind fun s hs => Gives.rounds.then_ fun n => ?_
  refine (gives_moreSimple n).bind fun ss hss => (Gives.expect _).then_ fun _ => .pure ?_
  exact ⟨List.cons_ne_nil s ss, List.forall_mem_cons.2 ⟨hs, hss⟩⟩

/-! ## Headers -/

theorem gives_moreTargets (n : Nat) : Gives N (fun es => ∀ e ∈ es, e.Formed N) (moreTargets n) := by
  induction n with
  | zero => exact .pure fun _ he => absurd he List.not_mem_nil
  | succ n ih =>
    unfold moreTargets
    refine (Gives.accept _).then_ fun b => ?_
    split
    · refine (Gives.sees _).then_ fun b => ?_
      split
      · exact .pure fun _ he => absurd he List.not_mem_nil
      · refine (gives_exprAbove _).bind fun e he => ih.bind fun es hes => .pure ?_
        exact List.forall_mem_cons.2 ⟨he, hes⟩
    · exact .pure fun _ he => absurd he List.not_mem_nil

theorem gives_loopTarget : Gives N (·.Formed N) loopTarget := by
  unfold loopTarget
  refine Gives.here.then_ fun span => (gives_exprAbove _).bind fun e he => ?_
  refine (Gives.sees _).then_ fun b => ?_
  split
  · refine Gives.rounds.then_ fun n => (gives_moreTargets n).bind fun es hes => ?_
    exact (Gives.spanFrom _).then_ fun _ => .pure (.tuple _ (List.forall_mem_cons.2 ⟨he, hes⟩))
  · exact .pure he

/-- Parameters that have been read. -/
def Param.Read (N : String → Prop) (ps : List (Param Expr)) : Prop :=
  Param.InOrder ps ∧ ∀ p ∈ ps, p.Formed N

theorem gives_param {before : List (Param Expr)} (hbefore : Param.Read N before) :
    Gives N (fun p => Param.Read N (before ++ [p])) (param before) := by
  -- Whatever the parameter, that it has a new name is checked in the end.
  have hnew {p : Param Expr} {span : Span} (hp : p.Formed N) (horder : ∀ q ∈ before,
      q.mayPrecede p = true) : Gives N (fun p => Param.Read N (before ++ [p]))
      (if before.any (·.name == p.name) = true then
        (failAt span (.duplicateParam p.name) : Parse Unit) >>= fun _ => pure p else pure p) := by
    refine .check fun hname =>
      .pure ⟨hbefore.1.concat (by simpa [Param.names] using hname) horder, ?_⟩
    exact List.forall_mem_append.2 ⟨hbefore.2, List.forall_mem_singleton.2 hp⟩
  unfold param
  refine Gives.here.then_ fun span => .check fun hstarStar => (Gives.accept _).then_ fun b => ?_
  rw [List.any_eq_false] at hstarStar
  split
  · refine Gives.name.bind fun x hx => hnew ⟨hx, by simp [Param.default?]⟩ fun q hq => ?_
    simpa [Param.mayPrecede] using hstarStar q hq
  · refine (Gives.accept _).then_ fun b => ?_
    split
    · refine .check fun hstar => Gives.name.bind fun x hx => hnew ⟨hx, by simp [Param.default?]⟩
        fun q hq => ?_
      rw [List.any_eq_false] at hstar
      exact Param.isPlain_of_not (hstar q hq) (hstarStar q hq)
    · refine .check fun hstar => Gives.name.bind fun x hx => (Gives.accept _).then_ fun b => ?_
      rw [List.any_eq_false] at hstar
      split
      · refine gives_expr.bind fun e he => hnew ⟨hx, by simpa [Param.default?] using he⟩
          fun q hq => ?_
        exact Param.isPlain_of_not (hstar q hq) (hstarStar q hq)
      · refine .check fun hdefault => hnew ⟨hx, by simp [Param.default?]⟩ fun q hq => ?_
        rw [List.any_eq_false] at hdefault
        have hnone : q.default?.isNone = true := by simpa using hdefault q hq
        exact Bool.and_eq_true_iff.2 ⟨Param.isPlain_of_not (hstar q hq) (hstarStar q hq), hnone⟩

theorem gives_params (n : Nat) {before : List (Param Expr)} (hbefore : Param.Read N before) :
    Gives N (Param.Read N) (params n before) := by
  induction n generalizing before with
  | zero => exact .pure hbefore
  | succ n ih =>
    unfold params
    refine (Gives.sees _).then_ fun b => ?_
    split
    · exact .pure hbefore
    · refine (gives_param hbefore).bind fun p hp => (Gives.accept _).then_ fun b => ?_
      split
      · exact ih hp
      · exact .pure hp

theorem gives_decorators (n : Nat) : Gives N (fun es => ∀ e ∈ es, e.Formed N) (decorators n) := by
  induction n with
  | zero => exact .pure fun _ he => absurd he List.not_mem_nil
  | succ n ih =>
    unfold decorators
    refine (Gives.accept _).then_ fun b => ?_
    split
    · refine gives_expr.bind fun e he => (Gives.expect _).then_ fun _ => ?_
      exact Gives.skipNewlines.then_ fun _ => ih.bind fun es hes =>
        .pure (List.forall_mem_cons.2 ⟨he, hes⟩)
    · exact .pure fun _ he => absurd he List.not_mem_nil

/-! ## Statements with blocks -/

section

variable {sub : Parse (List Stmt)} (hsub : Gives N (Stmt.Lines N) sub)
include hsub

theorem gives_blockBody (n : Nat) :
    Gives N (fun ss => ∀ s ∈ ss, s.Formed N (· ≠ [])) (blockBody sub n) := by
  induction n with
  | zero => exact .pure fun _ hs => absurd hs List.not_mem_nil
  | succ n ih =>
    unfold blockBody
    refine .get fun c _ => ?_
    split
    · exact .pure fun _ hs => absurd hs List.not_mem_nil
    · refine hsub.bind fun ss hss => Gives.skipNewlines.then_ fun _ => ih.bind
        fun ts hts => .pure ?_
      exact List.forall_mem_append.2 ⟨hss.2, hts⟩

/-- Where a block does not end, there are statements in it. -/
theorem gives_lines (n : Nat) {c : Cursor} (hc : c.Sound N) (hfirst : c.kind ≠ .dedent) :
    Ensures (blockBody sub (n + 1) >>= fun ss => expect .dedent >>= fun _ => pure ss) c
      fun ss c' => Stmt.Lines N ss ∧ c'.Sound N := by
  have hbody : Ensures (blockBody sub (n + 1)) c fun ss c' => (∀ s ∈ ss, s.Formed N (· ≠ [])) ∧
      c'.Sound N ∧ (ss ≠ [] ∨ c' = c) := by
    unfold blockBody
    refine .get ?_
    split
    · exact .pure ⟨fun _ hs => absurd hs List.not_mem_nil, hc, .inr rfl⟩
    · refine (hsub c hc).bind fun ss c₁ hss => ?_
      refine (Gives.skipNewlines c₁ hss.2).bind fun _ c₂ hc₂ => ?_
      refine (gives_blockBody hsub n c₂ hc₂.2).bind fun ts c₃ hts => .pure ?_
      refine ⟨List.forall_mem_append.2 ⟨hss.1.2, hts.1⟩, hts.2, .inl fun hnil => hss.1.1 ?_⟩
      exact (List.append_eq_nil_iff.1 hnil).1
  refine hbody.bind fun ss c' hss => ?_
  obtain ⟨hss, hc', hne | rfl⟩ := hss
  · exact (Gives.expect _ c' hc').bind fun _ c'' h => .pure ⟨⟨hne, hss⟩, h.2⟩
  · rintro _ _ hok
    obtain ⟨_, _, hexpect, -⟩ := EStateM.bind_eq_ok.1 hok
    exact absurd (expect_eq_ok (k := .dedent) trivial hexpect).1 hfirst

theorem gives_block : Gives N (Stmt.Lines N) (block sub) := by
  unfold block
  refine (Gives.expect _).then_ fun _ c hc => ?_
  refine Ensures.bind (P := fun b c' => c'.Sound N) (fun b c' h => (Gives.accept _ c hc b c' h).2)
    fun b c₁ hc₁ => ?_
  split
  · refine Ensures.bind (fun b c' h => accept_eq_ok (k := .indent) trivial h) fun b c₂ h => ?_
    rcases h with ⟨rfl, hkind, rfl⟩ | ⟨rfl, rfl⟩
    · exact gives_lines hsub _ hc₁.advance (hc₁.kind_advance hkind)
    · rintro _ _ ⟨⟩
  · exact gives_simpleLine c₁ hc₁

theorem gives_choice (n : Nat) : Gives N (·.Formed N (· ≠ [])) (choice sub n) := by
  induction n with
  | zero => exact Gives.here.then_ fun _ => .failAt
  | succ n ih =>
    unfold choice
    refine Gives.here.then_ fun span => Gives.advance.then_ fun _ => gives_expr.bind fun e he => ?_
    refine (gives_block hsub).bind fun a ha => (Gives.sees _).then_ fun b => ?_
    have hend {b : List Stmt} (hb : ∀ s ∈ b, s.Formed N (· ≠ [])) :
        Gives N (·.Formed N (· ≠ [])) (blockSpanFrom span.start >>= fun s =>
          pure (Stmt.cond s e a b)) :=
      (Gives.blockSpanFrom _).then_ fun _ => .pure (.cond _ he ha.1 ha.2 hb)
    split
    · exact ih.bind fun s hs => hend (List.forall_mem_singleton.2 hs)
    · refine (Gives.accept _).then_ fun b => ?_
      split
      · exact (gives_block hsub).bind fun b hb => hend hb.2
      · exact hend fun _ hs => absurd hs List.not_mem_nil

theorem gives_whileLoop : Gives N (·.Formed N (· ≠ [])) (whileLoop sub) := by
  unfold whileLoop
  refine Gives.here.then_ fun span => (Gives.expect _).then_ fun _ => gives_expr.bind fun e he => ?_
  refine (gives_block hsub).bind fun b hb => (Gives.blockSpanFrom _).then_ fun _ => .pure ?_
  exact .loop _ he hb.1 hb.2

theorem gives_forLoop : Gives N (·.Formed N (· ≠ [])) (forLoop sub) := by
  unfold forLoop
  refine Gives.here.then_ fun span => (Gives.expect _).then_ fun _ => gives_loopTarget.bind
    fun x hx => ?_
  refine (gives_checkTarget x).bind fun _ htarget => (Gives.expect _).then_ fun _ => ?_
  refine gives_exprs.bind fun e he => (gives_block hsub).bind fun a ha => ?_
  have hend {b : List Stmt} (hb : ∀ s ∈ b, s.Formed N (· ≠ [])) :
      Gives N (·.Formed N (· ≠ [])) (blockSpanFrom span.start >>= fun s =>
        pure (Stmt.each s x e a b)) :=
    (Gives.blockSpanFrom _).then_ fun _ => .pure (.each _ htarget hx he ha.1 ha.2 hb)
  refine (Gives.accept _).then_ fun b => ?_
  split
  · exact (gives_block hsub).bind fun b hb => hend hb.2
  · exact hend fun _ hs => absurd hs List.not_mem_nil

theorem gives_definition : Gives N (·.Formed N (· ≠ [])) (definition sub) := by
  have hnone : Param.Read N [] := ⟨.nil, fun _ hp => absurd hp List.not_mem_nil⟩
  unfold definition
  refine Gives.here.then_ fun span => Gives.rounds.then_ fun n => ?_
  refine (gives_decorators n).bind fun ds hds => (Gives.sees _).then_ fun b => ?_
  refine .require ?_
  refine Gives.advance.then_ fun _ => Gives.name.bind fun x hx => (Gives.expect _).then_ fun _ => ?_
  refine Gives.rounds.then_ fun n => (gives_params n hnone).bind fun ps hps => ?_
  refine (Gives.expect _).then_ fun _ => (gives_block hsub).bind fun b hb => ?_
  exact (Gives.blockSpanFrom _).then_ fun _ => .pure (.define _ hx hds hps.1 hps.2 hb.1 hb.2)

theorem gives_classDefinition : Gives N (·.Formed N (· ≠ [])) (classDefinition sub) := by
  unfold classDefinition
  refine Gives.here.then_ fun span => (Gives.expect _).then_ fun _ => Gives.name.bind fun x hx => ?_
  have hend {base : Option Expr} (hbase : ∀ e ∈ base, e.Formed N) :
      Gives N (·.Formed N (· ≠ [])) (block sub >>= fun body =>
        blockSpanFrom span.start >>= fun s => pure (Stmt.class_ s x base body)) :=
    (gives_block hsub).bind fun b hb => (Gives.blockSpanFrom _).then_ fun _ =>
      .pure (.class_ _ hx hbase hb.1 hb.2)
  refine (Gives.accept _).then_ fun b => ?_
  split
  · refine (Gives.sees _).then_ fun b => ?_
    split
    · exact (Gives.expect _).then_ fun _ => hend (by simp)
    · refine (gives_expr.map (Q := fun base => ∀ e ∈ base, e.Formed N) fun e he => ?_).bind
        fun base hbase => ?_
      · simpa using he
      · exact (Gives.expect _).then_ fun _ => hend hbase
  · exact hend (by simp)

end

theorem gives_stmtWithin (depth : Nat) : Gives N (Stmt.Lines N) (stmtWithin depth) := by
  induction depth with
  | zero => exact Gives.here.then_ fun _ => .failAt
  | succ depth ih =>
    have hone {x : Parse Stmt} (hx : Gives N (·.Formed N (· ≠ [])) x) :
        Gives N (Stmt.Lines N) (x >>= fun s => pure [s]) :=
      hx.bind fun s hs => .pure ⟨List.cons_ne_nil s [], List.forall_mem_singleton.2 hs⟩
    unfold stmtWithin
    refine .get fun c _ => ?_
    split
    · exact Gives.rounds.then_ fun n => hone (gives_choice ih n)
    · exact hone (gives_whileLoop ih)
    · exact hone (gives_forLoop ih)
    · exact hone (gives_definition ih)
    · exact hone (gives_definition ih)
    · exact hone (gives_classDefinition ih)
    · exact .failAt
    · exact gives_simpleLine

theorem gives_stmt : Gives N (Stmt.Lines N) stmt := Gives.rounds.then_ gives_stmtWithin

/-! ## Texts -/

/-- What is read without an error from sound tokens is well-formed. -/
theorem Parsed.formed_ofCursor {n room : Nat} {c : Cursor} {body : List Stmt} (hc : c.Sound N)
    (h : ofCursor n room c = ⟨body, []⟩) : ∀ s ∈ body, s.Formed N (· ≠ []) := by
  induction n generalizing c body with
  | zero =>
    cases h
    exact fun _ hs => absurd hs List.not_mem_nil
  | succ n ih =>
    unfold ofCursor at h
    split at h
    · cases h
      exact fun _ hs => absurd hs List.not_mem_nil
    · split at h
      · next ss c' hss =>
        obtain ⟨hlines, hc'⟩ := gives_stmt c hc ss c' hss
        obtain ⟨hbody, herrors⟩ := Parsed.mk.injEq .. ▸ h
        rw [← hbody]
        exact List.forall_mem_append.2
          ⟨hlines.2, ih hc'.skipNewlines (congrArg₂ Parsed.mk rfl herrors)⟩
      · split at h <;> cases h

/-- The tokens of any text are sound: the layout marks no block without a line. -/
theorem Cursor.sound_ofText {text : List Char}
    (hnames : ∀ t ∈ (Lexed.ofText text).tokens, ∀ x, t.kind = .ident x → N x) :
    (ofTokens (Lexed.ofText text).tokens).Sound N := by
  have hmarked : Layout.Framed (Token.scan text).1 (Lexed.ofText text).tokens :=
    Layout.resolve_framed text
  have hahead : (ofTokens (Lexed.ofText text).tokens).ahead =
      (Lexed.ofText text).tokens.map Token.kind := by
    obtain ⟨front, last, hlast, heof, -⟩ := hmarked.eof
    refine ahead_ofTokens (fun t ht => ?_) (by simp [hlast])
    rw [hlast, List.getLast?_concat] at ht
    exact Option.some.inj ht ▸ heof
  constructor
  · intro x hx
    rw [hahead] at hx
    obtain ⟨t, ht, hkind⟩ := List.mem_map.1 hx
    exact hnames t ht x hkind
  · rw [hahead]
    refine hmarked.adjacent.imp fun k l hkl hk hl => ?_
    rcases hkl.dedent hl with h | h <;> rw [hk] at h <;> cases h

end StagedScript
