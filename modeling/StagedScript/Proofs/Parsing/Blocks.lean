import StagedScript.Proofs.Parsing.Consumption

/-!
# What statements consume

A statement opens and closes blocks in pairs, and so does every sequence of statements.
-/

namespace StagedScript

open Token Parse

variable {τ : Token.Trait} {c : Cursor}

theorem consumes_checkTarget (e : Expr) (c : Cursor) : Consumes τ (checkTarget e) c := by
  unfold checkTarget
  split
  · exact .throw
  · exact .pure

theorem consumes_checkTargets (es : List Expr) (c : Cursor) : Consumes τ (checkTargets es) c := by
  unfold checkTargets
  split
  · exact .throw
  · exact .pure

/-! ## Simple statements -/

theorem consumes_assigned (n : Nat) {c : Cursor} (hc : τ.Word c.kind) :
    Consumes τ (assigned n) c := by
  induction n generalizing c with
  | zero => exact .here fun _ => .failAt
  | succ n ih =>
    unfold assigned
    refine .advance hc fun c' => (consumes_exprs c').then_ fun e c' => .sees (fun h => ?_) .pure
    exact (ih (τ.of_sees (τ.common (by simp [Kind.Common])) h)).then_ fun r c' => .pure

theorem common_of_augmented? {k : Kind} {op : BinaryOp} (h : augmented? k = some op) :
    k.Common := by
  cases k with
  | symbol s => simp [Kind.Common]
  | _ => cases h

theorem consumes_exprStmt (start : Nat) (c : Cursor) : Consumes τ (exprStmt start) c := by
  unfold exprStmt
  refine (consumes_exprs c).then_ fun first c' => .sees (fun h => ?_) (.kind ?_)
  · refine .rounds fun n => ?_
    refine (consumes_assigned n (τ.of_sees (τ.common (by simp [Kind.Common])) h)).then_
      fun r c' => ?_
    exact (consumes_checkTargets _ c').then_ fun _ c' => .spanFrom fun _ => .pure
  · split
    · next op hop =>
      have hright (c' : Cursor) : Consumes τ (do
          let right ← expr
          return Stmt.assign (← Parse.spanFrom start) [first]
            (.binary (first.span.cover right.span) op first right)) c' :=
        (consumes_expr c').then_ fun right c' => .spanFrom fun _ => .pure
      refine .advance (τ.common (common_of_augmented? hop)) fun c' => ?_
      exact .check (hright c')
    · exact .spanFrom fun _ => .pure

theorem consumes_simple (c : Cursor) : Consumes τ simple c := by
  unfold simple
  refine .get ?_
  dsimp only
  split
  · next hk =>
      exact .advance (τ.common (by simp [hk, Kind.Common])) fun c' => .spanFrom fun _ => .pure
  · next hk =>
      exact .advance (τ.common (by simp [hk, Kind.Common])) fun c' => .spanFrom fun _ => .pure
  · next hk =>
      exact .advance (τ.common (by simp [hk, Kind.Common])) fun c' => .spanFrom fun _ => .pure
  · next hk =>
    refine .advance (τ.common (by simp [hk, Kind.Common])) fun c' => .get ?_
    split
    · exact .spanFrom fun _ => .pure
    · exact (consumes_exprs c').then_ fun e c' => .spanFrom fun _ => .pure
  · exact .failAt
  · exact consumes_exprStmt _ c

theorem consumes_moreSimple (n : Nat) (c : Cursor) : Consumes τ (moreSimple n) c := by
  induction n generalizing c with
  | zero => exact .pure
  | succ n ih =>
    unfold moreSimple
    refine .accept (τ.common (by simp [Kind.Common])) fun b c' => ?_
    split
    · refine .sees (fun _ => .pure) ?_
      exact (consumes_simple c').then_ fun s c' => (ih c').then_ fun ss c' => .pure
    · exact .pure

theorem consumes_simpleLine (hnewline : τ.Word .newline) (c : Cursor) :
    Consumes τ simpleLine c := by
  unfold simpleLine
  refine (consumes_simple c).then_ fun s c' => .rounds fun n => ?_
  exact (consumes_moreSimple n c').then_ fun ss c' => .expect hnewline fun c' => .pure

/-! ## Headers -/

theorem consumes_moreTargets (n : Nat) (c : Cursor) : Consumes τ (moreTargets n) c := by
  induction n generalizing c with
  | zero => exact .pure
  | succ n ih =>
    unfold moreTargets
    refine .accept (τ.common (by simp [Kind.Common])) fun b c' => ?_
    split
    · refine .sees (fun _ => .pure) ?_
      exact (consumes_exprAbove _ c').then_ fun e c' => (ih c').then_ fun es c' => .pure
    · exact .pure

theorem consumes_loopTarget (c : Cursor) : Consumes τ loopTarget c := by
  unfold loopTarget
  refine .here fun start => (consumes_exprAbove _ c).then_ fun e c' => .sees (fun _ => ?_) .pure
  exact .rounds fun n => (consumes_moreTargets n c').then_ fun es c' => .spanFrom fun _ => .pure

theorem consumes_param (before : List (Param Expr)) (c : Cursor) : Consumes τ (param before) c := by
  unfold param
  refine .here fun span => .check (.accept (τ.common (by simp [Kind.Common])) fun b c' => ?_)
  split
  · exact .name fun x c' => .check .pure
  · refine .accept (τ.common (by simp [Kind.Common])) fun b c' => ?_
    split
    · exact .check (.name fun x c' => .check .pure)
    · refine .check (.name fun x c' => .accept (τ.common (by simp [Kind.Common])) fun b c' => ?_)
      split
      · exact (consumes_expr c').then_ fun e c' => .check .pure
      · exact .check (.check .pure)

theorem consumes_params (n : Nat) (before : List (Param Expr)) (c : Cursor) :
    Consumes τ (params n before) c := by
  induction n generalizing before c with
  | zero => exact .pure
  | succ n ih =>
    unfold params
    refine .sees (fun _ => .pure) ((consumes_param before c).then_ fun p c' => ?_)
    refine .accept (τ.common (by simp [Kind.Common])) fun b c' => ?_
    split
    · exact ih _ c'
    · exact .pure

theorem consumes_decorators (hnewline : τ.Word .newline) (n : Nat) (c : Cursor) :
    Consumes τ (decorators n) c := by
  induction n generalizing c with
  | zero => exact .pure
  | succ n ih =>
    unfold decorators
    refine .accept (τ.common (by simp [Kind.Common])) fun b c' => ?_
    split
    · refine (consumes_expr c').then_ fun e c' => .expect hnewline fun c' => ?_
      exact .skipNewlines hnewline fun c' => (ih c').then_ fun es c' => .pure
    · exact .pure

/-! ## Statements with blocks -/

/-- What stands between the start of a block and its end has blocks in pairs itself. -/
theorem indented_eq_ok {α : Type} {x : Parse α} (hx : ∀ c, Consumes .balanced x c) {c c' : Cursor}
    {a : α} (hc : c.kind = .indent) (h : (do advance; let a ← x; expect .dedent; return a) c =
      .ok a c') :
    ∃ used, c.ahead = .indent :: (used ++ .dedent :: c'.ahead) ∧ Balanced used := by
  obtain ⟨_, c₁, hadvance, h⟩ := EStateM.bind_eq_ok.1 h
  cases hadvance
  obtain ⟨_, c₂, hxa, h⟩ := EStateM.bind_eq_ok.1 h
  obtain ⟨_, _, hexpect, h⟩ := EStateM.bind_eq_ok.1 h
  cases h
  obtain ⟨hdedent, rfl⟩ := expect_eq_ok (k := .dedent) trivial hexpect
  obtain ⟨used, hused, hbalanced⟩ := (hx _).reads _ _ hxa
  refine ⟨used, ?_, hbalanced⟩
  rw [Cursor.ahead_advance_of_kind hc (by simp), hused,
    Cursor.ahead_advance_of_kind hdedent (by simp)]

section

variable {sub : Parse (List Stmt)} (hsub : ∀ c, Consumes .balanced sub c)
include hsub

theorem consumes_blockBody (n : Nat) (c : Cursor) : Consumes .balanced (blockBody sub n) c := by
  induction n generalizing c with
  | zero => exact .pure
  | succ n ih =>
    unfold blockBody
    refine .get ?_
    split
    · exact .pure
    · refine (hsub c).then_ fun ss c' => .skipNewlines Trait.balanced_newline fun c' => ?_
      exact (ih c').then_ fun _ _ => .pure

theorem consumes_block (c : Cursor) : Consumes .balanced (block sub) c := by
  unfold block
  refine .expect (by simp [Trait.balanced, Kind.Flat]) fun c' => ?_
  refine .accept (by simp [Trait.balanced, Kind.Flat]) fun b c' => ?_
  split
  · refine ⟨fun body c'' h => ?_, False.elim⟩
    unfold Parse.accept at h
    rw [bind_assoc] at h
    obtain ⟨b, c₁, hsees, h⟩ := EStateM.bind_eq_ok.1 h
    cases hsees
    cases hs : c'.sees .indent with
    | false =>
      rw [hs] at h
      cases h
    | true =>
      rw [hs] at h
      have hc : c'.kind = .indent := Cursor.kind_of_sees trivial hs
      have hbody (c : Cursor) : Consumes .balanced (do blockBody sub (← rounds)) c :=
        .rounds fun n => consumes_blockBody hsub n c
      obtain ⟨used, hused, hbalanced⟩ := indented_eq_ok hbody hc h
      have hblock : Balanced (.indent :: (used ++ [.dedent])) := .block hbalanced
      exact ⟨_, by rw [hused]; simp, hblock⟩
  · exact consumes_simpleLine Trait.balanced_newline c'

/-- The first token is the word that a choice starts with. -/
theorem consumes_choice (n : Nat) {c : Cursor} (hc : c.kind.Flat) :
    Consumes .balanced (choice sub n) c := by
  induction n generalizing c with
  | zero => exact .here fun _ => .failAt
  | succ n ih =>
    unfold choice
    refine .here fun start => .advance hc fun c' => (consumes_expr c').then_ fun test c' => ?_
    refine (consumes_block hsub c').then_ fun thenBody c' => .sees (fun h => ?_) ?_
    · have hflat := Trait.balanced.of_sees (by simp [Trait.balanced, Kind.Flat]) h
      exact (ih hflat).then_ fun s c' => Consumes.pure.then_ fun _ c' => .blockSpanFrom
        fun _ => .pure
    · refine .accept (by simp [Trait.balanced, Kind.Flat]) fun b c' => ?_
      split
      · exact (consumes_block hsub c').then_ fun elseBody c' => .blockSpanFrom fun _ => .pure
      · exact Consumes.pure.then_ fun _ c' => .blockSpanFrom fun _ => .pure

theorem consumes_whileLoop (c : Cursor) : Consumes .balanced (whileLoop sub) c := by
  unfold whileLoop
  refine .here fun start => .expect (by simp [Trait.balanced, Kind.Flat]) fun c' => ?_
  refine (consumes_expr c').then_ fun test c' => (consumes_block hsub c').then_ fun body c' => ?_
  exact .blockSpanFrom fun _ => .pure

theorem consumes_forLoop (c : Cursor) : Consumes .balanced (forLoop sub) c := by
  unfold forLoop
  refine .here fun start => .expect (by simp [Trait.balanced, Kind.Flat]) fun c' => ?_
  refine (consumes_loopTarget c').then_ fun target c' => ?_
  refine (consumes_checkTarget target c').then_ fun _ c' => ?_
  refine .expect (by simp [Trait.balanced, Kind.Flat]) fun c' => ?_
  refine (consumes_exprs c').then_ fun iter c' => (consumes_block hsub c').then_ fun body c' => ?_
  refine .accept (by simp [Trait.balanced, Kind.Flat]) fun b c' => ?_
  split
  · exact (consumes_block hsub c').then_ fun elseBody c' => .blockSpanFrom fun _ => .pure
  · exact Consumes.pure.then_ fun _ c' => .blockSpanFrom fun _ => .pure

theorem consumes_definition (c : Cursor) : Consumes .balanced (definition sub) c := by
  unfold definition
  refine .here fun start => .rounds fun n => ?_
  refine (consumes_decorators Trait.balanced_newline n c).then_ fun ds c' => ?_
  have hrest {c : Cursor} (hc : c.kind.Flat) : Consumes .balanced (do
      advance
      let x ← Parse.name
      Parse.expect (.symbol .openParen)
      let ps ← params (← Parse.rounds) []
      Parse.expect (.symbol .closeParen)
      let body ← block sub
      return Stmt.define (← Parse.blockSpanFrom start.start) x ds ps body) c := by
    refine .advance hc fun c' => .name fun x c' => ?_
    refine .expect (by simp [Trait.balanced, Kind.Flat]) fun c' => ?_
    refine .rounds fun n => (consumes_params n [] c').then_ fun ps c' => ?_
    refine .expect (by simp [Trait.balanced, Kind.Flat]) fun c' => ?_
    refine (consumes_block hsub c').then_ fun body c' => ?_
    exact .blockSpanFrom fun _ => .pure
  refine .sees (fun h => ?_) ?_
  · exact hrest (Trait.balanced.of_sees (by simp [Trait.balanced, Kind.Flat]) h)
  · exact Consumes.missing.bind fun _ _ h => by cases h

theorem consumes_classDefinition (c : Cursor) : Consumes .balanced (classDefinition sub) c := by
  unfold classDefinition
  refine .here fun start => .expect (by simp [Trait.balanced, Kind.Flat]) fun c' => .name
    fun x c' => ?_
  refine .accept (by simp [Trait.balanced, Kind.Flat]) fun b c' => ?_
  dsimp only
  have hrest (base : Option Expr) (c : Cursor) : Consumes .balanced (do
      let body ← block sub
      return Stmt.class_ (← Parse.blockSpanFrom start.start) x base body) c :=
    (consumes_block hsub c).then_ fun body c' => .blockSpanFrom fun _ => .pure
  split
  · refine .sees (fun _ => ?_) ?_
    · exact .expect (by simp [Trait.balanced, Kind.Flat]) fun c' => hrest none c'
    · refine (Consumes.map (consumes_expr c')).then_ fun base c' => ?_
      exact .expect (by simp [Trait.balanced, Kind.Flat]) fun c' => hrest base c'
  · exact hrest none c'

end

theorem consumes_stmtWithin (depth : Nat) (c : Cursor) :
    Consumes .balanced (stmtWithin depth) c := by
  induction depth generalizing c with
  | zero => exact .here fun _ => .failAt
  | succ depth ih =>
    unfold stmtWithin
    refine .get ?_
    split
    · next hk =>
      refine .rounds fun n => (consumes_choice ih n ?_).then_ fun s c' => .pure
      simp [hk, Kind.Flat]
    · exact (consumes_whileLoop ih c).then_ fun s c' => .pure
    · exact (consumes_forLoop ih c).then_ fun s c' => .pure
    · exact (consumes_definition ih c).then_ fun s c' => .pure
    · exact (consumes_definition ih c).then_ fun s c' => .pure
    · exact (consumes_classDefinition ih c).then_ fun s c' => .pure
    · exact .failAt
    · exact consumes_simpleLine Trait.balanced_newline c

end StagedScript
