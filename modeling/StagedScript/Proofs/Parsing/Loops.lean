import StagedScript.Proofs.Parsing.Definitions
import StagedScript.Proofs.Parsing.Nested
import StagedScript.Proofs.Within

/-!
# Where loops are read

What is read has a `while` loop within it just if the word that starts one is among the tokens that
are read.
-/

namespace StagedScript

open Token Parse
open Stmt (Loopless)

/-- What the parser reads from the cursor, if it can read something, has `W` just if `p` holds and
no `while` loop starts among the tokens that are read. -/
def Reveals {α : Type} (p : Prop) (W : α → Prop) (x : Parse α) (c : Cursor) : Prop :=
  ∀ a c', x c = .ok a c' →
    ∃ used, c.ahead = used ++ c'.ahead ∧ (W a ↔ p ∧ Trait.loopless.Holds used)

namespace Reveals

variable {α β : Type} {p : Prop} {V : α → Prop} {W : β → Prop} {c : Cursor}

theorem pure {b : β} (h : W b ↔ p) : Reveals p W (Pure.pure b) c := by
  rintro _ _ ⟨⟩
  exact ⟨[], rfl, h.trans (and_iff_left Trait.loopless.nil).symm⟩

theorem failAt {span : Span} {cause : SyntaxError.Cause} :
    Reveals p W (Parse.failAt span cause : Parse β) c := by
  rintro _ _ ⟨⟩

/-- What is known of the first step is what the second one starts from. -/
theorem bind {x : Parse α} {f : α → Parse β} (hx : Reveals p V x c)
    (hf : ∀ a c', x c = .ok a c' → Reveals (V a) W (f a) c') : Reveals p W (x >>= f) c := by
  intro b c'' h
  obtain ⟨a, c', hxa, hfb⟩ := EStateM.bind_eq_ok.1 h
  obtain ⟨used, hused, hV⟩ := hx a c' hxa
  obtain ⟨more, hmore, hW⟩ := hf a c' hxa b c'' hfb
  refine ⟨used ++ more, by rw [hused, hmore, List.append_assoc], ?_⟩
  rw [hW, hV, and_assoc]
  simp [Trait.loopless]

/-- A step that reads no word of a loop reveals nothing. -/
theorem of_consumes {x : Parse α} (hx : Consumes .loopless x c) : Reveals p (fun _ => p) x c := by
  intro a c' h
  obtain ⟨used, hused, hloopless⟩ := hx.reads a c' h
  exact ⟨used, hused, (and_iff_left hloopless).symm⟩

theorem then_ {x : Parse α} {f : α → Parse β} (hx : Consumes .loopless x c)
    (hf : ∀ a c', Reveals p W (f a) c') : Reveals p W (x >>= f) c :=
  (of_consumes hx).bind fun a c' _ => hf a c'

/-- What is read in one step is put together from it. -/
theorem map {x : Parse α} {f : α → β} (hx : Reveals p V x c) (h : ∀ a, W (f a) ↔ V a) :
    Reveals p W (x >>= fun a => Pure.pure (f a)) c := hx.bind fun a _ _ => pure (h a)

theorem get {f : Cursor → Parse β} (hf : Reveals p W (f c) c) :
    Reveals p W (MonadState.get >>= f) c := hf

theorem here {f : Span → Parse β} (hf : ∀ span, Reveals p W (f span) c) :
    Reveals p W (Parse.here >>= f) c := hf _

theorem blockSpanFrom {f : Span → Parse β} {start : Nat} (hf : ∀ span, Reveals p W (f span) c) :
    Reveals p W (Parse.blockSpanFrom start >>= f) c := hf _

theorem rounds {f : Nat → Parse β} (hf : ∀ n, Reveals p W (f n) c) :
    Reveals p W (Parse.rounds >>= f) c := hf _

theorem sees {f : Bool → Parse β} {k : Kind} (hyes : c.sees k = true → Reveals p W (f true) c)
    (hno : Reveals p W (f false) c) : Reveals p W (Parse.sees k >>= f) c := by
  change Reveals p W (f (c.sees k)) c
  cases h : c.sees k with
  | true => exact hyes h
  | false => exact hno

theorem expect {f : Unit → Parse β} {k : Kind} (hk : k ≠ .keyword .while_)
    (hf : ∀ c', Reveals p W (f ()) c') : Reveals p W (Parse.expect k >>= f) c :=
  then_ (.expected hk) fun _ c' => hf c'

theorem accept {f : Bool → Parse β} {k : Kind} (hk : k ≠ .keyword .while_)
    (hf : ∀ b c', Reveals p W (f b) c') : Reveals p W (Parse.accept k >>= f) c :=
  then_ (.accepted hk) hf

theorem missing {what : SyntaxError.Expected} : Reveals p W (Parse.missing what : Parse β) c :=
  get failAt

/-- The word that starts a loop is read, so whatever is read has one. -/
theorem expect_while {f : Unit → Parse β} (hf : ∀ c', Reveals False W (f ()) c') :
    Reveals p W (Parse.expect (.keyword .while_) >>= f) c := by
  refine bind (V := fun _ => False) (fun a c' h => ?_) fun _ c' _ => hf c'
  obtain ⟨hkind, rfl⟩ := expect_eq_ok (k := .keyword .while_) trivial h
  exact ⟨[.keyword .while_], Cursor.ahead_advance_of_kind hkind (by simp), by simp [Trait.loopless]⟩

end Reveals

variable {p : Prop} {c : Cursor}

/-- Simple statements are no loops. -/
theorem Stmt.Loopless.of_isSimple {ss : List Stmt} (h : ∀ s ∈ ss, s.isSimple = true) :
    Loopless ss := by
  induction ss with
  | nil => exact .nil
  | cons s ss ih =>
    obtain ⟨hs, hss⟩ := List.forall_mem_cons.1 h
    refine Loopless.cons_iff.2 ⟨fun t ht => ?_, ih hss⟩
    rw [withinAll, withinAll, List.append_nil, within_of_isSimple hs] at ht
    rw [List.mem_singleton.1 ht]
    cases s with
    | loop => cases hs
    | _ => rfl

theorem reveals_simpleLine : Reveals p (fun ss => p ∧ Loopless ss) simpleLine c := by
  intro ss c' h
  have hconsumes : Consumes .loopless simpleLine c := consumes_simpleLine Trait.loopless_newline c
  obtain ⟨used, hused, hloopless⟩ := hconsumes.reads ss c' h
  have hss : Loopless ss := .of_isSimple (Ensures.isSimple_simpleLine ss c' h)
  exact ⟨used, hused, (and_iff_left hss).trans (and_iff_left hloopless).symm⟩

section

variable {sub : Parse (List Stmt)} (hsub : ∀ p c, Reveals p (fun ss => p ∧ Loopless ss) sub c)
include hsub

theorem reveals_blockBody (n : Nat) (p : Prop) (c : Cursor) :
    Reveals p (fun ss => p ∧ Loopless ss) (blockBody sub n) c := by
  induction n generalizing p c with
  | zero => exact .pure (by simp [Loopless.nil])
  | succ n ih =>
    unfold blockBody
    refine .get ?_
    split
    · exact .pure (by simp [Loopless.nil])
    · refine (hsub p c).bind fun ss c' _ => .then_ (.skippedNewlines Trait.loopless_newline)
        fun _ c' => ?_
      refine (ih _ c').map fun ts => ?_
      rw [Loopless.append_iff, and_assoc]

theorem reveals_block (p : Prop) (c : Cursor) :
    Reveals p (fun ss => p ∧ Loopless ss) (block sub) c := by
  unfold block
  refine .expect (by simp) fun c' => .accept (by simp) fun b c' => ?_
  split
  · refine .accept (by simp) fun b c' => ?_
    split
    · refine .rounds fun n => (reveals_blockBody hsub n p c').bind fun ss c' _ => ?_
      exact .expect (by simp) fun c' => .pure Iff.rfl
    · exact .missing
  · exact reveals_simpleLine

/-- The first token is the word that a choice starts with. -/
theorem reveals_choice (n : Nat) (p : Prop) {c : Cursor} (hc : c.kind ≠ .keyword .while_) :
    Reveals p (fun s => p ∧ Loopless [s]) (choice sub n) c := by
  induction n generalizing p c with
  | zero => exact .here fun _ => .failAt
  | succ n ih =>
    unfold choice
    refine .here fun start => .then_ (.advanced hc) fun _ c' => .then_ (consumes_expr c')
      fun test c' => ?_
    refine (reveals_block hsub p c').bind fun a c' _ => ?_
    have hlast (b : List Stmt) (c : Cursor) : Reveals ((p ∧ Loopless a) ∧ Loopless b)
        (fun s => p ∧ Loopless [s]) (do return .cond (← blockSpanFrom start.start) test a b) c :=
      .blockSpanFrom fun _ => .pure (by rw [Loopless.cond_iff, and_assoc])
    refine .sees (fun h => ?_) (.accept (by simp) fun _ c' => ?_)
    · have hkind := Trait.loopless.of_sees (by simp [Trait.loopless]) h
      exact (ih _ hkind).bind fun s c' _ => hlast [s] c'
    · split
      · exact (reveals_block hsub _ c').bind fun b c' _ => hlast b c'
      · exact Reveals.bind (.pure (and_iff_left Loopless.nil)) fun b c' _ => hlast b c'

/-- A loop with a test is read with its word. -/
theorem reveals_whileLoop (p : Prop) (c : Cursor) :
    Reveals p (fun s => p ∧ Loopless [s]) (whileLoop sub) c := by
  unfold whileLoop
  refine .here fun start => .expect_while fun c' => .then_ (consumes_expr c') fun test c' => ?_
  refine (reveals_block hsub False c').bind fun b c' _ => .blockSpanFrom fun _ => .pure ?_
  simp

theorem reveals_forLoop (p : Prop) (c : Cursor) :
    Reveals p (fun s => p ∧ Loopless [s]) (forLoop sub) c := by
  unfold forLoop
  refine .here fun start => .expect (by simp) fun c' => .then_ (consumes_loopTarget c')
    fun target c' => ?_
  refine .then_ (consumes_checkTarget target c') fun _ c' => .expect (by simp) fun c' => ?_
  refine .then_ (consumes_exprs c') fun iter c' => (reveals_block hsub p c').bind fun b c' _ => ?_
  have hlast (e : List Stmt) (c : Cursor) : Reveals ((p ∧ Loopless b) ∧ Loopless e)
      (fun s => p ∧ Loopless [s]) (do return .each (← blockSpanFrom start.start) target iter b e)
      c :=
    .blockSpanFrom fun _ => .pure (by rw [Loopless.each_iff, and_assoc])
  refine .accept (by simp) fun _ c' => ?_
  split
  · exact (reveals_block hsub _ c').bind fun e c' _ => hlast e c'
  · exact Reveals.bind (.pure (and_iff_left Loopless.nil)) fun e c' _ => hlast e c'

theorem reveals_definition (p : Prop) (c : Cursor) :
    Reveals p (fun s => p ∧ Loopless [s]) (definition sub) c := by
  unfold definition
  refine .here fun start => .rounds fun n => ?_
  refine .then_ (consumes_decorators Trait.loopless_newline n c) fun ds c' => ?_
  have hrest {c : Cursor} (hc : c.kind ≠ .keyword .while_) :
      Reveals p (fun s => p ∧ Loopless [s]) (do
      advance
      let x ← Parse.name
      Parse.expect (.symbol .openParen)
      let ps ← params (← Parse.rounds) []
      Parse.expect (.symbol .closeParen)
      let body ← block sub
      return Stmt.define (← Parse.blockSpanFrom start.start) x ds ps body) c := by
    refine .then_ (.advanced hc) fun _ c' => .then_ .named fun x c' => .expect (by simp)
      fun c' => ?_
    refine .rounds fun n => .then_ (consumes_params n [] c') fun ps c' => .expect (by simp)
      fun c' => ?_
    refine (reveals_block hsub p c').bind fun b c' _ => .blockSpanFrom fun _ => .pure ?_
    rw [Loopless.define_iff]
  refine .sees (fun h => hrest (Trait.loopless.of_sees (by simp [Trait.loopless]) h)) ?_
  exact Reveals.bind (V := fun _ => p) .missing fun _ _ h => by cases h

theorem reveals_classDefinition (p : Prop) (c : Cursor) :
    Reveals p (fun s => p ∧ Loopless [s]) (classDefinition sub) c := by
  unfold classDefinition
  refine .here fun start => .expect (by simp) fun c' => .then_ .named fun x c' => ?_
  refine .accept (by simp) fun b c' => ?_
  dsimp only
  have hrest (base : Option Expr) (c : Cursor) : Reveals p (fun s => p ∧ Loopless [s]) (do
      let body ← block sub
      return Stmt.class_ (← Parse.blockSpanFrom start.start) x base body) c := by
    refine (reveals_block hsub p c).bind fun b c' _ => .blockSpanFrom fun _ => .pure ?_
    rw [Loopless.class_iff]
  split
  · refine .sees (fun _ => ?_) ?_
    · exact .expect (by simp) fun c' => hrest none c'
    · exact .then_ (Consumes.map (consumes_expr c')) fun base c' => .expect (by simp) fun c' =>
        hrest base c'
  · exact hrest none c'

end

theorem reveals_stmtWithin (depth : Nat) (p : Prop) (c : Cursor) :
    Reveals p (fun ss => p ∧ Loopless ss) (stmtWithin depth) c := by
  induction depth generalizing p c with
  | zero => exact .here fun _ => .failAt
  | succ depth ih =>
    unfold stmtWithin
    refine .get ?_
    split
    · next hk => exact .rounds fun n => (reveals_choice ih n p (by simp [hk])).map fun _ => Iff.rfl
    · exact (reveals_whileLoop ih p c).map fun _ => Iff.rfl
    · exact (reveals_forLoop ih p c).map fun _ => Iff.rfl
    · exact (reveals_definition ih p c).map fun _ => Iff.rfl
    · exact (reveals_definition ih p c).map fun _ => Iff.rfl
    · exact (reveals_classDefinition ih p c).map fun _ => Iff.rfl
    · exact .failAt
    · exact reveals_simpleLine

/-- Statements that are read from tokens without the word of loops have no loop. -/
theorem Parsed.loopless_of_ofCursor {n room : Nat} {c : Cursor} {body : List Stmt}
    (hc : .keyword .while_ ∉ c.ahead) (h : ofCursor n room c = ⟨body, []⟩) : Loopless body := by
  induction n generalizing c body with
  | zero =>
    cases h
    exact .nil
  | succ n ih =>
    unfold ofCursor at h
    split at h
    · cases h
      exact .nil
    · split at h
      · next ss c' hss =>
        have hstmt : Reveals True (fun ss => True ∧ Loopless ss) stmt c :=
          .rounds fun n => reveals_stmtWithin n _ c
        obtain ⟨used, hused, hloopless⟩ := hstmt ss c' hss
        have hskip : Consumes .loopless (modify Cursor.skipNewlines) c' :=
          .skippedNewlines Trait.loopless_newline
        obtain ⟨more, hmore, -⟩ := hskip.reads () _ rfl
        rw [hused, hmore] at hc
        obtain ⟨hbody, herrors⟩ := Parsed.mk.injEq .. ▸ h
        rw [← hbody, Loopless.append_iff]
        refine ⟨(hloopless.2 ⟨trivial, ?_⟩).2, ih (fun hmem => hc ?_)
          (congrArg₂ Parsed.mk rfl herrors)⟩
        · exact fun hmem => hc (List.mem_append_left _ hmem)
        · exact List.mem_append_right _ (List.mem_append_right _ hmem)
      · split at h
        · cases h
        · cases h

/-- The tokens ahead at the start are those of the text, and its end. -/
theorem Cursor.mem_of_mem_ofTokens {tokens : List Token} {k : Kind} (hk : k ≠ .eof)
    (h : k ∈ (ofTokens tokens).ahead) : k ∈ tokens.map Token.kind := by
  have hrest : (ofTokens tokens).rest = tokens ∨
      ∃ span, (ofTokens tokens).rest = tokens ++ [⟨.eof, span⟩] := by
    unfold ofTokens
    dsimp only
    split
    · exact .inl rfl
    · exact .inr ⟨_, rfl⟩
    · next hnone =>
      rw [List.getLast?_eq_none_iff.1 hnone]
      exact .inr ⟨_, rfl⟩
  unfold ahead at h
  rcases hrest with hrest | ⟨span, hrest⟩
  · rwa [hrest] at h
  · rw [hrest, List.map_append] at h
    simpa [hk] using h

/-- A script has no loop if no word of its text starts one. -/
theorem Script.loopless_of_tokens {text label : String} {script : Script}
    (h : parse text label = .ok script)
    (htokens : .keyword .while_ ∉ (Lexed.ofText text.toList).tokens.map Token.kind) :
    Loopless script.body := by
  obtain ⟨-, hparsed, -⟩ := (parse_eq_ok script).1 h
  refine Parsed.loopless_of_ofCursor (fun hmem => htokens ?_) hparsed
  have hskip : Consumes .loopless (modify Cursor.skipNewlines)
      (Cursor.ofTokens (Lexed.ofText text.toList).tokens) := .skippedNewlines Trait.loopless_newline
  obtain ⟨used, hused, -⟩ := hskip.reads () _ rfl
  exact Cursor.mem_of_mem_ofTokens (by simp) (hused ▸ List.mem_append_right used hmem)

/-- No word of a definition without loops starts one. -/
theorem Parse.not_mem_of_definition {depth : Nat} {c c' : Cursor} {span : Span} {x : String}
    {ds : List Expr} {ps : List (Param Expr)} {b : List Stmt}
    (h : definition (stmtWithin depth) c = .ok (.define span x ds ps b) c') (hb : Loopless b) :
    ∃ used, c.ahead = used ++ c'.ahead ∧ .keyword .while_ ∉ used := by
  obtain ⟨used, hused, hiff⟩ := reveals_definition (reveals_stmtWithin depth) True c _ c' h
  exact ⟨used, hused, (hiff.1 ⟨trivial, Loopless.define_iff.2 hb⟩).2⟩

end StagedScript
