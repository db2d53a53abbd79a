import StagedScript.Proofs.Maker.Header
import StagedScript.Proofs.Parsing.Compound

/-!
# The tokens of a definition

The definition of a function without decorators takes the line that it starts, and all of the block
that hangs off the line if there is one.
-/

namespace StagedScript

open Parse
open Token (Kind Balanced Counts)

variable {c c' : Cursor} {ks rest : List Kind} {n m : Nat}

/-! ## What is read from a line -/

/-- What is read from a line is read from the front of it. -/
theorem Mirrors.moved {α : Type} {x : Parse α} {R : α → α → Prop} {a : α}
    (hx : Mirrors .nowhere n ks x x R m) (hks : ∀ k ∈ ks, k.Inner)
    (hc : c.ahead = ks ++ .newline :: rest) (h : x c = .ok a c') : ∃ used left, ks = used ++ left ∧
      c.Moved used c' ∧ c'.ahead = left ++ .newline :: rest := by
  obtain ⟨_, _, used, left, -, -, rfl, -, hline, hc', -⟩ := hx (.nowhere hks hc hc) h
  exact ⟨used, left, rfl, ⟨by rw [hc, hline.left, List.append_assoc], hc'⟩, hline.left⟩

theorem Parse.decorators_of_sees (hc : c.sees (.symbol .atSign) = false) (n : Nat) :
    decorators (n + 1) c = .ok [] c := by
  have haccept : accept (.symbol .atSign) c = .ok false c := by
    rw [accept_eq, hc, if_neg Bool.false_ne_true]
  unfold decorators
  rw [EStateM.bind_ok haccept]
  rfl

/-- A definition without decorators is its header, with the parameters between brackets, and its
block. -/
theorem Parse.definition_eq_params {sub : Parse (List Stmt)} {s : Stmt}
    (hc : c.ahead = .keyword .def_ :: ks) (h : definition sub c = .ok s c') :
    ∃ x ps b c₁ c₂, c.Moved [.keyword .def_, .ident x, .symbol .openParen] c₁ ∧
      params (c₁.bound + 1) [] c₁ = .ok ps c₂ ∧ c₂.kind = .symbol .closeParen ∧
      block sub c₂.advance = .ok b c' ∧
      s = .define ⟨c.token.span.start, c'.lastWordStop⟩ x [] ps b := by
  unfold definition at h
  obtain ⟨_, _, hhere, h⟩ := EStateM.bind_eq_ok.1 h
  cases hhere
  obtain ⟨_, _, hrounds, h⟩ := EStateM.bind_eq_ok.1 h
  cases hrounds
  rw [EStateM.bind_ok (decorators_of_sees (by rw [Cursor.sees_of_ahead hc]; rfl) _)] at h
  obtain ⟨_, _, hsees, h⟩ := EStateM.bind_eq_ok.1 h
  cases hsees
  rw [Cursor.sees_of_ahead hc] at h
  obtain ⟨_, _, hadvance, h⟩ := EStateM.bind_eq_ok.1 h
  cases hadvance
  obtain ⟨x, c₁, hname, h⟩ := EStateM.bind_eq_ok.1 h
  obtain ⟨hkind, rfl⟩ := name_eq_ok hname
  obtain ⟨_, c₂, hopen, h⟩ := EStateM.bind_eq_ok.1 h
  obtain ⟨hkind', rfl⟩ := expect_eq_ok (k := .symbol .openParen) trivial hopen
  obtain ⟨_, _, hrounds, h⟩ := EStateM.bind_eq_ok.1 h
  cases hrounds
  obtain ⟨ps, c₃, hparams, h⟩ := EStateM.bind_eq_ok.1 h
  obtain ⟨_, c₄, hclose, h⟩ := EStateM.bind_eq_ok.1 h
  obtain ⟨hkind'', rfl⟩ := expect_eq_ok (k := .symbol .closeParen) trivial hclose
  obtain ⟨b, c₅, hblock, h⟩ := EStateM.bind_eq_ok.1 h
  cases h
  exact ⟨x, ps, b, _, c₃, (Cursor.Moved.advance hc (by simp)).trans
    ((Cursor.Moved.advance (Cursor.ahead_advance_of_kind hkind (by simp)) (by simp)).trans
      (Cursor.Moved.advance (Cursor.ahead_advance_of_kind hkind' (by simp)) (by simp))),
    hparams, hkind'', hblock, rfl⟩

/-- The parameters are read from the line of their brackets. -/
theorem Parse.moved_of_params {ps : List (Param Expr)} (hks : ∀ k ∈ ks, k.Inner)
    (hc : c.ahead = ks ++ .newline :: rest) (h : params (c.bound + 1) [] c = .ok ps c')
    (hclose : c'.kind = .symbol .closeParen) :
    ∃ used left, ks = used ++ .symbol .closeParen :: left ∧
      c.Moved used c' ∧ c'.ahead = .symbol .closeParen :: (left ++ .newline :: rest) := by
  have hlength := c.length_ahead_le
  rw [hc, List.length_append] at hlength
  obtain ⟨used, left, rfl, hmoved, hc'⟩ :=
    (mirrors_params (n := 1) (by omega) (by omega) .nil).moved hks hc h
  cases left with
  | nil =>
    rw [Cursor.kind_of_ahead hc'] at hclose
    cases hclose
  | cons k left =>
    obtain rfl : k = .symbol .closeParen := (Cursor.kind_of_ahead hc').symm.trans hclose
    exact ⟨used, left, rfl, hmoved, hc'⟩

/-- The header of a definition without decorators is on the line that it starts. -/
theorem Parse.definition_eq_block {sub : Parse (List Stmt)} {s : Stmt} (hks : ∀ k ∈ ks, k.Inner)
    (hc : c.ahead = .keyword .def_ :: (ks ++ .newline :: rest)) (h : definition sub c = .ok s c') :
    ∃ x used left ps b c₁, ks = .ident x :: (used ++ left) ∧
      c.Moved (.keyword .def_ :: .ident x :: used) c₁ ∧ c₁.ahead = left ++ .newline :: rest ∧
      block sub c₁ = .ok b c' ∧ s = .define ⟨c.token.span.start, c'.lastWordStop⟩ x [] ps b := by
  obtain ⟨x, ps, b, c₁, c₂, hmoved, hparams, hclose, hblock, rfl⟩ := definition_eq_params hc h
  have hahead := hmoved.ahead
  rw [hc] at hahead
  obtain ⟨ks, rfl, hc₁⟩ : ∃ left, ks = .ident x :: .symbol .openParen :: left ∧
      c₁.ahead = left ++ .newline :: rest := by
    rcases ks with _ | ⟨k, _ | ⟨l, ks⟩⟩
    · simp at hahead
    · simp at hahead
    · simp only [List.cons_append, List.cons.injEq, true_and, List.nil_append] at hahead
      obtain ⟨rfl, rfl, hahead⟩ := hahead
      exact ⟨ks, rfl, hahead.symm⟩
  have hinner (k : Kind) (hk : k ∈ ks) : k.Inner := hks k (by simp [hk])
  obtain ⟨used, left, rfl, hmoved', hc₂⟩ := moved_of_params hinner hc₁ hparams hclose
  refine ⟨x, .symbol .openParen :: (used ++ [.symbol .closeParen]), left, ps, b, c₂.advance,
    by simp, ?_, Cursor.ahead_advance hc₂ (by simp), hblock, rfl⟩
  have hall := hmoved.trans (hmoved'.trans (Cursor.Moved.advance hc₂ (by simp)))
  simpa using hall

/-- A block is the rest of the line, or it hangs off the line. -/
theorem Parse.block_eq_rest {sub : Parse (List Stmt)} (hsub : ∀ c, Consumes .balanced sub c)
    {b : List Stmt} (hks : ∀ k ∈ ks, k.Inner) (hc : c.ahead = ks ++ .newline :: rest)
    (h : block sub c = .ok b c') :
    c'.ahead = rest ∨ ∃ used, rest = .indent :: (used ++ .dedent :: c'.ahead) ∧ Balanced used := by
  unfold block at h
  obtain ⟨_, c₁, hcolon, h⟩ := EStateM.bind_eq_ok.1 h
  obtain ⟨hkind, rfl⟩ := expect_eq_ok (k := .symbol .colon) trivial hcolon
  obtain ⟨left, rfl⟩ : ∃ left, ks = .symbol .colon :: left := by
    cases ks with
    | nil =>
      rw [Cursor.kind_of_ahead hc] at hkind
      cases hkind
    | cons k left =>
      rw [Cursor.kind_of_ahead hc] at hkind
      exact ⟨left, by rw [hkind]⟩
  have hc₁ := Cursor.ahead_advance hc (by simp)
  have hleft := (List.forall_mem_cons.1 hks).2
  cases left with
  | nil =>
    obtain ⟨_, c₂, rfl, hc₂, h⟩ := (Yields.accepted hc₁ rfl (by simp)).of_bind h
    rw [if_pos rfl] at h
    unfold Parse.accept at h
    rw [bind_assoc] at h
    obtain ⟨_, _, hsees, h⟩ := EStateM.bind_eq_ok.1 h
    cases hsees
    cases hs : c₂.sees .indent with
    | false =>
      rw [hs] at h
      cases h
    | true =>
      rw [hs] at h
      have hbody (c : Cursor) : Consumes .balanced (do blockBody sub (← rounds)) c :=
        .rounds fun n => consumes_blockBody hsub n c
      obtain ⟨used, hused, hbalanced⟩ := indented_eq_ok hbody (Cursor.kind_of_sees trivial hs) h
      exact .inr ⟨used, hc₂.symm.trans hused, hbalanced⟩
  | cons k left =>
    have haccept : accept .newline c.advance = .ok false c.advance := by
      have hk : k.alike .newline = false := by
        cases hk : k.alike .newline with
        | false => rfl
        | true =>
          exact absurd ((Token.Kind.alike_iff (b := .newline) trivial).1 hk)
            (hleft k List.mem_cons_self).2.1
      rw [accept_eq, Cursor.sees_of_ahead hc₁, hk, if_neg Bool.false_ne_true]
    rw [EStateM.bind_ok haccept, if_neg Bool.false_ne_true] at h
    have hline : OnLine .nowhere (k :: left) rest rest c.advance c.advance := .nowhere hleft hc₁ hc₁
    obtain ⟨-, -, -, -, -, hc', -⟩ := simpleLine_alike hline h
    rw [hc']
    exact .inl hline.ahead_after

/-- What a definition without decorators takes: the line that it starts, and the block that hangs
off the line if there is one. -/
theorem Parse.definition_eq_ok_lines {depth : Nat} {s : Stmt} (hlined : Token.Lined c.ahead)
    (hks : ∀ k ∈ ks, k.Inner) (hc : c.ahead = .keyword .def_ :: (ks ++ .newline :: rest))
    (h : definition (stmtWithin depth) c = .ok s c') :
    ∃ x left ps b below, ks = .ident x :: left ∧
      s = .define ⟨c.token.span.start, c'.lastWordStop⟩ x [] ps b ∧
      c.Moved (.keyword .def_ :: (ks ++ .newline :: below)) c' ∧
      Counts 0 (.keyword .def_ :: (ks ++ .newline :: below)) 0 ∧
      (below = [] ∨ ∃ used, below = .indent :: (used ++ [.dedent]) ∧ Balanced used) := by
  obtain ⟨x, used, left, ps, b, c₁, rfl, hmoved₁, hc₁, hblock, rfl⟩ := definition_eq_block hks hc h
  obtain ⟨_, _, all, -, -, -, hmoved, hcounts, -⟩ := tandem_definition (P := Stmt.ReadFrom c)
    (fun _ _ htwin hstart hlength => tandem_stmtWithin htwin hstart (Nat.lt_add_right _ hlength))
    (fun c₁ c₂ s hstart hs => ⟨depth, c₁, c₂, hstart, hs⟩) (.self hlined)
    (by rw [Cursor.kind_of_ahead hc]; simp [Kind.Inner, Kind.Flat]) (.refl c)
    (Nat.le_refl _) h (.inr rfl)
  have hleft (k : Kind) (hk : k ∈ left) : k.Inner :=
    hks k (List.mem_cons_of_mem _ (List.mem_append_right _ hk))
  -- What is left ahead tells how much has been taken.
  have hall (below : List Kind) (hrest : rest = below ++ c'.ahead) :
      all = .keyword .def_ :: (.ident x :: (used ++ left) ++ .newline :: below) := by
    have hahead := hmoved.ahead
    rw [hc, hrest] at hahead
    have hfront : .keyword .def_ :: (.ident x :: (used ++ left) ++ .newline :: below) ++ c'.ahead =
        all ++ c'.ahead := by
      rw [← hahead]
      simp
    exact (List.append_cancel_right hfront).symm
  rcases block_eq_rest (consumes_stmtWithin depth) hleft hc₁ hblock
    with hrest | ⟨below, hrest, hbelow⟩
  · obtain rfl := hall [] hrest.symm
    exact ⟨x, used ++ left, ps, b, [], rfl, rfl, hmoved, hcounts, .inl rfl⟩
  · obtain rfl := hall (.indent :: (below ++ [.dedent])) (by simp [hrest])
    exact ⟨x, used ++ left, ps, b, _, rfl, rfl, hmoved, hcounts, .inr ⟨below, rfl, hbelow⟩⟩

end StagedScript
