import StagedScript.Proofs.Parsing.Nested

/-!
# Headers with blocks, read in step

A statement with a block is a header on a line of its own and the block behind it.  Two readers stay
in step on the header, since it stands on one line, and on the block, since they do so on statements
that are nested less deeply.
-/

namespace StagedScript

open Parse
open Token (Kind Closed Settled)

variable {π : Places} {φ : Cursor.Fence} {P : Stmt → Prop} {c d : Cursor} {n : Nat} {ks : List Kind}

/-! ## Single words of a header -/

theorem mirrors_name : Mirrors π n ks name name Eq n := by
  have h : Mirrors π n ks (name >>= pure) (name >>= pure) Eq n := .name fun x ls _ => .pure rfl
  rwa [bind_pure] at h

theorem mirrors_expect {k : Kind} {m : Nat} (hk : k.Fixed) (hnewline : k ≠ .newline)
    (hcounts : k.Counts n m) :
    Mirrors π n ks (expect k) (expect k) (fun _ _ => True) m := by
  have h : Mirrors π n ks (expect k >>= pure) (expect k >>= pure) (fun _ _ => True) m :=
    .expect hk hnewline hcounts fun ls _ => .pure trivial
  rwa [bind_pure] at h

theorem Cursor.Line.advance {k : Kind} {ls : List Kind} (h : c.Line ks) (hc : c.ahead = k :: ls)
    (hk : k ≠ .newline) : ∃ left, c.advance.Line left := by
  obtain ⟨hks, rest, hahead⟩ := h
  rw [hc] at hahead
  cases ks with
  | nil => exact absurd (List.cons.inj hahead).1 hk
  | cons l left =>
    obtain ⟨rfl, rfl⟩ := List.cons.inj hahead
    refine ⟨left, fun j hj => hks j (List.mem_cons_of_mem k hj), rest, ?_⟩
    exact Cursor.ahead_advance hc (hks k List.mem_cons_self).2.2

/-! ## Statements with a block -/

set_option synthInstance.maxSize 1000

section

variable {c₀ : Cursor} {bound : Nat} {sub sub' : Parse (List Stmt)} [Onward sub]
  (hsub : ∀ c d : Cursor, c.Twin π φ d → c₀.StartsLine c → c.rest.length < bound →
    Tandem π φ 0 c d sub sub' (AlikeAll π P) Closed 0)
include hsub

theorem tandem_choice {i j : Nat} (h : c.Twin π φ d) (hplace : c₀.Reaches c)
    (hkind : c.kind = .keyword .if_ ∨ c.kind = .keyword .elif_)
    (hi : c.rest.length < i + φ.left.length) (hj : c.rest.length < j + φ.left.length)
    (hbound : c.rest.length ≤ bound) :
    Tandem π φ 0 c d (choice sub i) (choice sub' j) (Alike π P) Closed 0 := by
  induction i generalizing c d j with
  | zero => exact absurd hi (by have := h.length_le; omega)
  | succ i ih =>
    obtain ⟨j, rfl⟩ : ∃ m, j = m + 1 := ⟨j - 1, by have := h.length_le; omega⟩
    have hinner : c.kind.Inner ∧ c.kind.Counts 0 0 := by
      rcases hkind with hk | hk <;> simp [hk, Kind.Inner, Kind.Flat, Kind.Counts]
    have hahead := Cursor.ahead_advance_of_kind rfl hinner.1.2.2
    obtain ⟨ls, hline⟩ := h.line hahead hinner.1
    obtain ⟨left, hline⟩ := hline.advance hahead hinner.1.2.1
    unfold choice
    refine .here h fun span span' hspan => ?_
    have hspan := hspan hinner.1
    refine .advance h hahead hinner.1.2.2 hinner.2 (fun htwin hmoved => ?_) fun _ =>
      (Closed.behind · [_])
    have hlength := hmoved.length_le
    rw [List.length_singleton] at hlength
    refine .lineClosed htwin hline mirrors_expr
      fun test test' c₁ d₁ left hsame htwin₁ hreach hline₁ => ?_
    have hplace₁ := hplace.trans (Cursor.Reaches.trans ⟨_, hmoved⟩ hreach)
    have hlength₁ := hreach.length_le
    refine (tandem_block hsub htwin₁ hplace₁ (by omega)).bind (G := Settled)
      (fun a a' c₂ d₂ used ha htwin₂ hmoved₂ hused => ?_) fun _ _ => Closed.append
    have hlength₂ := hmoved₂.length_le
    have hpos := List.length_pos_of_ne_nil hused.ne_nil
    have hplace₂ := hplace₁.trans ⟨_, hmoved₂⟩
    -- The branches end alike, whatever the second one is.
    have hend {b b' : List Stmt} (hb : AlikeAll π P b b') {c d : Cursor} (h : c.Twin π φ d) :
        Tandem π φ 0 c d
          (blockSpanFrom span.start >>= fun s => pure (Stmt.cond s test a b))
          (blockSpanFrom span'.start >>= fun s => pure (Stmt.cond s test' a' b'))
          (Alike π P) Settled 0 := by
      refine .blockSpanFrom h hspan.start fun s s' hs => .pure h ⟨.cons ?_ .nil, ?_⟩
      · exact (congr (congr (congrArg₂ Stmt.cond hs hsame) ha.mapSpans) hb.mapSpans :)
      · have hwithin : (Stmt.cond s test a b).within =
            Stmt.cond s test a b :: Stmt.withinAll (a ++ b) := by
          rw [Stmt.withinAll_append]
          rfl
        exact .block hwithin rfl (ha.2.append hb.2)
    refine .sees htwin₂ trivial (fun hkind => ?_) fun _ => ?_
    · refine (ih htwin₂ hplace₂ (.inr hkind) (by omega) (by omega) (by omega)).bind (G := Settled)
        (fun s s' c₃ d₃ _ hs htwin₃ _ _ => ?_) fun _ _ h h' => (h.append h').settled
      exact hend hs htwin₃
    · refine .accept htwin₂ trivial (by simp) rfl (fun _ htwin₃ hmoved₃ => ?_)
        (fun _ h => (Closed.behind h [_]).settled) fun _ => ?_
      · have hlength₃ := hmoved₃.length_le
        refine (tandem_block hsub htwin₃ (hplace₂.trans ⟨_, hmoved₃⟩) (by omega)).bind
          (G := Settled) (fun b b' c₄ d₄ _ hb htwin₄ _ _ => hend hb htwin₄) fun _ _ => Closed.append
      · exact hend .nil htwin₂

theorem tandem_whileLoop (h : c.Twin π φ d) (hplace : c₀.Reaches c)
    (hbound : c.rest.length ≤ bound) :
    Tandem π φ 0 c d (whileLoop sub) (whileLoop sub') (Alike π P) Closed 0 := by
  unfold whileLoop
  refine .here h fun span span' hspan => ?_
  refine .expect h trivial (by simp) rfl (fun hahead htwin hmoved => ?_) fun _ =>
    (Closed.behind · [_])
  have hspan := hspan (by rw [Cursor.kind_of_ahead hahead]; simp [Kind.Inner, Kind.Flat])
  obtain ⟨ls, hline⟩ := h.line hahead (by simp [Kind.Inner, Kind.Flat])
  obtain ⟨left, hline⟩ := hline.advance hahead (by simp)
  have hlength := hmoved.length_le
  refine .lineClosed htwin hline mirrors_expr fun test test' c₁ d₁ left hsame htwin₁ hreach _ => ?_
  have hlength₁ := hreach.length_le
  refine (tandem_block hsub htwin₁ (hplace.trans (Cursor.Reaches.trans ⟨_, hmoved⟩ hreach))
    (by omega)).bind (G := Settled) (fun b b' c₂ d₂ _ hb htwin₂ _ _ => ?_) fun _ _ => Closed.append
  refine .blockSpanFrom htwin₂ hspan.start fun s s' hs => .pure htwin₂ ⟨.cons ?_ .nil, ?_⟩
  · exact (congr (congrArg₂ Stmt.loop hs hsame) hb.mapSpans :)
  · exact .block rfl rfl hb.2

theorem tandem_forLoop (h : c.Twin π φ d) (hplace : c₀.Reaches c) (hbound : c.rest.length ≤ bound) :
    Tandem π φ 0 c d (forLoop sub) (forLoop sub') (Alike π P) Closed 0 := by
  unfold forLoop
  refine .here h fun span span' hspan => ?_
  refine .expect h trivial (by simp) rfl (fun hahead htwin hmoved => ?_) fun _ =>
    (Closed.behind · [_])
  have hspan := hspan (by rw [Cursor.kind_of_ahead hahead]; simp [Kind.Inner, Kind.Flat])
  obtain ⟨ls, hline⟩ := h.line hahead (by simp [Kind.Inner, Kind.Flat])
  obtain ⟨left, hline⟩ := hline.advance hahead (by simp)
  have hlength := hmoved.length_le
  refine .lineClosed htwin hline mirrors_loopTarget fun x x' c₁ d₁ _ hx htwin₁ hreach₁ hline₁ => ?_
  refine .lineClosed htwin₁ hline₁ (mirrors_checkTarget hx)
    fun _ _ c₂ d₂ _ _ htwin₂ hreach₂ hline₂ => ?_
  refine .lineClosed htwin₂ hline₂ (mirrors_expect trivial (by simp) rfl)
    fun _ _ c₃ d₃ _ _ htwin₃ hreach₃ hline₃ => ?_
  refine .lineClosed htwin₃ hline₃ mirrors_exprs fun e e' c₄ d₄ _ he htwin₄ hreach₄ _ => ?_
  have hreach := hreach₁.trans (hreach₂.trans (hreach₃.trans hreach₄))
  have hplace₄ := hplace.trans (Cursor.Reaches.trans ⟨_, hmoved⟩ hreach)
  have hlength₄ := hreach.length_le
  refine (tandem_block hsub htwin₄ hplace₄ (by omega)).bind (G := Settled)
    (fun a a' c₅ d₅ _ ha htwin₅ hmoved₅ _ => ?_) fun _ _ => Closed.append
  have hend {b b' : List Stmt} (hb : AlikeAll π P b b') {c d : Cursor} (h : c.Twin π φ d) :
      Tandem π φ 0 c d
        (blockSpanFrom span.start >>= fun s => pure (Stmt.each s x e a b))
        (blockSpanFrom span'.start >>= fun s => pure (Stmt.each s x' e' a' b'))
        (Alike π P) Settled 0 := by
    refine .blockSpanFrom h hspan.start fun s s' hs => .pure h ⟨.cons ?_ .nil, ?_⟩
    · exact (congr (congr (congr (congrArg₂ Stmt.each hs hx) he) ha.mapSpans) hb.mapSpans :)
    · have hwithin : (Stmt.each s x e a b).within =
          Stmt.each s x e a b :: Stmt.withinAll (a ++ b) := by
        rw [Stmt.withinAll_append]
        rfl
      exact .block hwithin rfl (ha.2.append hb.2)
  refine .accept htwin₅ trivial (by simp) rfl (fun _ htwin₆ hmoved₆ => ?_)
    (fun _ h => (Closed.behind h [_]).settled) fun _ => hend .nil htwin₅
  have hlength₅ := hmoved₅.length_le
  have hlength₆ := hmoved₆.length_le
  refine (tandem_block hsub htwin₆ (hplace₄.trans (Cursor.Reaches.trans ⟨_, hmoved₅⟩ ⟨_, hmoved₆⟩))
    (by omega)).bind (G := Settled) (fun b b' c₇ d₇ _ hb htwin₇ _ _ => hend hb htwin₇)
    fun _ _ => Closed.append

theorem tandem_classDefinition (h : c.Twin π φ d) (hplace : c₀.Reaches c)
    (hbound : c.rest.length ≤ bound) :
    Tandem π φ 0 c d (classDefinition sub) (classDefinition sub') (Alike π P) Closed 0 := by
  unfold classDefinition
  refine .here h fun span span' hspan => ?_
  refine .expect h trivial (by simp) rfl (fun hahead htwin hmoved => ?_) fun _ =>
    (Closed.behind · [_])
  have hspan := hspan (by rw [Cursor.kind_of_ahead hahead]; simp [Kind.Inner, Kind.Flat])
  obtain ⟨ls, hline⟩ := h.line hahead (by simp [Kind.Inner, Kind.Flat])
  obtain ⟨left, hline⟩ := hline.advance hahead (by simp)
  have hlength := hmoved.length_le
  rw [List.length_singleton] at hlength
  refine .lineClosed htwin hline mirrors_name fun x _ c₁ d₁ _ hx htwin₁ hreach₁ hline₁ => ?_
  subst hx
  have hlength₁ := hreach₁.length_le
  have hplace₁ := hplace.trans (Cursor.Reaches.trans ⟨_, hmoved⟩ hreach₁)
  have hend {base base' : Option Expr} (hbase : base'.map (Expr.mapSpan (Span.sent π.right)) =
      base.map (Expr.mapSpan (Span.sent π.left))) {c d : Cursor} (h : c.Twin π φ d)
      (hreach : c₁.Reaches c) :
      Tandem π φ 0 c d
        (block sub >>= fun body => blockSpanFrom span.start >>= fun s =>
          pure (Stmt.class_ s x base body))
        (block sub' >>= fun body => blockSpanFrom span'.start >>= fun s =>
          pure (Stmt.class_ s x base' body)) (Alike π P) Closed 0 := by
    have hlength := hreach.length_le
    refine (tandem_block hsub h (hplace₁.trans hreach) (by omega)).bind (G := Settled)
      (fun b b' c₂ d₂ _ hb htwin₂ _ _ => ?_) fun _ _ => Closed.append
    refine .blockSpanFrom htwin₂ hspan.start fun s s' hs => .pure htwin₂ ⟨.cons ?_ .nil, ?_⟩
    · exact (congr (congr (congrArg (Stmt.class_ · x) hs) hbase) hb.mapSpans :)
    · exact .block rfl rfl hb.2
  have hclose {base base' : Option Expr} (hbase : base'.map (Expr.mapSpan (Span.sent π.right)) =
      base.map (Expr.mapSpan (Span.sent π.left))) {c d : Cursor} (h : c.Twin π φ d)
      (hreach : c₁.Reaches c) {ks : List Kind} (hline : c.Line ks) :
      Tandem π φ 1 c d
        (expect (.symbol .closeParen) >>= fun _ => block sub >>= fun body =>
          blockSpanFrom span.start >>= fun s => pure (Stmt.class_ s x base body))
        (expect (.symbol .closeParen) >>= fun _ => block sub' >>= fun body =>
          blockSpanFrom span'.start >>= fun s => pure (Stmt.class_ s x base' body))
        (Alike π P) Closed 0 :=
    .lineClosed h hline (mirrors_expect trivial (by simp) rfl) fun _ _ _ _ _ _ htwin hreach' _ =>
      hend hbase htwin (hreach.trans hreach')
  refine .accept htwin₁ trivial (by simp) rfl (fun hahead₂ htwin₂ hmoved₂ => ?_)
    (fun _ => (Closed.behind · [_])) fun _ => ?_
  · obtain ⟨left, hline₂⟩ := hline₁.advance hahead₂ (by simp)
    refine .sees htwin₂ trivial (fun _ => hclose rfl htwin₂ ⟨_, hmoved₂⟩ hline₂) fun _ => ?_
    have hbase {ks : List Kind} : Mirrors π 1 ks (some <$> expr) (some <$> expr) (fun a b =>
        b.map (Expr.mapSpan (Span.sent π.right)) = a.map (Expr.mapSpan (Span.sent π.left))) 1 := by
      rw [map_eq_pure_bind]
      exact mirrors_expr.bind fun e e' left he _ => .pure (congrArg some he)
    exact .lineClosed htwin₂ hline₂ hbase fun _ _ _ _ _ hsame htwin₃ hreach₃ hline₃ =>
      hclose hsame htwin₃ (Cursor.Reaches.trans ⟨_, hmoved₂⟩ hreach₃) hline₃
  · exact hend rfl htwin₁ ⟨_, .refl c₁⟩

omit hsub in
theorem tandem_decorators {i j : Nat} (h : c.Twin π φ d) (hi : c.rest.length < i + φ.left.length)
    (hj : c.rest.length < j + φ.left.length) :
    Tandem π φ 0 c d (decorators i) (decorators j) (List.Forall₂ (Expr.Same π)) Settled 0 := by
  induction i generalizing c d j with
  | zero => exact absurd hi (by have := h.length_le; omega)
  | succ i ih =>
    obtain ⟨j, rfl⟩ : ∃ m, j = m + 1 := ⟨j - 1, by have := h.length_le; omega⟩
    unfold decorators
    refine .accept h trivial (by simp) rfl (fun hahead htwin hmoved => ?_)
      (fun _ h => (Closed.behind h [_]).settled) fun _ => .pure h .nil
    obtain ⟨ls, hline⟩ := h.line hahead (by simp [Kind.Inner, Kind.Flat])
    obtain ⟨left, hline⟩ := hline.advance hahead (by simp)
    have hlength := hmoved.length_le
    rw [if_pos rfl, if_pos rfl]
    refine .lineClosed htwin hline mirrors_expr fun e e' c₁ d₁ _ he htwin₁ hreach₁ _ => ?_
    have hlength₁ := hreach₁.length_le
    refine .expect htwin₁ trivial (by simp) rfl (fun _ htwin₂ hmoved₂ => ?_)
      fun _ => Closed.append (show Closed [Kind.newline] from ⟨[], .newline, rfl, rfl⟩)
    have hlength₂ := hmoved₂.length_le
    rw [List.length_singleton] at hlength hlength₂
    refine (tandem_skipNewlines htwin₂).bind (G := Settled)
      (fun _ _ c₃ d₃ _ _ htwin₃ hmoved₃ _ => ?_) fun _ _ => Settled.append
    have hlength₃ := hmoved₃.length_le
    exact (ih htwin₃ (by omega) (by omega)).bind (G := Settled)
      (fun _ _ _ _ _ hes htwin₄ _ _ => .pure htwin₄ (.cons he hes)) fun _ _ => Settled.append

/-- Reads what is in front of the block of a definition: the decorators, the name and the
parameters. -/
def Parse.front : Parse (List Expr × String × List (Param Expr)) := do
  let ds ← decorators (← rounds)
  if !(← sees (.keyword .def_)) then missing .definition
  advance
  let x ← name
  expect (.symbol .openParen)
  let ps ← params (← rounds) []
  expect (.symbol .closeParen)
  return (ds, x, ps)

omit [Onward sub] hsub in
theorem Parse.definition_eq : definition sub = (do
    let span ← here
    let head ← front
    let body ← block sub
    return .define (← blockSpanFrom span.start) head.2.1 head.1 head.2.2 body) := by
  unfold definition front
  simp only [bind_assoc]
  refine bind_congr fun span => bind_congr fun n => bind_congr fun ds => bind_congr fun b => ?_
  cases b <;> simp [bind_assoc]

omit [Onward sub] hsub in
theorem tandem_front (h : c.Twin π φ d) :
    Tandem π φ 0 c d front front (fun p q => List.Forall₂ (Expr.Same π) p.1 q.1 ∧ p.2.1 = q.2.1 ∧
      List.Forall₂ (Param.Same π) p.2.2 q.2.2) (fun _ => True) 0 := by
  unfold front
  refine .rounds h fun i j hi hj => ?_
  refine (tandem_decorators h hi hj).bind (G := fun _ => True)
    (fun ds ds' c₁ d₁ _ hds htwin₁ hmoved₁ _ => ?_) fun _ _ _ _ => trivial
  refine .sees htwin₁ trivial (fun hkind => ?_) fun _ => ?_
  · have hahead := Cursor.ahead_advance_of_kind hkind (by simp)
    obtain ⟨ls, hline⟩ := htwin₁.line hahead (by simp [Kind.Inner, Kind.Flat])
    obtain ⟨left, hline⟩ := hline.advance hahead (by simp)
    refine .advance (E := fun _ => True) htwin₁ hahead (by simp) rfl (fun htwin₂ hmoved₂ => ?_)
      fun _ _ => trivial
    refine .line (E := fun _ => True) htwin₂ hline mirrors_name
      (fun x _ c₃ d₃ _ hx htwin₃ hreach₃ hline₃ => ?_) fun _ _ _ => trivial
    refine .line (E := fun _ => True) htwin₃ hline₃ (mirrors_expect (m := 1) trivial (by simp) rfl)
      (fun _ _ c₄ d₄ ks _ htwin₄ hreach₄ hline₄ => ?_) fun _ _ _ => trivial
    refine .rounds htwin₄ fun i j hi hj => ?_
    obtain ⟨_, _, -, hks⟩ := htwin₄.onLine hline₄
    refine .line (E := fun _ => True) htwin₄ hline₄ (mirrors_params (by omega) (by omega) .nil)
      (fun ps ps' c₅ d₅ _ hps htwin₅ hreach₅ hline₅ => ?_) fun _ _ _ => trivial
    refine .line (E := fun _ => True) htwin₅ hline₅ (mirrors_expect (m := 0) trivial (by simp) rfl)
      (fun _ _ c₆ d₆ _ _ htwin₆ hreach₆ _ => ?_) fun _ _ _ => trivial
    exact (Tandem.pure htwin₆ ⟨hds, hx, hps⟩).mono fun _ _ => trivial
  · rintro _ _ ⟨⟩

omit [Onward sub] hsub in
theorem Param.mapSpans_eq {ps ps' : List (Param Expr)} (h : List.Forall₂ (Param.Same π) ps ps') :
    ps'.map (Param.mapSpan (Span.sent π.right)) = ps.map (Param.mapSpan (Span.sent π.left)) := by
  induction h with
  | nil => rfl
  | cons hp _ ih => exact congrArg₂ List.cons hp ih

/-- A definition is read alike if it is in front of the fence, even just in front of it.  What is
noted are the definitions within it. -/
theorem definition_beside (h : c.Twin π φ d) (hkind : c.kind.Inner) (hplace : c₀.Reaches c)
    (hbound : c.rest.length ≤ bound) {s : Stmt} {c' : Cursor} (hs : definition sub c = .ok s c')
    (hend : φ.left.length ≤ c'.rest.length) :
    ∃ t d' used, definition sub' d = .ok t d' ∧ Stmt.Same π s t ∧ c'.Beside π φ d' ∧
    c.Moved used c' ∧
      Token.Counts 0 used 0 ∧ Closed used ∧ ∃ ss, s.within = s :: Stmt.withinAll ss ∧
      Stmt.Notes P ss := by
  rw [definition_eq] at hs ⊢
  obtain ⟨_, _, hhere, hs⟩ := EStateM.bind_eq_ok.1 hs
  cases hhere
  obtain ⟨⟨ds, x, ps⟩, c₁, hfront, hs⟩ := EStateM.bind_eq_ok.1 hs
  obtain ⟨b, _, hblock, hs⟩ := EStateM.bind_eq_ok.1 hs
  cases hs
  have hlength := (precedes_of_block hblock).length_lt
  obtain ⟨⟨ds', _, ps'⟩, d₁, used, hfront', ⟨hds, rfl, hps⟩, htwin₁, hmoved₁, hcounts₁, -⟩ :=
    tandem_front h hfront (.inl (by omega))
  have hlength₁ := hmoved₁.length_le
  obtain ⟨b', d₂, more, hblock', hb, hbeside, hmoved₂, hcounts₂, hclosed⟩ :=
    block_beside hsub htwin₁ (hplace.trans ⟨_, hmoved₁⟩) (by omega) hblock hend
  refine ⟨.define ⟨d.token.span.start, d₂.lastWordStop⟩ x ds' ps' b', d₂, used ++ more, ?_,
    ?_, hbeside, hmoved₁.trans hmoved₂, hcounts₁.append hcounts₂, hclosed.behind used, b, rfl, hb.2⟩
  · have hhere : here d = .ok d.token.span d := rfl
    rw [EStateM.bind_ok hhere, EStateM.bind_ok hfront', EStateM.bind_ok hblock']
    rfl
  · have hspan : Span.Same π ⟨c.token.span.start, c'.lastWordStop⟩
        ⟨d.token.span.start, d₂.lastWordStop⟩ :=
      .mk (h.token hkind).start hbeside.lastWordStop
    exact (congr (congr (congr (congrArg (Stmt.define · x) hspan) (Expr.mapSpans_eq hds))
      (Param.mapSpans_eq hps)) hb.mapSpans :)

theorem tandem_definition (hP : ∀ c c' s, c₀.StartsLine c → definition sub c = .ok s c' → P s)
    (h : c.Twin π φ d) (hkind : c.kind.Inner) (hstart : c₀.StartsLine c)
    (hbound : c.rest.length ≤ bound) :
    Tandem π φ 0 c d (definition sub) (definition sub') (Alike π P) Closed 0 := by
  intro s c' hs hinside
  obtain ⟨t, d', used, ht, hsame, hbeside, hmoved, hcounts, hclosed, ss, hss, hnotes⟩ :=
    definition_beside hsub h hkind hstart.reaches hbound hs hinside.length_le
  exact ⟨t, d', used, ht, ⟨.cons hsame .nil, .define hss (hP c c' s hstart hs) hnotes⟩,
    ⟨hbeside, hinside⟩, hmoved, hcounts, hclosed⟩

end

/-! ## Statements and texts -/

/-- The definition of a function has been read where a line starts behind the cursor. -/
def Stmt.ReadFrom (c₀ : Cursor) (s : Stmt) : Prop :=
  ∃ depth c c', c₀.StartsLine c ∧ definition (stmtWithin depth) c = .ok s c'

section

variable {c₀ : Cursor}

theorem tandem_stmtWithin {i j : Nat} (h : c.Twin π φ d) (hstart : c₀.StartsLine c)
    (hj : c.rest.length < j + φ.left.length) :
    Tandem π φ 0 c d (stmtWithin i) (stmtWithin j) (AlikeAll π (Stmt.ReadFrom c₀)) Closed 0 := by
  induction i generalizing c d j with
  | zero => rintro _ _ ⟨⟩
  | succ i ih =>
    obtain ⟨j, rfl⟩ : ∃ m, j = m + 1 := ⟨j - 1, by have := h.length_le; omega⟩
    have hsub (c' d' : Cursor) (h' : c'.Twin π φ d') (hstart' : c₀.StartsLine c')
        (hlength : c'.rest.length < c.rest.length) :
        Tandem π φ 0 c' d' (stmtWithin i) (stmtWithin j) (AlikeAll π (Stmt.ReadFrom c₀)) Closed 0 :=
      ih h' hstart' (by omega)
    have hone {x y : Parse Stmt} (hx : Tandem π φ 0 c d x y (Alike π (Stmt.ReadFrom c₀)) Closed 0) :
        Tandem π φ 0 c d (x >>= fun s => pure [s]) (y >>= fun s => pure [s])
          (AlikeAll π (Stmt.ReadFrom c₀)) Closed 0 :=
      hx.bind (G := Settled) (fun s t c' d' _ hst htwin _ _ => .pure htwin hst)
        fun _ _ => Closed.append
    have hdefinition (hkind : c.kind.Inner) :=
      tandem_definition hsub (fun c c' s hstart hs => ⟨i, c, c', hstart, hs⟩) h hkind hstart le_rfl
    have hplace := hstart.reaches
    unfold stmtWithin
    refine .get ?_
    rw [h.kind]
    split
    · next hkind =>
      refine .rounds h fun i' j' hi' hj' => hone ?_
      exact tandem_choice hsub h hplace (.inl hkind) hi' hj' le_rfl
    · exact hone (tandem_whileLoop hsub h hplace le_rfl)
    · exact hone (tandem_forLoop hsub h hplace le_rfl)
    · next hkind => exact hone (hdefinition (by simp [hkind, Kind.Inner, Kind.Flat]))
    · next hkind => exact hone (hdefinition (by simp [hkind, Kind.Inner, Kind.Flat]))
    · exact hone (tandem_classDefinition hsub h hplace le_rfl)
    · rintro _ _ ⟨⟩
    · exact tandem_simpleLine h

theorem tandem_stmt (h : c.Twin π φ d) (hstart : c₀.StartsLine c) :
    Tandem π φ 0 c d stmt stmt (AlikeAll π (Stmt.ReadFrom c₀)) Closed 0 :=
  .rounds h fun _ _ _ hj => tandem_stmtWithin h hstart hj

end

/-- The definitions of a text without errors have been read from it, each where a line starts. -/
theorem Parsed.notes_of_ofCursor {c₀ : Cursor} {n room : Nat} {c : Cursor} {body : List Stmt}
    (hlined : Token.Lined c.ahead) (hstart : c₀.StartsLine c) (h : ofCursor n room c = ⟨body, []⟩) :
    Stmt.Notes (Stmt.ReadFrom c₀) body := by
  induction n generalizing c body with
  | zero =>
    cases h
    exact .nil
  | succ n ih =>
    unfold ofCursor at h
    split at h
    · cases h
      exact .nil
    · split at h
      · next ss c' hss =>
        obtain ⟨_, _, used, -, hnotes, -, hmoved, -, hused⟩ :=
          tandem_stmt (.self hlined) hstart hss (.inr rfl)
        obtain ⟨_, _, used', -, -, -, hmoved', -, hused'⟩ :=
          tandem_skipNewlines (.self (hmoved.ahead ▸ hlined).of_append) (a := ()) rfl (.inr rfl)
        obtain ⟨hbody, herrors⟩ := Parsed.mk.injEq .. ▸ h
        rw [← hbody]
        refine hnotes.2.append (ih ?_ ((hstart.moved hmoved hused.settled).moved hmoved' hused') ?_)
        · exact ((hmoved.trans hmoved').ahead ▸ hlined).of_append
        · exact congrArg₂ Parsed.mk rfl herrors
      · split at h
        · cases h
        · cases h

end StagedScript
