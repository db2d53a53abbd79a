import StagedScript.Proofs.Parsing.Brackets

/-!
# Every expression is read from its tokens

What is written for an expression with its operands in parentheses is read as the expression again.
The tokens bound how deeply the reader nests, for whatever stands inside of an expression is written
with fewer tokens than the expression.
-/

namespace StagedScript

open Parse

/-- In front of a token that is no text, the tokens are read as an operand with a property. -/
def ReadsOperand (sub : Nat → Parse Expr) (word : List Token.Kind) (P : Expr → Prop) : Prop :=
  ∀ (c : Cursor) (k : Token.Kind) (ks : List Token.Kind), (∀ t, k ≠ .str t) →
    c.ahead = word ++ k :: ks → Yields (operand sub) c P (k :: ks)

section

variable {sub : Nat → Parse Expr} {word : List Token.Kind} {P : Expr → Prop} {depth : Nat}

theorem ReadsOperand.expr (h : ReadsOperand (exprWithin depth) word P) :
    ReadsExpr (exprWithin (depth + 1)) word P :=
  .of_operand fun c k ks hk hc => h c k ks hk.text hc

/-- What is read in parentheses is read as an operand. -/
theorem ReadsItem.parens (h : ReadsItem sub word P)
    (hword : ∃ k ws, word = k :: ws ∧ startsExpr k = true) : ReadsOperand sub (parens word) P := by
  intro c k ks _ hc
  obtain ⟨l, ws, hw, hl⟩ := hword
  have hc : c.ahead = .symbol .openParen :: (word ++ .symbol .closeParen :: k :: ks) := by
    rw [hc, StagedScript.parens]
    simp
  unfold operand
  refine .get ?_
  dsimp only
  rw [Cursor.kind_of_ahead hc]
  dsimp only
  unfold paren
  refine .here fun start => .advance hc (by simp) fun c₂ hc₂ => ?_
  -- What stands in the parentheses is neither an empty tuple nor, without a comma, another one.
  refine .reject (k := l) (by rw [hc₂, hw]; rfl) (Token.Kind.alike_of_startsExpr hl rfl) ?_
  rw [if_neg Bool.false_ne_true]
  refine (h c₂ _ _ (.of_closes rfl) hc₂).bind fun e c₃ he hc₃ => ?_
  refine .reject hc₃ rfl ?_
  rw [if_neg Bool.false_ne_true]
  exact .expect hc₃ rfl (by simp) fun c₄ hc₄ => .pure he hc₄

/-- Behind an operand, one operator with its right side is read. -/
theorem ReadsItem.connective {left right : List Token.Kind} {a b : Expr} (op : Connective)
    (ha : ReadsOperand (exprWithin depth) left (·.bare = a))
    (hb : ReadsExpr (exprWithin depth) right (·.bare = b))
    (hright : ∃ k ws, right = k :: ws ∧ k ≠ .keyword .not_) :
    ReadsItem (exprWithin (depth + 1)) (left ++ op.kinds ++ right)
      (·.bare = op.apply .nowhere a b) := by
  intro c k ks hk hc
  obtain ⟨l, ls, hl, -, htext⟩ := op.kinds_cons
  obtain ⟨m, ms, rfl, hm⟩ := hright
  have hc : c.ahead = left ++ l :: (ls ++ m :: ms ++ k :: ks) := by
    rw [hc, hl]
    simp
  unfold exprWithin
  refine .here fun span => (ha c l _ htext hc).bind fun e c' he hc' => .rounds fun n hn => ?_
  obtain ⟨n, rfl⟩ : ∃ i, n = i + 1 := ⟨n - 1, by omega⟩
  have hc' : c'.ahead = op.kinds ++ m :: (ms ++ k :: ks) := by
    rw [hc', hl]
    simp
  refine .connective hc' (.of_ne hm) (Nat.zero_le _) (fun _ => rfl)
    (fun c₂ hc₂ => hb _ c₂ k ks hk hc₂) fun r c₂ hr hc₂ => ?_
  exact ReadsExpr.continuation hk hc₂ (by rw [Expr.bare_apply, he, hr]) _ _ _ _

/-- Behind an operand, one trailer is read. -/
theorem ReadsItem.trailer {left right : List Token.Kind} {k : Token.Kind} {a e : Expr}
    (ha : ReadsOperand (exprWithin depth) left (·.bare = a)) (hk : startsTrailer k = true)
    (htrailer : ∀ (o : Expr) (c : Cursor) (ks : List Token.Kind), o.bare = a →
      c.ahead = k :: (right ++ ks) →
      Yields (Parse.trailer (exprWithin depth) o) c (·.bare = e) ks) :
    ReadsItem (exprWithin (depth + 1)) (left ++ k :: right) (·.bare = e) := by
  intro c l ks hl hc
  rw [List.append_assoc] at hc
  unfold exprWithin
  have htext : ∀ t, k ≠ .str t := by
    rintro t rfl
    cases hk
  refine .here fun span => (ha c k _ htext hc).bind fun o c' ho hc' => .rounds fun n hn => ?_
  obtain ⟨n, rfl⟩ : ∃ i, n = i + 1 := ⟨n - 1, by omega⟩
  unfold Parse.continuation
  refine .get ?_
  rw [Cursor.kind_of_ahead hc', if_pos hk]
  refine (htrailer o c' _ ho hc').bind fun e' c₂ he' hc₂ => ?_
  exact ReadsExpr.continuation (P := (·.bare = e)) hl hc₂ he' _ _ _ _

end

/-! ## Expressions and what is written for them -/

/-- What is written for an expression is read as it, on its own and among others, and also as an
operand if it stands for itself there. -/
structure Expr.Reads (extra : Expr → Bool) (e : Expr) : Prop where
  /-- The tokens bound the depth of nesting. -/
  whole : ∀ {depth : Nat}, (e.written extra).length < depth →
    ReadsItem (exprWithin depth) (e.written extra) (·.bare = e.bare)
  /-- An operand is read at the depth that it stands at. -/
  alone : e.isAtomic = true → ∀ {depth : Nat}, (e.written extra).length ≤ depth →
    ReadsOperand (exprWithin depth) (e.written extra) (·.bare = e.bare)

namespace Expr.Reads

variable {extra : Expr → Bool} {e : Expr} {depth : Nat}

/-- What is read as an operand is read on its own. -/
theorem of_alone (h : ∀ {depth : Nat}, (e.written extra).length ≤ depth →
    ReadsOperand (exprWithin depth) (e.written extra) (·.bare = e.bare)) : e.Reads extra where
  whole {depth} hd := by
    obtain ⟨depth, rfl⟩ : ∃ d, depth = d + 1 := ⟨depth - 1, by omega⟩
    exact (h (Nat.le_of_lt_succ hd)).expr.item
  alone _ _ hd := h hd

/-- What is no operand on its own needs to be read on its own only. -/
theorem of_whole (hatomic : e.isAtomic = false)
    (h : ∀ {depth : Nat}, (e.written extra).length ≤ depth →
    ReadsItem (exprWithin (depth + 1)) (e.written extra) (·.bare = e.bare)) : e.Reads extra where
  whole {depth} hd := by
    obtain ⟨depth, rfl⟩ : ∃ d, depth = d + 1 := ⟨depth - 1, by omega⟩
    exact h (Nat.le_of_lt_succ hd)
  alone h := by
    rw [hatomic] at h
    cases h

/-- The expression is read in parentheses. -/
theorem parens (h : e.Reads extra) (hd : (StagedScript.parens (e.written extra)).length ≤ depth) :
    ReadsOperand (exprWithin depth) (StagedScript.parens (e.written extra)) (·.bare = e.bare) := by
  refine ReadsItem.parens (h.whole ?_) (e.written_head extra)
  rw [StagedScript.parens, List.length_cons, List.length_append] at hd
  omega

/-- The expression is read as an item, in parentheses or without them. -/
theorem item (h : e.Reads extra) (hd : (e.item extra).length < depth) :
    ReadsItem (exprWithin depth) (e.item extra) (·.bare = e.bare) := by
  rw [Expr.item, grouped] at hd ⊢
  split at hd
  · next hextra =>
    rw [if_pos hextra]
    obtain ⟨depth, rfl⟩ : ∃ d, depth = d + 1 := ⟨depth - 1, by omega⟩
    exact (h.parens (Nat.le_of_lt_succ hd)).expr.item
  · next hextra =>
    rw [if_neg hextra]
    exact h.whole hd

/-- The expression is read as an operand. -/
theorem operand (h : e.Reads extra) (hd : (e.operand extra).length ≤ depth) :
    ReadsOperand (exprWithin depth) (e.operand extra) (·.bare = e.bare) := by
  rw [Expr.operand, grouped] at hd ⊢
  split at hd
  · next hextra =>
    rw [if_pos hextra]
    exact h.parens hd
  · next hextra =>
    rw [if_neg hextra]
    simp only [Bool.or_eq_true, not_or, Bool.not_eq_true, Bool.not_eq_false'] at hextra
    exact h.alone hextra.2 hd

/-- An operand is read as an expression, however strongly it is bound. -/
theorem side (h : e.Reads extra) (hd : (e.operand extra).length < depth) :
    ReadsExpr (exprWithin depth) (e.operand extra) (·.bare = e.bare) := by
  obtain ⟨depth, rfl⟩ : ∃ d, depth = d + 1 := ⟨depth - 1, by omega⟩
  exact (h.operand (Nat.le_of_lt_succ hd)).expr

/-! ### Operators -/

/-- Two operands with an operator between them. -/
theorem connective {a b : Expr} (op : Connective) (ha : a.Reads extra) (hb : b.Reads extra)
    (hd : (a.operand extra ++ op.kinds ++ b.operand extra).length ≤ depth) :
    ReadsItem (exprWithin (depth + 1)) (a.operand extra ++ op.kinds ++ b.operand extra)
      (·.bare = op.apply .nowhere a.bare b.bare) := by
  obtain ⟨k, ks, hk, -⟩ := op.kinds_cons
  have hlength : 0 < op.kinds.length := by rw [hk]; exact Nat.succ_pos _
  simp only [List.length_append] at hd
  refine ReadsItem.connective op (ha.operand (by omega)) (hb.side (by omega)) ?_
  -- No operand starts with a `not`, which would make another operator of an `is` in front of it.
  rcases b.operand_head extra with ⟨x, hx⟩ | ⟨l, ws, hl, -, hsign, -⟩
  · exact ⟨_, _, hx, by simp⟩
  · refine ⟨l, ws, hl, ?_⟩
    rintro rfl
    cases hsign

theorem unary {a : Expr} (s : Span) (op : UnaryOp) (ha : a.Reads extra) :
    (Expr.unary s op a).Reads extra := by
  refine .of_whole rfl fun {depth} hd c k ks hk hc => ?_
  rw [written] at hd hc
  obtain ⟨strength, hsign⟩ : ∃ strength, sign? op.kind = some (op, strength) := by
    cases op <;> exact ⟨_, rfl⟩
  have hd' : (a.operand extra).length < depth := Nat.lt_of_succ_le hd
  have hoperand : Yields (Parse.operand (exprWithin depth)) c (·.bare = (Expr.unary s op a).bare)
      (k :: ks) := by
    refine (Yields.signOperand (Q := (·.bare = a.bare)) hc hsign fun c' hc' =>
      ha.side hd' strength c' k ks hk hc').mono ?_
    rintro _ ⟨span, x, rfl, hx⟩
    exact congrArg (Expr.unary .nowhere op) hx
  unfold exprWithin
  refine .here fun span => hoperand.bind fun e c' he hc' => .rounds fun n _ => ?_
  exact ReadsExpr.continuation (P := (·.bare = (Expr.unary s op a).bare)) hk hc' he _ _ _ _

/-! ### Brackets -/

section

variable {es : List Expr} (hes : ∀ e ∈ es, e.Reads extra)
include hes

/-- The expressions are read as items where all of their tokens fit into the depth. -/
theorem items (hd : ∀ e ∈ es, (e.item extra).length < depth) :
    ∀ e ∈ es, ReadsItem (exprWithin depth) (e.item extra) (·.bare = e.bare) :=
  fun e he => (hes e he).item (hd e he)

theorem tuple (s : Span) : (Expr.tuple s es).Reads extra := by
  refine .of_alone fun {depth} hd c k ks _ hc => ?_
  rw [written, writtenItems_eq, tupleWord_map] at hd hc
  have hitems : ∀ e ∈ es, ReadsItem (exprWithin depth) (e.item extra) (·.bare = e.bare) :=
    items hes fun e he => by
      have := length_lt_tupleWord (Expr.item extra) he
      omega
  refine (Yields.tupleOperand hitems (fun e _ => e.item_head extra) hc).mono ?_
  rintro _ ⟨span, es', rfl, hes'⟩
  exact congrArg (Expr.tuple .nowhere) (mapSpans_eq hes')

theorem list (s : Span) : (Expr.list s es).Reads extra := by
  refine .of_alone fun {depth} hd c k ks _ hc => ?_
  rw [written, writtenItems_eq, withCommas_map] at hd hc
  have hitems : ∀ e ∈ es, ReadsItem (exprWithin depth) (e.item extra) (·.bare = e.bare) :=
    items hes fun e he => by
      have := length_le_of_mem (Expr.item extra) he
      simp only [List.length_cons, List.length_append] at hd
      omega
  have hc' : c.ahead = .symbol .openBracket ::
      (withCommas (Expr.item extra) es ++ .symbol .closeBracket :: k :: ks) := by
    rw [hc]
    simp
  refine (Yields.listOperand hitems (fun e _ => e.item_head extra) hc').mono ?_
  rintro _ ⟨span, es', rfl, hes'⟩
  exact congrArg (Expr.list .nowhere) (mapSpans_eq hes')

end

theorem dict {es : List (Expr × Expr)} (hkeys : ∀ kv ∈ es, kv.1.Reads extra)
    (hvalues : ∀ kv ∈ es, kv.2.Reads extra) (s : Span) : (Expr.dict s es).Reads extra := by
  refine .of_alone fun {depth} hd c k ks _ hc => ?_
  rw [written, writtenEntries_eq, withCommas_map] at hd hc
  have hlength (kv : Expr × Expr) (hkv : kv ∈ es) :
      (kv.1.item extra).length < depth ∧ (kv.2.item extra).length < depth := by
    have hle := length_le_of_mem (Expr.entry extra) hkv
    simp only [Expr.entry, List.length_cons, List.length_append] at hd hle
    omega
  have hc' : c.ahead = .symbol .openBrace ::
      (withCommas (Expr.entry extra) es ++ .symbol .closeBrace :: k :: ks) := by
    rw [hc]
    simp
  unfold Parse.operand
  refine .get ?_
  dsimp only
  rw [Cursor.kind_of_ahead hc']
  refine .advance hc' (by simp) fun c₂ hc₂ => .rounds fun n hn => ?_
  have hcount : es.length < n := length_lt_of_ahead (fun kv _ => by simp [Expr.entry]) hc₂ hn
  refine (Yields.entries (fun kv hkv => (hkeys kv hkv).item (hlength kv hkv).1)
    (fun kv hkv => (hvalues kv hkv).item (hlength kv hkv).2) hcount hc₂).bind
    fun es' c₃ hes' hc₃ => ?_
  refine .expect hc₃ rfl (by simp) fun c₄ hc₄ => .spanFrom _ fun span => .pure ?_ hc₄
  exact congrArg (Expr.dict .nowhere) (mapEntrySpans_eq hes')

/-! ### Trailers -/

theorem call {f : Expr} {args : List (Arg Expr)} (hf : f.Reads extra)
    (hargs : ∀ a ∈ args, a.value.Reads extra)
    (horder : args.Pairwise fun a b => namesArgument a.role = true → b.role ≠ .positional)
    (s : Span) : (Expr.call s f args).Reads extra := by
  refine .of_whole rfl fun {depth} hd => ?_
  rw [written, writtenArgs_eq, withCommas_map] at hd ⊢
  simp only [List.length_append, List.length_cons, List.length_nil] at hd
  refine ReadsItem.trailer (hf.operand (Nat.le_trans (Nat.le_add_right _ _) hd)) rfl ?_
  intro o c ks ho hc
  have hc' : c.ahead = .symbol .openParen ::
      (withCommas (Expr.argument extra) args ++ .symbol .closeParen :: ks) := by
    rw [hc]
    simp
  unfold Parse.trailer
  refine .kind hc' (.advance hc' (by simp) fun c₂ hc₂ => .rounds fun n hn => ?_)
  have hnil (a : Arg Expr) (_ : a ∈ args) : Expr.argument extra a ≠ [] := by
    obtain ⟨k, ws, hk, -⟩ := argument_head extra a
    simp [hk]
  have hcount : args.length < n := length_lt_of_ahead hnil hc₂ hn
  have hsub (a : Arg Expr) (ha : a ∈ args) :
      ReadsItem (exprWithin depth) (a.value.item extra) (·.bare = a.value.bare) := by
    refine (hargs a ha).item ?_
    have hle := length_le_of_mem (Expr.argument extra) ha
    simp only [Expr.argument, List.length_append] at hd hle
    omega
  refine (Yields.arguments hsub horder (by simp) hcount hc₂).bind fun args' c₃ hargs' hc₃ => ?_
  refine .expect hc₃ rfl (by simp) fun c₄ hc₄ => .spanFrom _ fun span => .pure ?_ hc₄
  exact congrArg₂ (Expr.call .nowhere) ho (mapArgSpans_eq hargs')

theorem attr {o : Expr} (ho : o.Reads extra) (s : Span) (x : String) :
    (Expr.attr s o x).Reads extra := by
  refine .of_whole rfl fun {depth} hd => ?_
  rw [written] at hd ⊢
  simp only [List.length_append, List.length_cons, List.length_nil] at hd
  refine ReadsItem.trailer (ho.operand (Nat.le_trans (Nat.le_add_right _ _) hd)) rfl ?_
  intro o' c ks ho' hc
  unfold Parse.trailer
  refine .kind hc (.advance hc (by simp) fun c₂ hc₂ => .name hc₂ fun c₃ hc₃ => ?_)
  exact .spanFrom _ fun span => .pure (congrArg (Expr.attr .nowhere · x) ho') hc₃

theorem subscript {o i : Expr} (ho : o.Reads extra) (hi : i.Reads extra) (s : Span) :
    (Expr.subscript s o i).Reads extra := by
  refine .of_whole rfl fun {depth} hd => ?_
  rw [written] at hd ⊢
  simp only [List.length_append, List.length_cons, List.length_nil] at hd
  refine ReadsItem.trailer (ho.operand (Nat.le_trans (Nat.le_add_right _ _) hd)) rfl ?_
  intro o' c ks ho' hc
  have hc' : c.ahead = .symbol .openBracket :: (i.item extra ++ .symbol .closeBracket :: ks) := by
    rw [hc]
    simp [Expr.item]
  have hlength : (i.item extra).length < depth := by
    rw [Expr.item]
    omega
  unfold Parse.trailer
  refine .kind hc' (.advance hc' (by simp) fun c₂ hc₂ => ?_)
  unfold exprList
  simp only [bind_assoc]
  refine .here fun start => (hi.item hlength c₂ _ _ (.of_closes rfl) hc₂).bind
    fun i' c₃ hi' hc₃ => ?_
  refine .sees hc₃ ?_
  rw [if_neg (by simp [Token.Kind.alike]), pure_bind]
  refine .expect hc₃ rfl (by simp) fun c₄ hc₄ => .spanFrom _ fun span => .pure ?_ hc₄
  exact congrArg₂ (Expr.subscript .nowhere) ho' hi'

end Expr.Reads

/-! ## All expressions -/

section

variable (extra : Expr → Bool)

mutual

/-- Every expression is read from what is written for it. -/
theorem Expr.reads_written : (e : Expr) → e.ArgsInOrder → e.Reads extra
  | .int s n, _ => .of_alone fun _ _ _ _ _ hc =>
    (Yields.intOperand hc).mono (by rintro _ ⟨_, rfl⟩; rfl)
  | .float s x, _ =>
    .of_alone fun _ _ _ _ _ hc => (Yields.floatOperand hc).mono (by rintro _ ⟨_, rfl⟩; rfl)
  | .str s t, _ =>
    .of_alone fun _ _ _ _ hk hc => (Yields.textOperand hc hk).mono (by rintro _ ⟨_, rfl⟩; rfl)
  | .bool s b, _ =>
    .of_alone fun _ _ _ _ _ hc => (Yields.boolOperand hc).mono (by rintro _ ⟨_, rfl⟩; rfl)
  | .none_ s, _ =>
    .of_alone fun _ _ _ _ _ hc => (Yields.noneOperand hc).mono (by rintro _ ⟨_, rfl⟩; rfl)
  | .name s x, _ =>
    .of_alone fun _ _ _ _ _ hc => (Yields.nameOperand hc).mono (by rintro _ ⟨_, rfl⟩; rfl)
  | .tuple s es, h => .tuple (reads_items es h) s
  | .list s es, h => .list (reads_items es h) s
  | .dict s es, h =>
    .dict (fun kv hkv => (reads_entries es h kv hkv).1)
      (fun kv hkv => (reads_entries es h kv hkv).2) s
  | .binary s op a b, h => .of_whole rfl fun hd =>
    Expr.Reads.connective (.binary op) (reads_written a h.1) (reads_written b h.2) hd
  | .unary s op a, h => .unary s op (reads_written a h)
  | .logical s op a b, h => .of_whole rfl fun hd =>
    Expr.Reads.connective (.logical op) (reads_written a h.1) (reads_written b h.2) hd
  | .compare s op a b, h => .of_whole rfl fun hd =>
    Expr.Reads.connective (.compare op) (reads_written a h.1) (reads_written b h.2) hd
  | .call s f args, h => .call (reads_written f h.1) (reads_arguments args h.2.1) h.2.2 s
  | .attr s o x, h => .attr (reads_written o h) s x
  | .subscript s o i, h => .subscript (reads_written o h.1) (reads_written i h.2) s

theorem Expr.reads_items : (es : List Expr) → AllInOrder es → ∀ e ∈ es, e.Reads extra
  | [], _ => by simp
  | e :: es, h => List.forall_mem_cons.2 ⟨reads_written e h.1, reads_items es h.2⟩

theorem Expr.reads_entries : (es : List (Expr × Expr)) → EntriesInOrder es →
    ∀ kv ∈ es, kv.1.Reads extra ∧ kv.2.Reads extra
  | [], _ => by simp
  | (k, v) :: es, h =>
    List.forall_mem_cons.2 ⟨⟨reads_written k h.1, reads_written v h.2.1⟩, reads_entries es h.2.2⟩

theorem Expr.reads_arguments : (args : List (Arg Expr)) → CallInOrder args →
    ∀ a ∈ args, a.value.Reads extra
  | [], _ => by simp
  | ⟨_, e⟩ :: args, h => List.forall_mem_cons.2 ⟨reads_written e h.1, reads_arguments args h.2⟩

end

end

/-- Whatever an expression is made of, the reader reads it from what is written for it in front of
the end of a line, all of it and nothing behind it.  Operands that are no literals, names or
brackets of their own are written in parentheses, and other expressions may be as well.  No argument
by place stands behind one by name. -/
theorem Parse.expr_reads_written (extra : Expr → Bool) {e : Expr} (he : e.ArgsInOrder) {c : Cursor}
    {ks : List Token.Kind} (hc : c.ahead = e.item extra ++ .newline :: ks) :
    Yields Parse.expr c (·.bare = e.bare) (.newline :: ks) := by
  unfold Parse.expr exprAbove
  refine .rounds fun n hn => (e.reads_written extra he).item ?_ c _ _ .newline hc
  rw [hc, List.length_append] at hn
  omega

/-- The tree of `not (f.g(1, (2,), *r, k=[x[0]]) < -3)`. -/
def sampleExpr : Expr :=
  .unary .nowhere .not (.compare .nowhere .lt
    (.call .nowhere (.attr .nowhere (.name .nowhere "f") "g")
      [⟨.positional, .int .nowhere 1⟩, ⟨.positional, .tuple .nowhere [.int .nowhere 2]⟩,
        ⟨.star, .name .nowhere "r"⟩,
        ⟨.keyword "k", .list .nowhere [.subscript .nowhere (.name .nowhere "x")
          (.int .nowhere 0)]⟩])
    (.unary .nowhere .neg (.int .nowhere 3)))

theorem sampleExpr_read :
    let c := Cursor.ofTokens ((sampleExpr.item (fun _ => false) ++ [Token.Kind.newline]).map
      fun k => ⟨k, .nowhere⟩)
    sampleExpr.ArgsInOrder ∧ c.ahead = sampleExpr.item (fun _ => false) ++ .newline :: [.eof] ∧
      Yields Parse.expr c (·.bare = sampleExpr.bare) [.newline, .eof] := by
  have horder : sampleExpr.ArgsInOrder := by
    simp [sampleExpr, Expr.ArgsInOrder, Expr.CallInOrder, Expr.AllInOrder, namesArgument]
  exact ⟨horder, rfl, Parse.expr_reads_written (fun _ => false) horder rfl⟩

end StagedScript
