import StagedScript.Proofs.Parsing.Operators

/-!
# Items in brackets

Lists, the entries of dicts and the arguments of calls are read as what they are written for, up to
the bracket that closes them, if each of them is.
-/

/-!
## Expressions as tokens

An expression is written as tokens with its operands in parentheses, unless these are literals,
names or stand in brackets of their own.  Whatever else is to stand in parentheses can be chosen for
every expression.
-/

namespace StagedScript

open Parse

/-- Tokens in parentheses. -/
def parens (ks : List Token.Kind) : List Token.Kind :=
  .symbol .openParen :: (ks ++ [.symbol .closeParen])

/-- Tokens in parentheses if these are asked for. -/
def grouped (b : Bool) (ks : List Token.Kind) : List Token.Kind := if b then parens ks else ks

/-- What tells how an argument is passed. -/
def ArgRole.words : ArgRole → List Token.Kind
  | positional => []
  | keyword x => [.ident x, .symbol .assign]
  | star => [.symbol .star]
  | starStar => [.symbol .power]

namespace Expr

/-- Whether an expression stands for itself as an operand: it is a literal or a name, or stands in
brackets of its own. -/
def isAtomic : Expr → Bool
  | int .. | float .. | str .. | bool .. | none_ .. | name .. | tuple .. | list .. | dict .. => true
  | binary .. | unary .. | logical .. | compare .. | call .. | attr .. | subscript .. => false

section

variable (extra : Expr → Bool)

mutual

/-- The tokens of an expression, where those that `extra` tells stand in parentheses although they
need none. -/
def written : Expr → List Token.Kind
  | int _ n => [.int n]
  | float _ x => [.float x]
  | str _ text => [.str text]
  | bool _ b => [.keyword (if b then .true_ else .false_)]
  | none_ _ => [.keyword .none_]
  | name _ x => [.ident x]
  | tuple _ items => tupleWord id (writtenItems items)
  | list _ items =>
    .symbol .openBracket :: (withCommas id (writtenItems items) ++ [.symbol .closeBracket])
  | dict _ entries =>
    .symbol .openBrace :: (withCommas id (writtenEntries entries) ++ [.symbol .closeBrace])
  | binary _ op l r =>
      grouped (extra l || !l.isAtomic) (written l) ++ (Connective.binary op).kinds ++
    grouped (extra r || !r.isAtomic) (written r)
  | unary _ op e => op.kind :: grouped (extra e || !e.isAtomic) (written e)
  | logical _ op l r => grouped (extra l || !l.isAtomic) (written l) ++
    (Connective.logical op).kinds ++ grouped (extra r || !r.isAtomic) (written r)
  | compare _ op l r => grouped (extra l || !l.isAtomic) (written l) ++
    (Connective.compare op).kinds ++ grouped (extra r || !r.isAtomic) (written r)
  | call _ f args => grouped (extra f || !f.isAtomic) (written f) ++
    .symbol .openParen :: (withCommas id (writtenArgs args) ++ [.symbol .closeParen])
  | attr _ o x => grouped (extra o || !o.isAtomic) (written o) ++ [.symbol .dot, .ident x]
  | subscript _ o i => grouped (extra o || !o.isAtomic) (written o) ++
    .symbol .openBracket :: (grouped (extra i) (written i) ++ [.symbol .closeBracket])

/-- The tokens of each item. -/
def writtenItems : List Expr → List (List Token.Kind)
  | [] => []
  | e :: es => grouped (extra e) (written e) :: writtenItems es

/-- The tokens of each entry of a dict. -/
def writtenEntries : List (Expr × Expr) → List (List Token.Kind)
  | [] => []
  | (k, v) :: es =>
      (grouped (extra k) (written k) ++ .symbol .colon :: grouped (extra v) (written v)) ::
    writtenEntries es

/-- The tokens of each argument. -/
def writtenArgs : List (Arg Expr) → List (List Token.Kind)
  | [] => []
  | ⟨role, e⟩ :: args => (role.words ++ grouped (extra e) (written e)) :: writtenArgs args

end

/-- The tokens of an expression among others that commas or brackets keep apart. -/
def item (e : Expr) : List Token.Kind := grouped (extra e) (e.written extra)

/-- The tokens of an operand. -/
def operand (e : Expr) : List Token.Kind := grouped (extra e || !e.isAtomic) (e.written extra)

/-- The tokens of an entry of a dict. -/
def entry (kv : Expr × Expr) : List Token.Kind :=
  kv.1.item extra ++ .symbol .colon :: kv.2.item extra

/-- The tokens of an argument. -/
def argument (arg : Arg Expr) : List Token.Kind := arg.role.words ++ arg.value.item extra

end

mutual

/-- In every call, no argument by place stands behind one by name. -/
def ArgsInOrder : Expr → Prop
  | int .. | float .. | str .. | bool .. | none_ .. | name .. => True
  | tuple _ items | list _ items => AllInOrder items
  | dict _ entries => EntriesInOrder entries
  | binary _ _ l r | logical _ _ l r | compare _ _ l r => l.ArgsInOrder ∧ r.ArgsInOrder
  | unary _ _ e => e.ArgsInOrder
  | call _ f args => f.ArgsInOrder ∧ CallInOrder args ∧
    args.Pairwise fun a b => namesArgument a.role = true → b.role ≠ .positional
  | attr _ o _ => o.ArgsInOrder
  | subscript _ o i => o.ArgsInOrder ∧ i.ArgsInOrder

/-- The calls in every one of the expressions have their arguments in order. -/
def AllInOrder : List Expr → Prop
  | [] => True
  | e :: es => e.ArgsInOrder ∧ AllInOrder es

/-- The calls in every key and value have their arguments in order. -/
def EntriesInOrder : List (Expr × Expr) → Prop
  | [] => True
  | (k, v) :: es => k.ArgsInOrder ∧ v.ArgsInOrder ∧ EntriesInOrder es

/-- The calls in every argument have their own arguments in order. -/
def CallInOrder : List (Arg Expr) → Prop
  | [] => True
  | ⟨_, e⟩ :: args => e.ArgsInOrder ∧ CallInOrder args

end

variable (extra : Expr → Bool)

theorem writtenItems_eq (es : List Expr) : writtenItems extra es = es.map (item extra) := by
  induction es with
  | nil => rfl
  | cons e es ih => rw [writtenItems, ih]; rfl

theorem writtenEntries_eq (es : List (Expr × Expr)) :
    writtenEntries extra es = es.map (entry extra) := by
  induction es with
  | nil => rfl
  | cons e es ih => rw [writtenEntries, ih]; rfl

theorem writtenArgs_eq (args : List (Arg Expr)) :
    writtenArgs extra args = args.map (argument extra) := by
  induction args with
  | nil => rfl
  | cons arg args ih => rw [writtenArgs, ih]; rfl

/-- An operand is a name, or starts with a token of another kind that is no sign. -/
theorem operand_head (e : Expr) : (∃ x, e.operand extra = [.ident x]) ∨
    ∃ k ws, e.operand extra = k :: ws ∧ startsExpr k = true ∧ sign? k = none ∧
    ∀ x, k ≠ .ident x := by
  by_cases hgroup : (extra e || !e.isAtomic) = true
  · exact .inr ⟨_, _, by rw [operand, grouped, if_pos hgroup]; rfl, rfl, rfl, by simp⟩
  · have hatomic : e.isAtomic = true := by
      simp only [Bool.or_eq_true, not_or, Bool.not_eq_true, Bool.not_eq_false'] at hgroup
      exact hgroup.2
    have hoperand : e.operand extra = e.written extra := by rw [operand, grouped, if_neg hgroup]
    rw [hoperand]
    cases e
    case name s x => exact .inl ⟨x, rfl⟩
    case bool s b =>
      exact .inr ⟨_, _, by rw [written], by cases b <;> rfl, by cases b <;> rfl, by simp⟩
    case tuple s items =>
      refine .inr ⟨.symbol .openParen, ?_⟩
      rw [written]
      unfold tupleWord
      split <;> exact ⟨_, rfl, rfl, rfl, by simp⟩
    all_goals first
      | exact .inr ⟨_, _, by rw [written], rfl, rfl, by simp⟩
      | cases hatomic

/-- What an expression starts with: a token that it can start with, and not a name in front of an
`=`, which would be the name of an argument. -/
def Opens (ks : List Token.Kind) : Prop :=
  ∃ k l ws, ks = k :: l :: ws ∧ startsExpr k = true ∧ ∀ x, k = .ident x → l ≠ .symbol .assign

theorem Opens.of_ne_ident {k : Token.Kind} (hk : startsExpr k = true) (hident : ∀ x, k ≠ .ident x)
    (ws : List Token.Kind) (l : Token.Kind) (rest : List Token.Kind) :
    Opens ((k :: ws) ++ l :: rest) := by
  obtain ⟨l', ws', hws⟩ : ∃ l' ws', ws ++ l :: rest = l' :: ws' :=
    List.exists_cons_of_ne_nil (by simp)
  exact ⟨k, l', ws', by rw [List.cons_append, hws], hk, fun x hx => absurd hx (hident x)⟩

variable {l : Token.Kind} (hl : l ≠ .symbol .assign) (rest : List Token.Kind)
include hl

theorem operand_opens (e : Expr) : Opens (e.operand extra ++ l :: rest) := by
  rcases e.operand_head extra with ⟨x, hx⟩ | ⟨k, ws, hk, hstart, -, hident⟩
  · exact ⟨.ident x, l, rest, by rw [hx]; rfl, rfl, fun _ _ => hl⟩
  · rw [hk]
    exact .of_ne_ident hstart hident _ _ _

theorem written_opens (e : Expr) : Opens (e.written extra ++ l :: rest) := by
  -- What starts with an operand starts as the operand does, and behind that stands no `=`.
  have hjoined (o : Expr) (op : Connective) (ws : List Token.Kind) :
      Opens ((o.operand extra ++ op.kinds ++ ws) ++ l :: rest) := by
    obtain ⟨k, ks, hk, hne⟩ := op.kinds_cons
    rw [hk, List.append_assoc, List.append_assoc]
    exact o.operand_opens extra hne.1 _
  have hbehind (o : Expr) {k : Token.Kind} (hk : k ≠ .symbol .assign) (ws : List Token.Kind) :
      Opens ((o.operand extra ++ k :: ws) ++ l :: rest) := by
    rw [List.append_assoc]
    exact o.operand_opens extra hk _
  cases e with
  | binary s op a b => rw [written]; exact hjoined a _ _
  | logical s op a b => rw [written]; exact hjoined a _ _
  | compare s op a b => rw [written]; exact hjoined a _ _
  | call s f args => rw [written]; exact hbehind f (by simp) _
  | attr s o x => rw [written]; exact hbehind o (by simp) _
  | subscript s o i => rw [written]; exact hbehind o (by simp) _
  | unary s op a =>
    rw [written]
    exact .of_ne_ident (by cases op <;> rfl) (by cases op <;> simp [UnaryOp.kind]) _ _ _
  | name s x => exact ⟨.ident x, l, rest, by rw [written]; rfl, rfl, fun _ _ => hl⟩
  | bool s b =>
    rw [written]
    exact .of_ne_ident (by cases b <;> rfl) (by simp) _ _ _
  | tuple s items =>
    rw [written]
    unfold tupleWord
    split <;> exact .of_ne_ident rfl (by simp) _ _ _
  | _ => rw [written]; exact .of_ne_ident rfl (by simp) _ _ _

theorem item_opens (e : Expr) : Opens (e.item extra ++ l :: rest) := by
  rw [item, grouped]
  split
  · exact .of_ne_ident rfl (by simp) _ _ _
  · exact e.written_opens extra hl rest

omit hl

/-- What opens an expression in front of the end of a line belongs to the expression. -/
theorem Opens.head {ks : List Token.Kind} (h : Opens (ks ++ [.newline])) :
    ∃ k ws, ks = k :: ws ∧ startsExpr k = true := by
  obtain ⟨k, l, ws, hks, hk, -⟩ := h
  cases ks with
  | nil =>
    obtain ⟨rfl, -⟩ := List.cons.inj hks
    cases hk
  | cons k' ws' =>
    obtain ⟨rfl, -⟩ := List.cons.inj hks
    exact ⟨_, _, rfl, hk⟩

theorem written_head (e : Expr) : ∃ k ws, e.written extra = k :: ws ∧ startsExpr k = true :=
  (e.written_opens extra (by simp) []).head

theorem item_head (e : Expr) : ∃ k ws, e.item extra = k :: ws ∧ startsExpr k = true :=
  (e.item_opens extra (by simp) []).head

end Expr

open Parse

namespace Expr

/-! Items are the same with their spans changed if each of them is. -/

theorem mapSpans_eq {f g : Span → Span} {xs ys : List Expr}
    (h : List.Forall₂ (fun x y => y.mapSpan g = x.mapSpan f) xs ys) :
    mapSpans g ys = mapSpans f xs := by
  induction h with
  | nil => rfl
  | cons hxy _ ih => exact congrArg₂ List.cons hxy ih

theorem mapEntrySpans_eq {f g : Span → Span} {xs ys : List (Expr × Expr)}
    (h : List.Forall₂ (fun x y => y.1.mapSpan g = x.1.mapSpan f ∧ y.2.mapSpan g = x.2.mapSpan f)
      xs ys) : mapEntrySpans g ys = mapEntrySpans f xs := by
  induction h with
  | nil => rfl
  | cons hxy _ ih => exact congrArg₂ List.cons (Prod.ext hxy.1 hxy.2) ih

theorem mapArgSpans_eq {f g : Span → Span} {xs ys : List (Arg Expr)}
    (h : List.Forall₂ (fun x y => y.role = x.role ∧ y.value.mapSpan g = x.value.mapSpan f) xs ys) :
    mapArgSpans g ys = mapArgSpans f xs := by
  induction h with
  | nil => rfl
  | cons hxy _ ih => exact congrArg₂ List.cons (congrArg₂ Arg.mk hxy.1 hxy.2) ih

end Expr

section

variable {extra : Expr → Bool} {sub : Nat → Parse Expr} {c : Cursor} {ks : List Token.Kind}

theorem withCommas_map {α : Type} (word : α → List Token.Kind) (xs : List α) :
    withCommas id (xs.map word) = withCommas word xs := by
  induction xs with
  | nil => rfl
  | cons x xs ih =>
    by_cases hxs : xs = []
    · subst hxs
      rfl
    · rw [List.map_cons, withCommas_cons _ _ (by simpa using hxs), withCommas_cons _ _ hxs, ih]
      rfl

theorem tupleWord_map {α : Type} (word : α → List Token.Kind) (xs : List α) :
    tupleWord id (xs.map word) = tupleWord word xs := by
  rcases xs with _ | ⟨x, _ | ⟨y, ys⟩⟩
  · rfl
  · rfl
  · simp only [tupleWord, List.map_cons]
    rw [← List.map_cons, ← List.map_cons, withCommas_map]

theorem length_le_of_mem {α : Type} (word : α → List Token.Kind) {x : α} {xs : List α}
    (hx : x ∈ xs) :
    (word x).length ≤ (withCommas word xs).length := by
  induction xs with
  | nil => exact absurd hx (List.not_mem_nil)
  | cons y ys ih =>
    by_cases hys : ys = []
    · subst hys
      rw [List.mem_singleton.1 hx]
      exact Nat.le_refl _
    · rw [withCommas_cons _ _ hys, List.length_append, List.length_cons]
      rcases List.mem_cons.1 hx with rfl | hx
      · omega
      · have := ih hx
        omega

theorem length_lt_tupleWord {α : Type} (word : α → List Token.Kind) {x : α} {xs : List α}
    (hx : x ∈ xs) : (word x).length + 1 < (tupleWord word xs).length := by
  rcases xs with _ | ⟨y, _ | ⟨z, zs⟩⟩
  · exact absurd hx (List.not_mem_nil)
  · rw [List.mem_singleton.1 hx]
    simp [tupleWord]
  · have hle := length_le_of_mem word hx
    simp only [tupleWord, List.length_cons, List.length_append] at hle ⊢
    omega

/-- A list in brackets is read as an operand. -/
theorem Yields.listOperand {α : Type} {word : α → List Token.Kind} {P : α → Expr → Prop}
    {xs : List α} (hsub : ∀ x ∈ xs, ReadsItem sub (word x) (P x))
    (hword : ∀ x ∈ xs, ∃ k ws, word x = k :: ws ∧ startsExpr k = true)
    (h : c.ahead = .symbol .openBracket :: (withCommas word xs ++ .symbol .closeBracket :: ks)) :
    Yields (operand sub) c (fun e => ∃ span es, e = .list span es ∧ List.Forall₂ P xs es) ks := by
  unfold operand
  refine .get ?_
  dsimp only
  rw [Cursor.kind_of_ahead h]
  refine .advance h (by simp) fun c₂ hc₂ => .rounds fun n hn => ?_
  have hnil (x : α) (hx : x ∈ xs) : word x ≠ [] := by
    obtain ⟨m, ms, hm, -⟩ := hword x hx
    simp [hm]
  have hlen : xs.length < n := length_lt_of_ahead hnil hc₂ hn
  refine (Yields.commaList hsub hword rfl hlen hc₂).bind fun es c₃ hes hc₃ => ?_
  exact .expect hc₃ rfl (by simp) fun c₄ hc₄ => .spanFrom _ fun span =>
    .pure ⟨span, es, rfl, hes⟩ hc₄

/-- Entries with commas between them are read up to the closing brace. -/
theorem Yields.entries {xs : List (Expr × Expr)}
    (hkeys : ∀ x ∈ xs, ReadsItem sub (x.1.item extra) (·.bare = x.1.bare))
    (hvalues : ∀ x ∈ xs, ReadsItem sub (x.2.item extra) (·.bare = x.2.bare)) {n : Nat}
    (hn : xs.length < n)
    (h : c.ahead = withCommas (Expr.entry extra) xs ++ .symbol .closeBrace :: ks) :
    Yields (Parse.entries sub n) c
      (List.Forall₂ (fun x y => y.1.bare = x.1.bare ∧ y.2.bare = x.2.bare) xs)
      (.symbol .closeBrace :: ks) := by
  induction xs generalizing c n with
  | nil =>
    obtain ⟨n, rfl⟩ : ∃ m, n = m + 1 := ⟨n - 1, by omega⟩
    unfold Parse.entries
    refine .get ?_
    rw [Cursor.sees_of_ahead h]
    exact .pure .nil h
  | cons x xs ih =>
    obtain ⟨n, rfl⟩ : ∃ m, n = m + 1 := ⟨n - 1, by omega⟩
    obtain ⟨k, ws, hx, hk⟩ := x.1.item_head extra
    -- A comma or the closing brace stands behind the entry.
    obtain ⟨l, ls, hl, hends⟩ : ∃ l ls, c.ahead = Expr.entry extra x ++ l :: ls ∧
        (xs = [] ∧ l = .symbol .closeBrace ∧ ls = ks ∨
          xs ≠ [] ∧ l = .symbol .comma ∧
            ls = withCommas (Expr.entry extra) xs ++ .symbol .closeBrace :: ks) := by
      by_cases hxs : xs = []
      · subst hxs
        exact ⟨_, _, h, .inl ⟨rfl, rfl, rfl⟩⟩
      · rw [withCommas_cons _ _ hxs, List.append_assoc] at h
        exact ⟨_, _, h, .inr ⟨hxs, rfl, rfl⟩⟩
    have hkey : c.ahead = x.1.item extra ++ .symbol .colon :: (x.2.item extra ++ l :: ls) := by
      rw [hl, Expr.entry, List.append_assoc, List.cons_append]
    have hstart : c.ahead = k :: (ws ++ .symbol .colon :: (x.2.item extra ++ l :: ls)) := by
      rw [hkey, hx, List.cons_append]
    have hlends : l.Ends := by
      rcases hends with ⟨-, rfl, -⟩ | ⟨-, rfl, -⟩
      · exact .of_closes rfl
      · exact .comma
    unfold Parse.entries
    refine .get ?_
    rw [Cursor.atEnd, Cursor.sees_of_ahead hstart, Cursor.sees_of_ahead hstart,
      Token.Kind.alike_of_startsExpr hk rfl, Token.Kind.alike_of_startsExpr hk rfl,
      if_neg (by simp)]
    refine (hkeys x (by simp) c _ _ .colon hkey).bind fun key c₂ hkey' hc₂ => ?_
    refine .expect hc₂ rfl (by simp) fun c₃ hc₃ => ?_
    refine (hvalues x (by simp) c₃ _ _ hlends hc₃).bind fun value c₄ hvalue' hc₄ => ?_
    rcases hends with ⟨rfl, rfl, rfl⟩ | ⟨hxs, rfl, rfl⟩
    · refine .reject hc₄ rfl ?_
      exact .pure (.cons ⟨hkey', hvalue'⟩ .nil) hc₄
    · refine .accept hc₄ rfl (by simp) fun c₅ hc₅ => ?_
      rw [if_pos rfl]
      refine (ih (fun y hy => hkeys y (by simp [hy])) (fun y hy => hvalues y (by simp [hy]))
        (by simpa using hn) hc₅).bind fun es c₆ hes hc₆ => ?_
      exact .pure (.cons ⟨hkey', hvalue'⟩ hes) hc₆

/-- An argument is read as it is passed. -/
theorem Yields.argument {arg : Arg Expr} {named : Bool} {k : Token.Kind}
    (hsub : ReadsItem sub (arg.value.item extra) (·.bare = arg.value.bare))
    (hnamed : named = true → arg.role ≠ .positional) (hk : k.Ends) (hassign : k ≠ .symbol .assign)
    (h : c.ahead = Expr.argument extra arg ++ k :: ks) :
    Yields (Parse.argument sub named) c
      (fun a => a.role = arg.role ∧ a.value.bare = arg.value.bare) (k :: ks) := by
  obtain ⟨role, e⟩ := arg
  unfold Parse.argument
  refine .get ?_
  cases role with
  | positional =>
    -- The two tokens ahead tell that the argument has no name, whatever it is followed by.
    obtain ⟨l, m, ws, hl, hstart, hident⟩ := e.item_opens extra hassign ks
    have hc : c.ahead = l :: m :: ws := by
      rw [← hl]
      exact h
    rw [Cursor.kind_of_ahead hc, Cursor.following_of_ahead hc]
    split
    · cases hstart
    · cases hstart
    · next x => exact absurd rfl (hident x rfl)
    · have hplain : named = false := by
        cases named with
        | false => rfl
        | true => exact absurd rfl (hnamed rfl)
      rw [hplain, if_neg Bool.false_ne_true]
      exact (hsub c k ks hk h).bind fun a c' ha hc' => .pure ⟨rfl, ha⟩ hc'
  | keyword x =>
    rw [Cursor.kind_of_ahead h, Cursor.following_of_ahead h]
    refine .advance h (by simp) fun c₂ hc₂ => .advance hc₂ (by simp) fun c₃ hc₃ => ?_
    exact (hsub c₃ k ks hk hc₃).bind fun a c' ha hc' => .pure ⟨rfl, ha⟩ hc'
  | star =>
    rw [Cursor.kind_of_ahead h]
    refine .advance h (by simp) fun c₂ hc₂ => ?_
    exact (hsub c₂ k ks hk hc₂).bind fun a c' ha hc' => .pure ⟨rfl, ha⟩ hc'
  | starStar =>
    rw [Cursor.kind_of_ahead h]
    refine .advance h (by simp) fun c₂ hc₂ => ?_
    exact (hsub c₂ k ks hk hc₂).bind fun a c' ha hc' => .pure ⟨rfl, ha⟩ hc'

theorem argument_head (extra : Expr → Bool) (arg : Arg Expr) :
    ∃ k ws, Expr.argument extra arg = k :: ws ∧ k.alike (.symbol .closeParen) = false ∧
      k.alike .eof = false := by
  obtain ⟨role, e⟩ := arg
  cases role with
  | positional =>
    obtain ⟨k, ws, he, hk⟩ := e.item_head extra
    exact ⟨k, ws, he, Token.Kind.alike_of_startsExpr hk rfl, Token.Kind.alike_of_startsExpr hk rfl⟩
  | keyword x => exact ⟨_, _, rfl, rfl, rfl⟩
  | star => exact ⟨_, _, rfl, rfl, rfl⟩
  | starStar => exact ⟨_, _, rfl, rfl, rfl⟩

/-- Arguments with commas between them are read up to the closing parenthesis. -/
theorem Yields.arguments {args : List (Arg Expr)}
    (hsub : ∀ a ∈ args, ReadsItem sub (a.value.item extra) (·.bare = a.value.bare))
    (horder : args.Pairwise fun a b => namesArgument a.role = true → b.role ≠ .positional)
    {named : Bool} (hnamed : named = true → ∀ a ∈ args, a.role ≠ .positional) {n : Nat}
    (hn : args.length < n)
    (h : c.ahead = withCommas (Expr.argument extra) args ++ .symbol .closeParen :: ks) :
    Yields (Parse.arguments sub n named) c
      (List.Forall₂ (fun x y => y.role = x.role ∧ y.value.bare = x.value.bare) args)
      (.symbol .closeParen :: ks) := by
  induction args generalizing c n named with
  | nil =>
    obtain ⟨n, rfl⟩ : ∃ m, n = m + 1 := ⟨n - 1, by omega⟩
    unfold Parse.arguments
    refine .get ?_
    rw [Cursor.sees_of_ahead h]
    exact .pure .nil h
  | cons a args ih =>
    obtain ⟨n, rfl⟩ : ∃ m, n = m + 1 := ⟨n - 1, by omega⟩
    obtain ⟨k, ws, ha, hclose, heof⟩ := argument_head extra a
    obtain ⟨hfirst, horder⟩ := List.pairwise_cons.1 horder
    have hread {l : Token.Kind} {ls : List Token.Kind} (hl : l.Ends) (hassign : l ≠ .symbol .assign)
        (hc : c.ahead = Expr.argument extra a ++ l :: ls) :=
      Yields.argument (hsub a (by simp)) (fun h => hnamed h a (by simp)) hl hassign hc
    have hstart : ∃ ls, c.ahead = k :: ls := by
      by_cases hargs : args = []
      · subst hargs
        exact ⟨_, by rw [h, withCommas, ha]; rfl⟩
      · exact ⟨_, by rw [h, withCommas_cons _ _ hargs, ha]; rfl⟩
    obtain ⟨ls, hls⟩ := hstart
    unfold Parse.arguments
    refine .get ?_
    rw [Cursor.atEnd, Cursor.sees_of_ahead hls, Cursor.sees_of_ahead hls, hclose, heof,
      if_neg (by simp)]
    by_cases hargs : args = []
    · subst hargs
      refine (hread (.of_closes rfl) (by simp) h).bind fun a' c₂ ha' hc₂ => .reject hc₂ rfl ?_
      exact .pure (.cons ha' .nil) hc₂
    · rw [withCommas_cons _ _ hargs, List.append_assoc] at h
      refine (hread .comma (by simp) h).bind fun a' c₂ ha' hc₂ =>
        .accept hc₂ rfl (by simp) fun c₃ hc₃ => ?_
      rw [if_pos rfl]
      refine (ih (fun b hb => hsub b (by simp [hb])) horder ?_ (by simpa using hn) hc₃).bind
        fun as c₄ has hc₄ => .pure (.cons ha' has) hc₄
      -- Behind an argument by name there is none by place, and it may have been this one.
      intro hor b hb
      rcases Bool.or_eq_true_iff.1 hor with hor | hor
      · exact hnamed hor b (by simp [hb])
      · exact hfirst b hb (ha'.1 ▸ hor)

end

end StagedScript
