import Mathlib.Data.List.Forall2
import StagedScript.Proofs.Parsing.Yields

/-!
# Reading simple expressions

Literals, names, tuples of these and calls with one of these are read as what they are, in front of
a token that no expression goes on with.
-/

namespace StagedScript

open Parse

/-! ## Operands of one token -/

section

variable {sub : Nat → Parse Expr} {c : Cursor} {k : Token.Kind} {ks : List Token.Kind}

theorem Yields.intOperand {n : Int64} (h : c.ahead = .int n :: ks) :
    Yields (operand sub) c (fun e => ∃ span, e = .int span n) ks := by
  unfold operand
  refine .get ?_
  dsimp only
  rw [Cursor.kind_of_ahead h]
  exact .advance h (by simp) fun c' hc' => .spanFrom _ fun span => .pure ⟨span, rfl⟩ hc'

theorem Yields.floatOperand {x : Float} (h : c.ahead = .float x :: ks) :
    Yields (operand sub) c (fun e => ∃ span, e = .float span x) ks := by
  unfold operand
  refine .get ?_
  dsimp only
  rw [Cursor.kind_of_ahead h]
  exact .advance h (by simp) fun c' hc' => .spanFrom _ fun span => .pure ⟨span, rfl⟩ hc'

theorem Yields.nameOperand {x : String} (h : c.ahead = .ident x :: ks) :
    Yields (operand sub) c (fun e => ∃ span, e = .name span x) ks := by
  unfold operand
  refine .get ?_
  dsimp only
  rw [Cursor.kind_of_ahead h]
  exact .advance h (by simp) fun c' hc' => .spanFrom _ fun span => .pure ⟨span, rfl⟩ hc'

theorem Yields.boolOperand {b : Bool}
    (h : c.ahead = .keyword (if b then .true_ else .false_) :: ks) :
    Yields (operand sub) c (fun e => ∃ span, e = .bool span b) ks := by
  unfold operand
  refine .get ?_
  dsimp only
  rw [Cursor.kind_of_ahead h]
  cases b with
  | false => exact .advance h (by simp) fun c' hc' => .spanFrom _ fun span => .pure ⟨span, rfl⟩ hc'
  | true => exact .advance h (by simp) fun c' hc' => .spanFrom _ fun span => .pure ⟨span, rfl⟩ hc'

theorem Yields.noneOperand (h : c.ahead = .keyword .none_ :: ks) :
    Yields (operand sub) c (fun e => ∃ span, e = .none_ span) ks := by
  unfold operand
  refine .get ?_
  dsimp only
  rw [Cursor.kind_of_ahead h]
  exact .advance h (by simp) fun c' hc' => .spanFrom _ fun span => .pure ⟨span, rfl⟩ hc'

/-- A string literal is read up to a token that is none. -/
theorem Yields.textOperand {text : String} (h : c.ahead = .str text :: k :: ks)
    (hk : ∀ t, k ≠ .str t) :
    Yields (operand sub) c (fun e => ∃ span, e = .str span text) (k :: ks) := by
  unfold operand
  refine .get ?_
  dsimp only
  rw [Cursor.kind_of_ahead h]
  refine .advance h (by simp) fun c' hc' => .rounds fun n hn => ?_
  obtain ⟨n, rfl⟩ : ∃ m, n = m + 1 := ⟨n - 1, by omega⟩
  have hmore : Yields (moreStrings (n + 1) text) c' (· = text) (k :: ks) := by
    unfold moreStrings
    refine .kind hc' ?_
    split
    · next t => exact absurd rfl (hk t)
    · exact .pure rfl hc'
  exact hmore.bind fun t c'' ht hc'' => .spanFrom _ fun span => .pure ⟨span, by rw [ht]⟩ hc''

/-- Behind a sign its operand is read. -/
theorem Yields.signOperand {op : UnaryOp} {strength : Nat} {ls : List Token.Kind} {Q : Expr → Prop}
    (h : c.ahead = k :: ls) (hk : sign? k = some (op, strength))
    (hsub : ∀ c' : Cursor, c'.ahead = ls → Yields (sub strength) c' Q ks) :
    Yields (operand sub) c (fun e => ∃ span x, e = .unary span op x ∧ Q x) ks := by
  unfold sign? at hk
  split at hk
  all_goals cases hk
  all_goals
    unfold operand
    refine .get ?_
    dsimp only
    rw [Cursor.kind_of_ahead h]
    refine .advance h (by simp) fun c' hc' => (hsub c' hc').bind fun x c'' hx hc'' => ?_
    exact .spanFrom _ fun span => .pure ⟨span, x, rfl, hx⟩ hc''

end

/-! ## Expressions in front of their end -/

/-- No expression goes on with the token. -/
structure Token.Kind.Ends (k : Token.Kind) : Prop where
  trailer : startsTrailer k = false
  connective : ∀ l, Connective.ofKinds? k l = none
  text : ∀ t, k ≠ .str t

/-- In front of a token that no expression goes on with, the tokens are read as an expression with a
property, however strongly it is bound. -/
def ReadsExpr (sub : Nat → Parse Expr) (word : List Token.Kind) (P : Expr → Prop) : Prop :=
  ∀ (least : Nat) (c : Cursor) (k : Token.Kind) (ks : List Token.Kind), k.Ends →
    c.ahead = word ++ k :: ks → Yields (sub least) c P (k :: ks)

/-- In front of a token that no expression goes on with, the tokens are read as an expression with a
property where the operators of the expression may bind as weakly as they like. -/
def ReadsItem (sub : Nat → Parse Expr) (word : List Token.Kind) (P : Expr → Prop) : Prop :=
  ∀ (c : Cursor) (k : Token.Kind) (ks : List Token.Kind), k.Ends →
    c.ahead = word ++ k :: ks → Yields (sub 0) c P (k :: ks)

theorem ReadsExpr.item {sub : Nat → Parse Expr} {word : List Token.Kind} {P : Expr → Prop}
    (h : ReadsExpr sub word P) : ReadsItem sub word P := h 0

/-- The tokens are read as an expression with a property where it may nest more deeply than there
are tokens. -/
def ReadsWhole (word : List Token.Kind) (P : Expr → Prop) : Prop :=
  ∀ depth, word.length < depth → ReadsItem (exprWithin depth) word P

theorem ReadsWhole.of_expr {word : List Token.Kind} {P : Expr → Prop}
    (h : ∀ depth, ReadsExpr (exprWithin (depth + 2)) word P) (hword : word ≠ []) :
    ReadsWhole word P := by
  intro depth hd
  have hpos : 0 < word.length := List.length_pos_of_ne_nil hword
  obtain ⟨depth, rfl⟩ : ∃ n, depth = n + 2 := ⟨depth - 2, by omega⟩
  exact (h depth).item

namespace ReadsExpr

variable {sub : Nat → Parse Expr} {P : Expr → Prop} {k : Token.Kind} {ks : List Token.Kind}

/-- Behind an operand nothing more is read in front of such a token. -/
theorem continuation (hk : k.Ends) {c : Cursor} (h : c.ahead = k :: ks) {e : Expr} (he : P e)
    (start least n : Nat) (compared : Bool) :
    Yields (Parse.continuation sub start least n e compared) c P (k :: ks) := by
  cases n with
  | zero => exact .pure he h
  | succ n =>
    unfold Parse.continuation
    refine .get ?_
    rw [Cursor.kind_of_ahead h, hk.trailer, if_neg Bool.false_ne_true, hk.connective]
    exact .pure he h

theorem of_operand {word : List Token.Kind} {depth : Nat}
    (h : ∀ c k ks, k.Ends → c.ahead = word ++ k :: ks →
      Yields (operand (exprWithin depth)) c P (k :: ks)) :
    ReadsExpr (exprWithin (depth + 1)) word P := by
  intro least c k ks hk hc
  unfold exprWithin
  refine .here fun span => (h c k ks hk hc).bind fun e c' he hc' => ?_
  exact .rounds fun n _ => continuation hk hc' he _ _ _ _

theorem name (x : String) (depth : Nat) :
    ReadsExpr (exprWithin (depth + 1)) [.ident x] (fun e => ∃ span, e = .name span x) :=
  of_operand fun _ _ _ _ h => .nameOperand h

theorem int (n : Int64) (depth : Nat) :
    ReadsExpr (exprWithin (depth + 1)) [.int n] (fun e => ∃ span, e = .int span n) :=
  of_operand fun _ _ _ _ h => .intOperand h

theorem str (text : String) (depth : Nat) :
    ReadsExpr (exprWithin (depth + 1)) [.str text] (fun e => ∃ span, e = .str span text) :=
  of_operand fun _ _ _ hk h => .textOperand h hk.text

/-- A name that is called with one argument that is no name and starts with no star. -/
theorem call {depth : Nat} {word : List Token.Kind} {Q : Expr → Prop} (f : String)
    (hword : ReadsExpr (exprWithin depth) word Q)
    (hfirst : ∃ l ws, word = l :: ws ∧ l.alike (.symbol .closeParen) = false ∧
      l.alike .eof = false ∧ l ≠ .symbol .power ∧ l ≠ .symbol .star ∧ ∀ x, l ≠ .ident x) :
    ReadsExpr (exprWithin (depth + 1))
    (.ident f :: .symbol .openParen :: (word ++ [.symbol .closeParen]))
      (fun e => ∃ span spanName arg,
        e = .call span (.name spanName f) [⟨.positional, arg⟩] ∧ Q arg) := by
  intro least c k ks hk hc
  obtain ⟨l, ws, hl, hclose, heof, hpower, hstar, hident⟩ := hfirst
  unfold exprWithin
  refine .here fun span => ?_
  have hname : Yields (operand (exprWithin depth)) c (fun e => ∃ span, e = .name span f)
      (.symbol .openParen :: (word ++ .symbol .closeParen :: k :: ks)) := by
    unfold operand
    refine .get ?_
    dsimp only
    rw [Cursor.kind_of_ahead hc]
    refine .advance hc (by simp) fun c' hc' => .spanFrom _ fun span => .pure ⟨span, rfl⟩ ?_
    rw [hc']
    simp
  refine hname.bind fun e c' he hc' => ?_
  obtain ⟨spanName, rfl⟩ := he
  refine .rounds fun n hn => ?_
  obtain ⟨n, rfl⟩ : ∃ m, n = m + 1 := ⟨n - 1, by omega⟩
  unfold Parse.continuation
  refine .get ?_
  rw [Cursor.kind_of_ahead hc', if_pos (show startsTrailer (.symbol .openParen) = true from rfl)]
  -- The trailer is the parentheses with the argument in them.
  have htrailer : Yields (trailer (exprWithin depth) (.name spanName f)) c'
      (fun e => ∃ span spanName arg,
        e = .call span (.name spanName f) [⟨.positional, arg⟩] ∧ Q arg) (k :: ks) := by
    unfold trailer
    refine .kind hc' (.advance hc' (by simp) fun c₂ hc₂ => .rounds fun m hm => ?_)
    obtain ⟨m, rfl⟩ : ∃ i, m = i + 1 := ⟨m - 1, by omega⟩
    have harguments : Yields (arguments (exprWithin depth) (m + 1) false) c₂
        (fun args => ∃ arg, args = [⟨.positional, arg⟩] ∧ Q arg)
        (.symbol .closeParen :: k :: ks) := by
      have hc₂' := hc₂
      rw [hl, List.cons_append] at hc₂'
      unfold arguments
      refine .get ?_
      rw [Cursor.atEnd, Cursor.sees_of_ahead hc₂', Cursor.sees_of_ahead hc₂', hclose, heof,
        if_neg (by simp)]
      have hargument : Yields (argument (exprWithin depth) false) c₂
          (fun arg => ∃ e, arg = ⟨.positional, e⟩ ∧ Q e) (.symbol .closeParen :: k :: ks) := by
        unfold argument
        refine .get ?_
        rw [Cursor.kind_of_ahead hc₂']
        split
        · exact absurd rfl hpower
        · exact absurd rfl hstar
        · exact absurd rfl (hident _)
        · rw [if_neg Bool.false_ne_true]
          refine (hword 0 c₂ _ _ ⟨rfl, fun _ => rfl, by simp⟩ hc₂).bind fun e c₃ he hc₃ => ?_
          exact .pure ⟨e, rfl, he⟩ hc₃
      refine hargument.bind fun arg c₃ harg hc₃ => ?_
      obtain ⟨e, rfl, he⟩ := harg
      refine .reject hc₃ rfl ?_
      exact .pure ⟨e, rfl, he⟩ hc₃
    refine harguments.bind fun args c₃ hargs hc₃ => ?_
    obtain ⟨arg, rfl, harg⟩ := hargs
    refine .expect hc₃ rfl (by simp) fun c₄ hc₄ => .spanFrom _ fun span => ?_
    exact .pure ⟨span, spanName, arg, rfl, harg⟩ hc₄
  exact htrailer.bind fun e c₂ he hc₂ => continuation hk hc₂ he _ _ _ _

end ReadsExpr

/-! ## Several expressions -/

/-- The tokens of several things with commas between them. -/
def withCommas {α : Type} (word : α → List Token.Kind) : List α → List Token.Kind
  | [] => []
  | [x] => word x
  | x :: xs => word x ++ .symbol .comma :: withCommas word xs

theorem withCommas_cons {α : Type} (word : α → List Token.Kind) (x : α) {xs : List α}
    (h : xs ≠ []) :
    withCommas word (x :: xs) = word x ++ .symbol .comma :: withCommas word xs := by
  cases xs with
  | nil => exact absurd rfl h
  | cons y ys => rfl

/-- There are at least as many tokens as things, for nothing is written with no token. -/
theorem length_le_withCommas {α : Type} (word : α → List Token.Kind) (xs : List α)
    (hword : ∀ x ∈ xs, word x ≠ []) : xs.length ≤ (withCommas word xs).length := by
  induction xs with
  | nil => exact Nat.zero_le _
  | cons x xs ih =>
    have hx : 0 < (word x).length := List.length_pos_of_ne_nil (hword x (by simp))
    have ih := ih fun y hy => hword y (by simp [hy])
    by_cases hxs : xs = []
    · subst hxs
      exact hx
    · rw [withCommas_cons word x hxs, List.length_append, List.length_cons, List.length_cons]
      omega

/-- What bounds the tokens ahead bounds the number of things that they start with. -/
theorem length_lt_of_ahead {α : Type} {word : α → List Token.Kind} {xs : List α}
    (hword : ∀ x ∈ xs, word x ≠ []) {c : Cursor} {ks : List Token.Kind}
    (hc : c.ahead = withCommas word xs ++ ks) {n : Nat} (hn : c.ahead.length < n) :
    xs.length < n := by
  have hwords := length_le_withCommas word xs hword
  rw [hc, List.length_append] at hn
  omega

/-- A token that an expression can start with is no token that it cannot start with. -/
theorem Token.Kind.alike_of_startsExpr {k l : Token.Kind} (hk : startsExpr k = true)
    (hl : startsExpr l = false) : k.alike l = false := by
  have hkeyword (a b : Keyword) (ha : startsExpr (.keyword a) = true)
      (hb : startsExpr (.keyword b) = false) : (a == b) = false := by
    refine beq_eq_false_iff_ne.2 ?_
    rintro rfl
    rw [ha] at hb
    cases hb
  have hsymbol (a b : Symbol) (ha : startsExpr (.symbol a) = true)
      (hb : startsExpr (.symbol b) = false) : (a == b) = false := by
    refine beq_eq_false_iff_ne.2 ?_
    rintro rfl
    rw [ha] at hb
    cases hb
  cases k <;> cases l
  case keyword.keyword a b => exact hkeyword a b hk hl
  case symbol.symbol a b => exact hsymbol a b hk hl
  case int.int => cases hl
  case float.float => cases hl
  case str.str => cases hl
  case ident.ident => cases hl
  all_goals first
    | rfl
    | cases hk

theorem Token.Kind.Ends.comma : (Token.Kind.symbol .comma).Ends := ⟨rfl, fun _ => rfl, by simp⟩

theorem Token.Kind.Ends.colon : (Token.Kind.symbol .colon).Ends := ⟨rfl, fun _ => rfl, by simp⟩

theorem Token.Kind.Ends.assign : (Token.Kind.symbol .assign).Ends := ⟨rfl, fun _ => rfl, by simp⟩

theorem Token.Kind.Ends.newline : Token.Kind.newline.Ends := ⟨rfl, fun _ => rfl, by simp⟩

/-- No expression goes on with a closing bracket. -/
theorem Token.Kind.Ends.of_closes {s : Symbol} (hs : s.closes = true) :
    (Token.Kind.symbol s).Ends := by
  cases s
  case closeParen => exact ⟨rfl, fun _ => rfl, by simp⟩
  case closeBracket => exact ⟨rfl, fun _ => rfl, by simp⟩
  case closeBrace => exact ⟨rfl, fun _ => rfl, by simp⟩
  all_goals cases hs

/-- A closing bracket is told from a comma and from what an expression starts with. -/
theorem Symbol.closes_cases {s : Symbol} (hs : s.closes = true) :
    startsExpr (.symbol s) = false ∧ (Token.Kind.symbol s).alike (.symbol .comma) = false := by
  cases s
  case closeParen => exact ⟨rfl, rfl⟩
  case closeBracket => exact ⟨rfl, rfl⟩
  case closeBrace => exact ⟨rfl, rfl⟩
  all_goals cases hs

section

variable {α : Type} {sub : Nat → Parse Expr} {word : α → List Token.Kind} {P : α → Expr → Prop}
  {ks : List Token.Kind} {xs : List α}

/-- Expressions with commas between them are read up to the closing bracket.  No expression starts
with one. -/
theorem Yields.commaList (hsub : ∀ x ∈ xs, ReadsItem sub (word x) (P x))
    (hword : ∀ x ∈ xs, ∃ k ws, word x = k :: ws ∧ startsExpr k = true) {s : Symbol}
    (hs : s.closes = true) {c : Cursor} {n : Nat} (hn : xs.length < n)
    (h : c.ahead = withCommas word xs ++ .symbol s :: ks) :
    Yields (Parse.commaList sub (.symbol s) n) c
      (fun es => List.Forall₂ P xs es) (.symbol s :: ks) := by
  obtain ⟨hclose, hcomma⟩ := Symbol.closes_cases hs
  induction xs generalizing c n with
  | nil =>
    obtain ⟨n, rfl⟩ : ∃ m, n = m + 1 := ⟨n - 1, by omega⟩
    unfold Parse.commaList
    refine .get ?_
    rw [Cursor.sees_of_ahead h, if_pos (by simp [Token.Kind.alike])]
    exact .pure .nil h
  | cons x xs ih =>
    obtain ⟨n, rfl⟩ : ∃ m, n = m + 1 := ⟨n - 1, by omega⟩
    obtain ⟨k, ws, hx, hk⟩ := hword x (by simp)
    have hstart : ∃ ls, c.ahead = k :: ls := by
      cases xs with
      | nil => exact ⟨_, by rw [h, withCommas, hx]; rfl⟩
      | cons y ys => exact ⟨_, by rw [h, withCommas_cons word x (by simp), hx]; rfl⟩
    obtain ⟨ls, hls⟩ := hstart
    unfold Parse.commaList
    refine .get ?_
    rw [Cursor.atEnd, Cursor.sees_of_ahead hls, Cursor.sees_of_ahead hls,
      Token.Kind.alike_of_startsExpr hk hclose, Token.Kind.alike_of_startsExpr hk rfl,
      if_neg (by simp)]
    by_cases hxs : xs = []
    · subst hxs
      refine (hsub x (by simp) c _ _ (.of_closes hs) h).bind fun e c' he hc' => ?_
      refine .reject hc' hcomma ?_
      exact .pure (.cons he .nil) hc'
    · rw [withCommas_cons word x hxs, List.append_assoc, List.cons_append] at h
      refine (hsub x (by simp) c _ _ Token.Kind.Ends.comma h).bind fun e c' he hc' => ?_
      refine .accept hc' rfl (by simp) fun c'' hc'' => ?_
      rw [if_pos rfl]
      refine (ih (fun y hy => hsub y (by simp [hy])) (fun y hy => hword y (by simp [hy]))
        (by simpa using hn) hc'').bind fun es c₃ hes hc₃ => ?_
      exact .pure (.cons he hes) hc₃

/-- The tokens of a tuple in parentheses; a comma tells a tuple of one item from the item. -/
def tupleWord (word : α → List Token.Kind) : List α → List Token.Kind
  | [x] => .symbol .openParen :: (word x ++ [.symbol .comma, .symbol .closeParen])
  | xs => .symbol .openParen :: (withCommas word xs ++ [.symbol .closeParen])

/-- A tuple is read as an operand. -/
theorem Yields.tupleOperand (hsub : ∀ x ∈ xs, ReadsItem sub (word x) (P x))
    (hword : ∀ x ∈ xs, ∃ k ws, word x = k :: ws ∧ startsExpr k = true) {c : Cursor}
    (h : c.ahead = tupleWord word xs ++ ks) :
    Yields (operand sub) c (fun e => ∃ span es, e = .tuple span es ∧ List.Forall₂ P xs es) ks := by
  unfold operand
  refine .get ?_
  dsimp only
  have hopen : ∃ ls, c.ahead = .symbol .openParen :: ls := by
    unfold tupleWord at h
    split at h
    · exact ⟨_, h⟩
    · exact ⟨_, h⟩
  obtain ⟨ls, hls⟩ := hopen
  rw [Cursor.kind_of_ahead hls]
  dsimp only
  unfold Parse.paren
  refine .here fun start => .advance hls (by simp) fun c' hc' => ?_
  rw [hls] at h
  cases xs with
  | nil =>
    cases h
    refine .accept hc' rfl (by simp) fun c'' hc'' => ?_
    exact .spanFrom _ fun span => .pure ⟨span, [], rfl, .nil⟩ hc''
  | cons x xs =>
    obtain ⟨l, ws, hx, hl⟩ := hword x (by simp)
    -- Behind the first item there is a comma, even if there are no further items.
    have hcm : c'.ahead = word x ++ .symbol .comma ::
        (withCommas word xs ++ .symbol .closeParen :: ks) := by
      cases xs with
      | nil =>
        cases h
        rw [hc']
        simp [withCommas]
      | cons y ys =>
        cases h
        rw [hc', withCommas_cons word x (by simp)]
        simp
    refine .reject (k := l) (by rw [hcm, hx]; rfl) (Token.Kind.alike_of_startsExpr hl rfl) ?_
    rw [if_neg Bool.false_ne_true]
    refine (hsub x (by simp) c' _ _ Token.Kind.Ends.comma hcm).bind fun e c'' he hc'' => ?_
    refine .accept hc'' rfl (by simp) fun c₃ hc₃ => ?_
    rw [if_pos rfl]
    refine .rounds fun n hn => ?_
    have hword' : ∀ y ∈ xs, ∃ k ws, word y = k :: ws ∧ startsExpr k = true :=
      fun y hy => hword y (by simp [hy])
    have hnil (y : α) (hy : y ∈ xs) : word y ≠ [] := by
      obtain ⟨m, ms, hm, -⟩ := hword' y hy
      simp [hm]
    have hlen : xs.length < n := length_lt_of_ahead hnil hc₃ hn
    refine (Yields.commaList (fun y hy => hsub y (by simp [hy])) hword' rfl hlen hc₃).bind
      fun es c₄ hes hc₄ => ?_
    refine .expect hc₄ rfl (by simp) fun c₅ hc₅ => .spanFrom _ fun span => ?_
    exact .pure ⟨span, e :: es, rfl, .cons he hes⟩ hc₅

theorem ReadsExpr.tuple {depth : Nat} (hsub : ∀ x ∈ xs, ReadsItem (exprWithin depth) (word x) (P x))
    (hword : ∀ x ∈ xs, ∃ k ws, word x = k :: ws ∧ startsExpr k = true) :
    ReadsExpr (exprWithin (depth + 1)) (tupleWord word xs)
      (fun e => ∃ span es, e = .tuple span es ∧ List.Forall₂ P xs es) :=
  of_operand fun _ _ _ _ h => .tupleOperand hsub hword h

end

end StagedScript
