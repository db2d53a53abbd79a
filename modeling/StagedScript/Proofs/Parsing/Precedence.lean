import StagedScript.Proofs.Parsing.Underived

/-!
# The precedence of operators

Names, numbers, signs and operators are read exactly as the grammar has them.  Since the reader
gives one tree at most, so does the grammar.  Comparisons do not chain: an expression has one at
most between two logical operators, and logical operators join whatever stands on their sides.
-/

namespace StagedScript

open Parse

namespace Token.Kind

/-- Whether an operator that joins truth values is written with the token. -/
def joins : Kind → Bool
  | .keyword .or_ | .keyword .and_ => true
  | _ => false

/-- Whether a comparison is written with the token; a `not` in one stands beside another word. -/
def compares : Kind → Bool
  | .symbol .equal | .symbol .notEqual | .symbol .less | .symbol .greater | .symbol .lessEqual
  | .symbol .greaterEqual | .keyword .in_ | .keyword .is_ => true
  | _ => false

end Token.Kind

/-- Whether a comparison has been seen since the last logical operator, with `seen` at the start.
There is no answer once there have been two. -/
def comparedAfter (seen : Bool) : List Token.Kind → Option Bool
  | [] => some seen
  | k :: ks =>
    if k.joins then comparedAfter false ks
    else if k.compares then if seen then none else comparedAfter true ks
    else comparedAfter seen ks

theorem comparedAfter_append (seen : Bool) (ks ls : List Token.Kind) :
    comparedAfter seen (ks ++ ls) = (comparedAfter seen ks).bind (comparedAfter · ls) := by
  induction ks generalizing seen with
  | nil => rfl
  | cons k ks ih =>
    simp only [List.cons_append, comparedAfter]
    split
    · exact ih false
    · split
      · cases seen with
        | true => rfl
        | false => exact ih true
      · exact ih seen

theorem comparedAfter_logical (seen : Bool) (op : LogicalOp) :
    comparedAfter seen (Connective.logical op).kinds = some false := by
  cases op <;> rfl

theorem comparedAfter_compare (seen : Bool) (op : CompareOp) :
    comparedAfter seen (Connective.compare op).kinds = if seen then none else some true := by
  cases op <;> cases seen <;> rfl

theorem comparedAfter_binary (seen : Bool) (op : BinaryOp) :
    comparedAfter seen (Connective.binary op).kinds = some seen := by
  cases op <;> rfl

/-- Without a logical operator, a comparison that has been seen stays seen. -/
theorem comparedAfter_true {ks : List Token.Kind} (h : ∀ k ∈ ks, k.joins = false) {seen : Bool}
    (hseen : comparedAfter true ks = some seen) : seen = true := by
  induction ks with
  | nil => exact (Option.some.inj hseen).symm
  | cons k ks ih =>
    simp only [List.forall_mem_cons] at h
    simp only [comparedAfter, h.1, Bool.false_eq_true, if_false, if_true] at hseen
    split at hseen
    · cases hseen
    · exact ih h.2 hseen

namespace Derives

variable {l : Level} {ks ls : List Token.Kind} {e : Expr}

/-- Above the level of comparisons there are none, and elsewhere no two without a logical operator
between them. -/
theorem comparedAfter_eq (h : Derives l ks e) :
    (Level.comparison.rank < l.rank → ∀ seen, comparedAfter seen ks = some seen) ∧
      ∃ seen, comparedAfter false ks = some seen := by
  induction h with
  | int n => exact ⟨fun _ _ => rfl, false, rfl⟩
  | float x => exact ⟨fun _ _ => rfl, false, rfl⟩
  | name x => exact ⟨fun _ _ => rfl, false, rfl⟩
  | @sign op ks e hop h ih =>
    have hsign (seen : Bool) : comparedAfter seen (op.kind :: ks) = comparedAfter seen ks := by
      cases op <;> rfl
    simp only [hsign]
    exact ih
  | @join op ks ls a b ha hb iha ihb =>
    simp only [comparedAfter_append]
    obtain ⟨⟨hleft, seen, hseen⟩, hright, seen', hseen'⟩ := And.intro iha ihb
    -- A logical operator starts anew, a comparison counts, and arithmetic changes nothing.
    rcases op with op | op | op
    · refine ⟨fun hlt => absurd hlt (by cases op <;> decide), seen', ?_⟩
      rw [hseen, Option.bind_some, comparedAfter_logical, Option.bind_some, hseen']
    · have hside : Level.comparison.rank < Level.bitOr.rank := by decide
      refine ⟨fun hlt => absurd hlt (Nat.lt_irrefl _), true, ?_⟩
      rw [hleft hside, Option.bind_some, comparedAfter_compare, if_neg Bool.false_ne_true,
        Option.bind_some, hright hside]
    · have hsides : Level.comparison.rank < (Connective.binary op).level.sides.1.rank ∧
          Level.comparison.rank < (Connective.binary op).level.sides.2.rank := by
        cases op <;> decide
      have hall (seen : Bool) : ((comparedAfter seen ks).bind fun s =>
          comparedAfter s (Connective.binary op).kinds).bind (comparedAfter · ls) = some seen := by
        rw [hleft hsides.1, Option.bind_some, comparedAfter_binary, Option.bind_some,
          hright hsides.2]
      exact ⟨fun _ => hall, false, hall false⟩
  | @next l ks e h ih => exact ⟨fun hlt => ih.1 (Nat.lt_of_lt_of_le hlt l.rank_le_next), ih.2⟩

/-- Two comparisons with no logical operator between them are not derived. -/
theorem not_of_compare {as bs ds : List Token.Kind} {op op' : CompareOp}
    (hks : ks = as ++ (Connective.compare op).kinds ++ bs ++ (Connective.compare op').kinds ++ ds)
    (hbs : ∀ k ∈ bs, k.joins = false) : ¬ Derives l ks e := by
  intro h
  obtain ⟨seen, hseen⟩ := h.comparedAfter_eq.2
  rw [hks] at hseen
  simp only [comparedAfter_append, comparedAfter_compare, Option.bind_eq_some_iff] at hseen
  obtain ⟨s₄, ⟨s₃, ⟨s₂, ⟨s₁, -, hs₂⟩, hs₃⟩, hs₄⟩, -⟩ := hseen
  have hs₂' : s₂ = true := by
    split at hs₂
    · cases hs₂
    · exact (Option.some.inj hs₂).symm
  subst hs₂'
  rw [if_pos (comparedAfter_true hbs hs₃)] at hs₄
  cases hs₄

/-! ## Logical operators join everything -/

/-- What is derived on both sides of an `or` is derived with it. -/
theorem disj {a b : Expr} (ha : Derives .disj ks a) (hb : Derives l ls b) (hl : l = .disj) :
    ∃ t, Derives .disj (ks ++ [.keyword .or_] ++ ls) t := by
  induction hb with
  | @next l ls b hb ih =>
    subst hl
    exact ⟨_, .join (.logical .disj) ha hb⟩
  | @join op ls₁ ls₂ b₁ b₂ hb₁ hb₂ ih₁ _ =>
    obtain rfl := Connective.eq_of_level_disj hl
    obtain ⟨t, ht⟩ := ih₁ rfl
    rw [← List.append_assoc, ← List.append_assoc]
    exact ⟨_, .join (.logical .disj) ht hb₂⟩
  | _ => cases hl

/-- The right side of an `or` takes an `and` behind it. -/
theorem conj_comparison {a b : Expr} (ha : Derives .disj ks a) (hb : Derives .comparison ls b) :
    ∃ t, Derives .disj (ks ++ [.keyword .and_] ++ ls) t := by
  generalize hl : Level.disj = l at ha
  cases ha with
  | next ha =>
    subst hl
    exact ⟨_, .next (.join (.logical .conj) ha hb)⟩
  | @join op ks₁ ks₂ a₁ a₂ ha₁ ha₂ =>
    obtain rfl := Connective.eq_of_level_disj hl.symm
    rw [List.append_assoc _ ks₂, List.append_assoc]
    exact ⟨_, .join (.logical .disj) ha₁ (.join (.logical .conj) ha₂ hb)⟩
  | _ => cases hl

/-- What is derived on both sides of an `and` is derived with it. -/
theorem conj {a b : Expr} (ha : Derives .disj ks a) (hb : Derives l ls b)
    (hl : l = .disj ∨ l = .conj) : ∃ t, Derives .disj (ks ++ [.keyword .and_] ++ ls) t := by
  induction hb with
  | @next l ls b hb ih =>
    rcases hl with rfl | rfl
    · exact ih (.inr rfl)
    · exact ha.conj_comparison hb
  | @join op ls₁ ls₂ b₁ b₂ hb₁ hb₂ ih₁ _ =>
    rcases hl with hl | hl
    · obtain rfl := Connective.eq_of_level_disj hl
      obtain ⟨t, ht⟩ := ih₁ (.inl rfl)
      rw [← List.append_assoc, ← List.append_assoc]
      exact ⟨_, .join (.logical .disj) ht hb₂⟩
    · obtain rfl := Connective.eq_of_level_conj hl
      obtain ⟨t, ht⟩ := ih₁ (.inr rfl)
      rw [← List.append_assoc, ← List.append_assoc]
      exact ht.conj_comparison hb₂
  | _ => simp at hl

/-- What is derived on both sides of a logical operator is derived with it. -/
theorem logical (op : LogicalOp) {a b : Expr} (ha : Derives .disj ks a) (hb : Derives .disj ls b) :
    ∃ t, Derives .disj (ks ++ (Connective.logical op).kinds ++ ls) t := by
  cases op with
  | disj => exact ha.disj hb rfl
  | conj => exact ha.conj hb (.inl rfl)

end Derives

/-! ## Reading and the grammar -/

variable {ks rest : List Token.Kind} {c : Cursor}

/-- What is read up to the end of a line is derived. -/
theorem Derives.of_yields (hks : Token.Operators ks) (hc : c.ahead = ks ++ .newline :: rest)
    {t : Expr} (h : Yields Parse.expr c (·.bare = t) (.newline :: rest)) : Derives .disj ks t := by
  obtain ⟨e, c', hok, rfl, hc'⟩ := h
  have hkeeps : Ensures Parse.expr c fun e c' =>
      ReadUpTo .disj ks rest e c' ∧ c'.OperatorAhead (·.strength.1 < 0) := by
    unfold Parse.expr exprAbove
    exact .rounds fun n _ => (keepsTo_exprWithin n).derived Level.starts_disj (by decide) hks hc
  obtain ⟨⟨used, left, rfl, hused, -, hleft⟩, -⟩ := hkeeps e c' hok
  rw [hc'] at hleft
  have hnil : left = [] := by
    have hlength := congrArg List.length hleft
    rw [List.length_append] at hlength
    exact List.eq_nil_of_length_eq_zero (by omega)
  rwa [hnil, List.append_nil]

/-- The reader gives one tree at most. -/
theorem Yields.unique {t u : Expr} {x : Parse Expr} {ls ls' : List Token.Kind}
    (ht : Yields x c (·.bare = t) ls) (hu : Yields x c (·.bare = u) ls') : t = u := by
  obtain ⟨e, c', he, rfl, -⟩ := ht
  obtain ⟨e', c'', he', rfl, -⟩ := hu
  rw [he] at he'
  cases he'
  rfl

/-- Names, numbers, signs and operators in front of the end of a line are read exactly if the
grammar derives them, with the one tree that it derives for them.  Two comparisons with no logical
operator between them are never read, and with a logical operator between them whatever is derived
on its two sides is. -/
theorem Parse.expr_follows_grammar (hks : Token.Operators ks)
    (hc : c.ahead = ks ++ .newline :: rest) :
    (∀ t, Yields Parse.expr c (·.bare = t) (.newline :: rest) ↔ Derives .disj ks t) ∧
    (∀ t u, Derives .disj ks t → Derives .disj ks u → t = u) ∧
    (∀ (op op' : CompareOp) (as bs ds : List Token.Kind), (∀ k ∈ bs, k.joins = false) →
      ks = as ++ (Connective.compare op).kinds ++ bs ++ (Connective.compare op').kinds ++ ds →
      ¬ Yields Parse.expr c (fun _ => True) (.newline :: rest)) ∧
    (∀ (op : LogicalOp) (as bs : List Token.Kind) (t u : Expr), Derives .disj as t →
      Derives .disj bs u → ks = as ++ (Connective.logical op).kinds ++ bs →
      Yields Parse.expr c (fun _ => True) (.newline :: rest)) := by
  have hread {t : Expr} (h : Derives .disj ks t) :
      Yields Parse.expr c (·.bare = t) (.newline :: rest) := h.yields .newline hc
  refine ⟨fun t => ⟨Derives.of_yields hks hc, hread⟩, ?_, ?_, ?_⟩
  · intro t u ht hu
    exact (hread ht).unique (hread hu)
  · rintro op op' as bs ds hbs heq ⟨e, c', hok, -, hc'⟩
    exact Derives.not_of_compare heq hbs (Derives.of_yields hks hc ⟨e, c', hok, rfl, hc'⟩)
  · intro op as bs t u ht hu heq
    obtain ⟨v, hv⟩ := ht.logical op hu
    exact (hread (heq ▸ hv)).mono fun _ _ => trivial

/-- The tokens of `a < b and -c ** 2`, with the end of the line behind them. -/
def sampleLine : List Token.Kind :=
  [.ident "a", .symbol .less, .ident "b", .keyword .and_, .symbol .minus, .ident "c",
    .symbol .power, .int 2]

/-- The tree of `a < b and -c ** 2`. -/
def sampleTree : Expr :=
  .logical .nowhere .conj
    (.compare .nowhere .lt (.name .nowhere "a") (.name .nowhere "b"))
    (.unary .nowhere .neg (.binary .nowhere .pow (.name .nowhere "c") (.int .nowhere 2)))

theorem sampleLine_read :
    let c := Cursor.ofTokens ((sampleLine ++ [Token.Kind.newline]).map fun k => ⟨k, .nowhere⟩)
    Token.Operators sampleLine ∧ c.ahead = sampleLine ++ .newline :: [.eof] ∧
      Yields Parse.expr c (·.bare = sampleTree) [.newline, .eof] := by
  have hoperators : Token.Operators sampleLine :=
    .name "a" (.connective (.compare .lt) (.name "b" (.connective (.logical .conj)
      (@Token.Operators.sign .neg _ (by simp)
        (.name "c" (.connective (.binary .pow) (.int 2 .nil)))))))
  have hderives : Derives .disj sampleLine sampleTree := by
    have hcompare : Derives .comparison [.ident "a", .symbol .less, .ident "b"] _ :=
      .join (.compare .lt) ((Derives.name "a").lift (by decide))
      ((Derives.name "b").lift (by decide))
    have hpower : Derives .power [.ident "c", .symbol .power, .int 2] _ :=
      .join (.binary .pow) (.name "c") ((Derives.int 2).lift (by decide))
    have hsign := @Derives.sign .neg _ _ (by simp) (.next hpower)
    exact .next (.join (.logical .conj) (.next hcompare) (hsign.lift (by decide)))
  refine ⟨hoperators, rfl, ?_⟩
  exact ((Parse.expr_follows_grammar hoperators rfl).1 sampleTree).2 hderives

end StagedScript
