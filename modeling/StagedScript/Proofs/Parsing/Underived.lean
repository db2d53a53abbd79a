import StagedScript.Proofs.Parsing.Grammar
import StagedScript.Proofs.Parsing.Yields

/-!
# What is read is derived

From names, numbers, signs and operators an expression is only read where the grammar derives it.
What has been read of a level is followed by an operator that may stand behind it, and this is what
one round of the reader keeps.
-/

namespace StagedScript

open Parse

namespace Ensures

variable {c : Cursor} {sub : Nat → Parse Expr}

/-- Behind a sign its operand is read. -/
theorem signOperand {op : UnaryOp} {strength : Nat} {P : Expr → Cursor → Prop}
    (hk : sign? c.kind = some (op, strength)) (hsub : Ensures (sub strength) c.advance P) :
    Ensures (operand sub) c fun e c' => ∃ span x, e = .unary span op x ∧ P x c' := by
  unfold operand
  refine .get ?_
  dsimp only
  split
  case h_12 =>
    rw [hk]
    exact .advance (hsub.bind fun x c' hx => .spanFrom fun span => .pure ⟨span, x, rfl, hx⟩)
  all_goals
    next hkind =>
      rw [hkind] at hk
      cases hk

end Ensures

namespace Token.Operators

variable {k : Token.Kind} {ks rest : List Token.Kind} {c : Cursor}

theorem cons_cases (h : Token.Operators (k :: ks)) :
    Token.Operators ks ∧ ((∃ n, k = .int n) ∨ (∃ x, k = .float x) ∨ (∃ x, k = .ident x) ∨
      ∃ op : UnaryOp, op ≠ .not ∧ k = op.kind) ∨
    ∃ (op : Connective) (ls : List Token.Kind), k :: ks = op.kinds ++ ls ∧ Token.Operators ls := by
  generalize hks : k :: ks = all at h
  cases h with
  | nil => cases hks
  | int n h => cases hks; exact .inl ⟨h, .inl ⟨n, rfl⟩⟩
  | float x h => cases hks; exact .inl ⟨h, .inr (.inl ⟨x, rfl⟩)⟩
  | name x h => cases hks; exact .inl ⟨h, .inr (.inr (.inl ⟨x, rfl⟩))⟩
  | sign hop h => cases hks; exact .inl ⟨h, .inr (.inr (.inr ⟨_, hop, rfl⟩))⟩
  | connective op h => exact .inr ⟨op, _, rfl, h⟩

/-- An operand starts with a number, a name or a sign; a `not` is no sign, for only an operator has
one, and this goes on with an `in`. -/
theorem operand_cases (h : Token.Operators (k :: ks)) (hk : startsExpr k = true) :
    Token.Operators ks ∧ ((∃ n, k = .int n) ∨ (∃ x, k = .float x) ∨ (∃ x, k = .ident x) ∨
      ∃ op : UnaryOp, op ≠ .not ∧ k = op.kind) ∨
    k = .keyword .not_ ∧ ∃ ls, ks = .keyword .in_ :: ls := by
  rcases h.cons_cases with h | ⟨op, ls, heq, hls⟩
  · exact .inl h
  · rcases op with op | op | op <;> cases op
    case compare.notIn =>
      cases heq
      exact .inr ⟨rfl, ls, rfl⟩
    case binary.add =>
      cases heq
      exact .inl ⟨hls, .inr (.inr (.inr ⟨.pos, by simp, rfl⟩))⟩
    case binary.sub =>
      cases heq
      exact .inl ⟨hls, .inr (.inr (.inr ⟨.neg, by simp, rfl⟩))⟩
    all_goals
      cases heq
      cases hk

theorem startsTrailer (h : Token.Operators ks) (hc : c.ahead = ks ++ .newline :: rest) :
    startsTrailer c.kind = false := by
  cases ks with
  | nil => rw [Cursor.kind_of_ahead hc]; rfl
  | cons k ks =>
    rw [Cursor.kind_of_ahead hc]
    rcases h.cons_cases with ⟨-, ⟨n, rfl⟩ | ⟨x, rfl⟩ | ⟨x, rfl⟩ | ⟨op, -, rfl⟩⟩ | ⟨op, ls, heq, -⟩
    · rfl
    · rfl
    · rfl
    · cases op <;> rfl
    · rcases op with op | op | op <;> cases op <;> cases heq <;> rfl

/-- An operator that is seen ahead is written there, and operators go on behind it.  A `not` that
belongs to an `in` is taken by an `is` in front of it, and the `in` stays. -/
theorem connective_cases (h : Token.Operators ks) (hc : c.ahead = ks ++ .newline :: rest)
    {op : Connective} {two : Bool} (hop : Connective.ofKinds? c.kind c.following = some (op, two)) :
    two = op.isDouble ∧ ∃ ls, ks = op.kinds ++ ls ∧ Token.Operators ls := by
  cases ks with
  | nil =>
    rw [Cursor.kind_of_ahead hc] at hop
    cases hop
  | cons k ks =>
    rcases h.cons_cases with ⟨hks, hk⟩ | ⟨op', ls, heq, hls⟩
    · rw [Cursor.kind_of_ahead hc] at hop
      rcases hk with ⟨n, rfl⟩ | ⟨x, rfl⟩ | ⟨x, rfl⟩ | ⟨op', hop', rfl⟩
      · cases hop
      · cases hop
      · cases hop
      · cases op'
        case not => exact absurd rfl hop'
        all_goals cases hop
        all_goals exact ⟨rfl, ks, rfl, hks⟩
    · obtain ⟨l, more, hmore⟩ : ∃ l more, ls ++ .newline :: rest = l :: more :=
        List.exists_cons_of_ne_nil (by simp)
      have hc' : c.ahead = op'.kinds ++ l :: more := by rw [hc, heq, List.append_assoc, hmore]
      by_cases hparts : op'.Parts l
      · have hfound := (Connective.ofKinds?_of_ahead hc' hparts).2
        rw [hop] at hfound
        cases hfound
        exact ⟨rfl, ls, heq, hls⟩
      · -- The `not` behind an `is` is read with it, although it starts a `not in`.
        obtain ⟨rfl, rfl⟩ : op' = .compare .is ∧ l = .keyword .not_ := by
          unfold Connective.Parts at hparts
          simpa using hparts
        cases ls with
        | nil => cases hmore
        | cons k' ls =>
          cases hmore
          -- Operators go on with a `not` in front of an `in` alone.
          rcases hls.cons_cases with
            ⟨-, ⟨n, ⟨⟩⟩ | ⟨x, ⟨⟩⟩ | ⟨x, ⟨⟩⟩ | ⟨op', hop', hk'⟩⟩ | ⟨op', ls', heq', hls'⟩
          · cases op' <;> cases hk'
            exact absurd rfl hop'
          · rcases op' with op' | op' | op' <;> cases op' <;> cases heq'
            rw [Cursor.kind_of_ahead hc', Cursor.following_of_ahead hc'] at hop
            cases hop
            exact ⟨rfl, _, heq, .connective (.compare .isIn) hls'⟩

end Token.Operators

/-! ## Reading keeps to the grammar -/

section

variable {sub : Nat → Parse Expr} {c : Cursor} {ks rest : List Token.Kind}

/-- An expression of the level has been read from the start of the tokens.  Behind it, operators and
operands are left in front of the end of the line. -/
def ReadUpTo (l : Level) (ks rest : List Token.Kind) (e : Expr) (c : Cursor) : Prop :=
  ∃ used left, ks = used ++ left ∧ Derives l used e.bare ∧ Token.Operators left ∧
    c.ahead = left ++ .newline :: rest

/-- The parser reads expressions of the grammar, as far as their operators bind strongly enough. -/
structure KeepsTo (sub : Nat → Parse Expr) : Prop where
  /-- Operators and operands are read as an expression of the level that the strength stands for. -/
  derived : ∀ {l : Level} {least : Nat} {c : Cursor} {ks rest : List Token.Kind}, l.Starts least →
    l.rank ≤ Level.sign.rank → Token.Operators ks → c.ahead = ks ++ .newline :: rest →
    Ensures (sub least) c fun e c' =>
      ReadUpTo l ks rest e c' ∧ c'.OperatorAhead (·.strength.1 < least)
  /-- Nothing is read where no expression starts. -/
  starts : ∀ (least : Nat) (c : Cursor), Ensures (sub least) c fun _ _ => startsExpr c.kind = true

/-- What is read as one operand is an operand or has a sign in front of it. -/
theorem KeepsTo.operand (hsub : KeepsTo sub) (hks : Token.Operators ks)
    (hc : c.ahead = ks ++ .newline :: rest) :
    Ensures (operand sub) c fun e c' => ∃ m : Level, Level.sign.rank ≤ m.rank ∧
      ReadUpTo m ks rest e c' ∧ c'.OperatorAhead m.Precedes := by
  intro e c' hok
  have hstart := Ensures.startsExpr_operand e c' hok
  cases ks with
  | nil =>
    rw [Cursor.kind_of_ahead hc] at hstart
    cases hstart
  | cons k ks =>
    rw [Cursor.kind_of_ahead hc] at hstart
    have hone {e' : Expr} (he : Derives .operand [k] e') (hks : Token.Operators ks)
        (hread : e.bare = e' ∧ c'.ahead = ks ++ .newline :: rest) :
        ∃ m : Level, Level.sign.rank ≤ m.rank ∧ ReadUpTo m (k :: ks) rest e c' ∧
          c'.OperatorAhead m.Precedes :=
      ⟨.operand, by decide, ⟨[k], ks, rfl, hread.1 ▸ he, hks, hread.2⟩, fun _ _ _ => .inl rfl⟩
    rcases hks.operand_cases hstart with
      ⟨hmore, ⟨n, rfl⟩ | ⟨x, rfl⟩ | ⟨x, rfl⟩ | ⟨op, hop, rfl⟩⟩ | ⟨rfl, ls, rfl⟩
    · obtain ⟨⟨span, rfl⟩, hc'⟩ := Ensures.of_yields (.intOperand hc) e c' hok
      exact hone (.int n) hmore ⟨rfl, hc'⟩
    · obtain ⟨⟨span, rfl⟩, hc'⟩ := Ensures.of_yields (.floatOperand hc) e c' hok
      exact hone (.float x) hmore ⟨rfl, hc'⟩
    · obtain ⟨⟨span, rfl⟩, hc'⟩ := Ensures.of_yields (.nameOperand hc) e c' hok
      exact hone (.name x) hmore ⟨rfl, hc'⟩
    · have hsign : sign? c.kind = some (op, 21) := by
        rw [Cursor.kind_of_ahead hc]
        cases op
        case not => exact absurd rfl hop
        all_goals rfl
      have hbehind : c.advance.ahead = ks ++ .newline :: rest :=
        Cursor.ahead_advance hc (by cases op <;> simp [UnaryOp.kind])
      obtain ⟨span, x, rfl, ⟨used, left, rfl, hused, hleft, hc'⟩, hstops⟩ :=
        Ensures.signOperand hsign (hsub.derived Level.starts_sign (Nat.le_refl _) hmore hbehind) e
        c' hok
      refine ⟨.sign, Nat.le_refl _, ⟨op.kind :: used, left, rfl, ?_, hleft, hc'⟩, ?_⟩
      · exact .sign hop hused
      · exact hstops.mono fun _ => Level.precedes_sign_iff.2
    · -- Behind the `not` an expression would have to start with the `in`.
      have hsign : sign? c.kind = some (.not, 5) := by rw [Cursor.kind_of_ahead hc]; rfl
      obtain ⟨_, _, _, hin⟩ := Ensures.signOperand hsign (hsub.starts 5 c.advance) e c' hok
      rw [Cursor.kind_of_ahead (Cursor.ahead_advance hc (by simp))] at hin
      cases hin

/-- One round over an operator: it binds strongly enough and its right side is read, or reading
stops in front of it. -/
theorem Ensures.connective {P Q : Expr → Cursor → Prop} {op : Connective} {two : Bool}
    (hop : Connective.ofKinds? c.kind c.following = some (op, two))
    (htrailer : startsTrailer c.kind = false) {least start n : Nat} {left : Expr} {compared : Bool}
    (hstop : op.strength.1 < least → P left c)
    (hright : least ≤ op.strength.1 → (op.isCompare = true → compared = false) →
      Ensures (sub op.strength.2) (if two then c.advance.advance else c.advance) Q)
    (hrest : least ≤ op.strength.1 → (op.isCompare = true → compared = false) → ∀ right c',
      Q right c' →
      Ensures (continuation sub start least n (op.apply ⟨start, right.span.stop⟩ left right)
        op.isCompare) c' P) :
    Ensures (continuation sub start least (n + 1) left compared) c P := by
  unfold continuation
  refine .get ?_
  rw [htrailer, if_neg Bool.false_ne_true, hop]
  dsimp only
  by_cases hleast : op.strength.1 < least
  · rw [if_pos hleast]
    exact .pure (hstop hleast)
  · rw [if_neg hleast]
    have hle : least ≤ op.strength.1 := by omega
    have hchecked : ∀ c' : Cursor, c' = (if two then c.advance.advance else c.advance) →
        Ensures (do
          if op.isCompare && compared then (Parse.failAt left.span .chainedComparison : Parse Unit)
          let right ← sub op.strength.2
          continuation sub start least n (op.apply ⟨start, right.span.stop⟩ left right)
            op.isCompare) c' P := by
      rintro _ rfl
      cases hchained : (op.isCompare && compared) with
      | true => exact Ensures.bind (P := fun _ _ => False) .failAt fun _ _ h => h.elim
      | false =>
        have hcompared : op.isCompare = true → compared = false := fun hcompare => by
          rwa [hcompare, Bool.true_and] at hchained
        exact (hright hle hcompared).bind (hrest hle hcompared)
    cases two with
    | false => exact hchecked _ rfl
    | true => exact hchecked _ rfl

/-- What is read behind an operand that has been read keeps to the grammar. -/
theorem KeepsTo.continuation (hsub : KeepsTo sub) {l : Level} {least : Nat}
    (hleast : l.Starts least) {n start : Nat} {m : Level} {e : Expr} {compared : Bool}
    (hread : ReadUpTo m ks rest e c) (hn : c.ahead.length < n) (hahead : c.OperatorAhead m.Precedes)
    (hle : l.rank ≤ m.rank) (hcompared : m = .comparison → compared = true) :
    Ensures (continuation sub start least n e compared) c fun e' c' =>
      ReadUpTo l ks rest e' c' ∧ c'.OperatorAhead (·.strength.1 < least) := by
  induction n generalizing c m e compared with
  | zero => exact absurd hn (Nat.not_lt_zero _)
  | succ n ih =>
    obtain ⟨used, left, rfl, hused, hleft, hc⟩ := hread
    have htrailer := hleft.startsTrailer hc
    cases hop : Connective.ofKinds? c.kind c.following with
    | none =>
      unfold Parse.continuation
      refine .get ?_
      rw [htrailer, if_neg Bool.false_ne_true, hop]
      exact .pure ⟨⟨used, left, rfl, hused.lift hle, hleft, hc⟩, fun op two h => by cases hop ▸ h⟩
    | some found =>
      obtain ⟨op, two⟩ := found
      obtain ⟨rfl, ls, rfl, hls⟩ := hleft.connective_cases hc hop
      have hbehind : (if op.isDouble then c.advance.advance else c.advance).ahead =
          ls ++ .newline :: rest := by
        obtain ⟨k, more, hmore⟩ : ∃ k more, ls ++ .newline :: rest = k :: more :=
          List.exists_cons_of_ne_nil (by simp)
        rw [hmore]
        exact Connective.ahead_behind (by rw [hc, List.append_assoc, hmore])
      have hprecedes : m.Precedes op := hahead op _ hop
      refine .connective (Q := fun right c' => ReadUpTo op.level.sides.2 ls rest right c' ∧
          c'.OperatorAhead (·.strength.1 < op.strength.2)) hop htrailer (fun hlt => ?_) ?_ ?_
      · refine ⟨⟨used, op.kinds ++ ls, rfl, hused.lift hle, hleft, hc⟩, fun op' two h => ?_⟩
        rw [hop] at h
        cases h
        exact hlt
      · intro _ _
        exact hsub.derived (Level.starts_side op) (Level.rank_right_le op) hls hbehind
      · -- The operator joins what has been read and its right side to an expression of its level.
        rintro hstrong hfirst right c' ⟨⟨used', left', rfl, hused', hleft', hc'⟩, hstops⟩
        have hside : op.level.sides.1.rank ≤ m.rank := by
          -- A comparison behind a comparison is the one operator that is refused here.
          refine Level.rank_left_le hprecedes fun hcompare hm => ?_
          have hno := hfirst (Connective.isCompare_iff.2 hcompare)
          rw [hcompared hm] at hno
          cases hno
        refine ih (m := op.level) ⟨used ++ op.kinds ++ used', left', by simp, ?_, hleft', hc'⟩ ?_
          (hstops.mono fun _ => Level.precedes_iff.2) ((hleast op).1 hstrong) fun hcompare =>
            Connective.isCompare_iff.2 hcompare
        · rw [Expr.bare_apply]
          exact .join op (hused.lift hside) hused'
        · rw [hc] at hn
          rw [hc']
          simp only [List.length_append, List.length_cons] at hn ⊢
          have hpos : 0 < op.kinds.length := by
            obtain ⟨k, ks, hk, -⟩ := op.kinds_cons
            rw [hk]
            exact Nat.succ_pos _
          omega

/-- However deeply it may nest, an expression keeps to the grammar. -/
theorem keepsTo_exprWithin (depth : Nat) : KeepsTo (exprWithin depth) := by
  refine ⟨fun {l least c ks rest} hleast hl hks hc => ?_, fun _ _ =>
    Ensures.startsExpr_exprWithin _ _⟩
  induction depth generalizing l least c ks rest with
  | zero => exact .here fun _ => .failAt
  | succ depth ih =>
    have hsub : KeepsTo (exprWithin depth) :=
      ⟨ih, fun _ _ => Ensures.startsExpr_exprWithin _ _⟩
    unfold exprWithin
    refine .here fun span => (hsub.operand hks hc).bind fun e c' hread => ?_
    obtain ⟨m, hm, hread, hahead⟩ := hread
    refine .rounds fun n hn => hsub.continuation hleast hread hn hahead
      (Nat.le_trans hl hm) ?_
    · rintro rfl
      exact absurd hm (by decide)

end

end StagedScript
