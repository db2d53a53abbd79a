import StagedScript.Proofs.Parsing.Expressions

/-!
# Operators between operands

An operator is written with one token or with two.  Behind an operand that it binds strongly enough
it is read together with its right side, and reading goes on behind the two of them.
-/

namespace StagedScript

open Parse

/-- The token of an operator in front of an operand. -/
def UnaryOp.kind : UnaryOp → Token.Kind
  | neg => .symbol .minus
  | pos => .symbol .plus
  | bitNot => .symbol .tilde
  | not => .keyword .not_

/-- The span of a tree whose spans are forgotten. -/
def Span.nowhere : Span := ⟨0, 0⟩

theorem Expr.mapSpan_apply (f : Span → Span) (op : Connective) (s : Span) (a b : Expr) :
    (op.apply s a b).mapSpan f = op.apply (f s) (a.mapSpan f) (b.mapSpan f) := by
  cases op <;> rfl

theorem Expr.bare_apply (op : Connective) (s : Span) (a b : Expr) :
    (op.apply s a b).bare = op.apply .nowhere a.bare b.bare := mapSpan_apply _ op s a b

namespace Connective

/-- The tokens that an operator is written with. -/
def kinds : Connective → List Token.Kind
  | logical .disj => [.keyword .or_]
  | logical .conj => [.keyword .and_]
  | compare .eq => [.symbol .equal]
  | compare .ne => [.symbol .notEqual]
  | compare .lt => [.symbol .less]
  | compare .gt => [.symbol .greater]
  | compare .le => [.symbol .lessEqual]
  | compare .ge => [.symbol .greaterEqual]
  | compare .isIn => [.keyword .in_]
  | compare .notIn => [.keyword .not_, .keyword .in_]
  | compare .is => [.keyword .is_]
  | compare .isNot => [.keyword .is_, .keyword .not_]
  | binary .add => [.symbol .plus]
  | binary .sub => [.symbol .minus]
  | binary .mul => [.symbol .star]
  | binary .div => [.symbol .slash]
  | binary .floorDiv => [.symbol .floorSlash]
  | binary .mod => [.symbol .percent]
  | binary .pow => [.symbol .power]
  | binary .bitAnd => [.symbol .ampersand]
  | binary .bitOr => [.symbol .bar]
  | binary .bitXor => [.symbol .caret]
  | binary .shiftLeft => [.symbol .shiftLeft]
  | binary .shiftRight => [.symbol .shiftRight]

/-- An operator starts with a token that is neither a text nor an `=`. -/
theorem kinds_cons (op : Connective) : ∃ k ks, op.kinds = k :: ks ∧ k ≠ .symbol .assign ∧
    ∀ text, k ≠ .str text := by
  rcases op with op | op | op <;> cases op <;>
    exact ⟨_, _, rfl, by simp, by simp⟩

/-- Whether an operator is written with two tokens. -/
def isDouble : Connective → Bool
  | compare .notIn | compare .isNot => true
  | _ => false

/-- What stands behind an operator does not make another operator of it: a `not` behind an `is`
belongs to it. -/
def Parts (op : Connective) (k : Token.Kind) : Prop := op = compare .is → k ≠ .keyword .not_

theorem Parts.of_ne {op : Connective} {k : Token.Kind} (h : k ≠ .keyword .not_) : op.Parts k :=
  fun _ => h

variable {c : Cursor} {op : Connective} {k : Token.Kind} {ks : List Token.Kind}

/-- An operator in front of a token is told by the next two tokens. -/
theorem ofKinds?_of_ahead (h : c.ahead = op.kinds ++ k :: ks) (hk : op.Parts k) :
    startsTrailer c.kind = false ∧ ofKinds? c.kind c.following = some (op, op.isDouble) := by
  have hone {first : Token.Kind} (hfirst : c.ahead = first :: k :: ks) :
      c.kind = first ∧ c.following = k :=
    ⟨Cursor.kind_of_ahead hfirst, Cursor.following_of_ahead hfirst⟩
  have htwo {first second : Token.Kind} (hfirst : c.ahead = first :: second :: k :: ks) :
      c.kind = first ∧ c.following = second :=
    ⟨Cursor.kind_of_ahead hfirst, Cursor.following_of_ahead hfirst⟩
  -- Only an `is` needs to know what stands behind it: the others are told by their own tokens.
  rcases op with op | op | op <;> cases op
  case compare.is =>
    obtain ⟨hkind, hfollowing⟩ := hone h
    have hne : k ≠ .keyword .not_ := hk rfl
    rw [hkind, hfollowing]
    refine ⟨rfl, ?_⟩
    unfold ofKinds?
    dsimp only
    split
    · exact absurd rfl hne
    · rfl
  case compare.notIn =>
    obtain ⟨hkind, hfollowing⟩ := htwo h
    rw [hkind, hfollowing]
    exact ⟨rfl, rfl⟩
  case compare.isNot =>
    obtain ⟨hkind, hfollowing⟩ := htwo h
    rw [hkind, hfollowing]
    exact ⟨rfl, rfl⟩
  all_goals
    obtain ⟨hkind, -⟩ := hone h
    rw [hkind]
    exact ⟨rfl, rfl⟩

/-- Reading the tokens of an operator. -/
theorem ahead_behind (h : c.ahead = op.kinds ++ k :: ks) :
    (if op.isDouble then c.advance.advance else c.advance).ahead = k :: ks := by
  rcases op with op | op | op <;> cases op
  case compare.notIn => exact Cursor.ahead_advance (Cursor.ahead_advance h (by simp)) (by simp)
  case compare.isNot => exact Cursor.ahead_advance (Cursor.ahead_advance h (by simp)) (by simp)
  all_goals exact Cursor.ahead_advance h (by simp)

end Connective

/-- If an operator stands ahead, then it has the property. -/
def Cursor.OperatorAhead (c : Cursor) (P : Connective → Prop) : Prop :=
  ∀ op two, Connective.ofKinds? c.kind c.following = some (op, two) → P op

theorem Cursor.OperatorAhead.mono {c : Cursor} {P Q : Connective → Prop} (h : c.OperatorAhead P)
    (hPQ : ∀ op, P op → Q op) : c.OperatorAhead Q := fun op two hop => hPQ op (h op two hop)

variable {sub : Nat → Parse Expr} {c : Cursor} {P Q : Expr → Prop} {ks out : List Token.Kind}

/-- Behind an operand, an operator that binds it strongly enough is read with its right side. -/
theorem Yields.connective {op : Connective} {k : Token.Kind} {ls : List Token.Kind}
    (h : c.ahead = op.kinds ++ k :: ls) (hk : op.Parts k) {least : Nat}
    (hleast : least ≤ op.strength.1) {compared : Bool}
    (hcompared : op.isCompare = true → compared = false) {left : Expr} {start n : Nat}
    (hright : ∀ c' : Cursor, c'.ahead = k :: ls → Yields (sub op.strength.2) c' Q ks)
    (hrest : ∀ (right : Expr) (c' : Cursor), Q right → c'.ahead = ks →
      Yields (continuation sub start least n (op.apply ⟨start, right.span.stop⟩ left right)
        op.isCompare) c' P out) :
    Yields (continuation sub start least (n + 1) left compared) c P out := by
  obtain ⟨htrailer, hop⟩ := Connective.ofKinds?_of_ahead h hk
  have hbehind := Connective.ahead_behind h
  have hchained : (op.isCompare && compared) = false := by
    cases hc : op.isCompare with
    | false => rfl
    | true => rw [hcompared hc, Bool.and_false]
  unfold continuation
  refine .get ?_
  rw [htrailer, if_neg Bool.false_ne_true, hop]
  dsimp only
  rw [if_neg (Nat.not_lt.2 hleast), hchained]
  cases hdouble : op.isDouble with
  | false =>
    rw [hdouble] at hbehind
    exact (hright c.advance hbehind).bind fun right c' hQ hc' => hrest right c' hQ hc'
  | true =>
    rw [hdouble] at hbehind
    exact (hright c.advance.advance hbehind).bind fun right c' hQ hc' => hrest right c' hQ hc'

/-- Behind an operand, nothing is read if the next operator does not bind it strongly enough. -/
theorem Yields.stopped {left : Expr} (hleft : P left) (h : c.ahead = ks)
    (htrailer : startsTrailer c.kind = false) {least : Nat}
    (hstops : c.OperatorAhead (·.strength.1 < least)) (start n : Nat) (compared : Bool) :
    Yields (continuation sub start least n left compared) c P ks := by
  cases n with
  | zero => exact .pure hleft h
  | succ n =>
    unfold continuation
    refine .get ?_
    rw [htrailer, if_neg Bool.false_ne_true]
    cases hop : Connective.ofKinds? c.kind c.following with
    | none => exact .pure hleft h
    | some found =>
      obtain ⟨op, two⟩ := found
      dsimp only
      rw [if_pos (hstops op two hop)]
      exact .pure hleft h

end StagedScript
