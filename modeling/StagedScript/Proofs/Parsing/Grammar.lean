import StagedScript.Proofs.Parsing.Operators

/-!
# What is derived is read

An expression that the grammar derives is read with the tree of the derivation, up to a token that
does not belong to it.  A derivation has its operators from the left to the right inside each other
where the reader goes round a loop, so the statement that the induction needs is about the loop: if
reading can go on behind the expression with its tree, then it can start in front of it.
-/

/-!
## The grammar of operators

Operators have levels, from those that bind most weakly on.  An expression of a level has operators
of this level and of those that bind more strongly.  The operators of most levels group to the left;
comparisons do not group at all, and the power groups to the right, where a sign may stand in front
of its right side.  Sequences of tokens are derived with the trees that they stand for.
-/

namespace StagedScript

/-- How strongly the operators of an expression bind, from the weakest on. -/
inductive Level where
  | disj | conj | comparison | bitOr | bitXor | bitAnd | shift | sum | product | sign |
      power | operand
deriving DecidableEq, Repr

namespace Level

/-- The place of a level among all levels. -/
def rank : Level → Nat
  | disj => 0 | conj => 1 | comparison => 2 | bitOr => 3 | bitXor => 4 | bitAnd => 5 | shift => 6
  | sum => 7 | product => 8 | sign => 9 | power => 10 | operand => 11

/-- The level that binds just more strongly; there is none above that of single operands. -/
def next : Level → Level
  | disj => conj | conj => comparison | comparison => bitOr | bitOr => bitXor | bitXor => bitAnd
  | bitAnd => shift | shift => sum | sum => product | product => sign | sign => power
  | power => operand | operand => operand

/-- The levels of what stands on the two sides of an operator of a level.  On the left an operator
of the same level may stand where operators group to the left. -/
def sides : Level → Level × Level
  | comparison => (bitOr, bitOr)
  | power => (operand, sign)
  | l => (l, l.next)

end Level

/-- The level of an operator. -/
def Connective.level : Connective → Level
  | logical .disj => .disj
  | logical .conj => .conj
  | compare _ => .comparison
  | binary .bitOr => .bitOr
  | binary .bitXor => .bitXor
  | binary .bitAnd => .bitAnd
  | binary .shiftLeft | binary .shiftRight => .shift
  | binary .add | binary .sub => .sum
  | binary .mul | binary .div | binary .floorDiv | binary .mod => .product
  | binary .pow => .power

/-- Tokens are derived as an expression of a level.  The tree of the expression has no spans. -/
inductive Derives : Level → List Token.Kind → Expr → Prop where
  | int (n : Int64) : Derives .operand [.int n] (.int .nowhere n)
  | float (x : Float) : Derives .operand [.float x] (.float .nowhere x)
  | name (x : String) : Derives .operand [.ident x] (.name .nowhere x)
  /-- A sign stands in front of an expression with or without one. -/
  | sign {op : UnaryOp} {ks : List Token.Kind} {e : Expr} : op ≠ .not → Derives .sign ks e →
      Derives .sign (op.kind :: ks) (.unary .nowhere op e)
  /-- An operator stands between two expressions that bind strongly enough. -/
  | join (op : Connective) {ks ls : List Token.Kind} {a b : Expr} : Derives op.level.sides.1 ks a →
      Derives op.level.sides.2 ls b →
      Derives op.level (ks ++ op.kinds ++ ls) (op.apply .nowhere a b)
  /-- What binds more strongly needs no operator of the level. -/
  | next {l : Level} {ks : List Token.Kind} {e : Expr} : Derives l.next ks e → Derives l ks e

/-- The tokens are names, numbers, signs and operators between operands, in any order. -/
inductive Token.Operators : List Token.Kind → Prop where
  | nil : Token.Operators []
  | int (n : Int64) {ks : List Token.Kind} : Token.Operators ks → Token.Operators (.int n :: ks)
  | float (x : Float) {ks : List Token.Kind} : Token.Operators ks → Token.Operators (.float x :: ks)
  | name (x : String) {ks : List Token.Kind} : Token.Operators ks → Token.Operators (.ident x :: ks)
  | sign {op : UnaryOp} {ks : List Token.Kind} : op ≠ .not → Token.Operators ks →
      Token.Operators (op.kind :: ks)
  | connective (op : Connective) {ks : List Token.Kind} : Token.Operators ks →
      Token.Operators (op.kinds ++ ks)

/-! ### Levels and strengths -/

namespace Level

theorem rank_le_next (l : Level) : l.rank ≤ l.next.rank := by cases l <;> decide

theorem rank_le_left (l : Level) : l.rank ≤ l.sides.1.rank := by cases l <;> decide

/-- How strongly the operators of a level bind their two sides. -/
def strength : Level → Nat × Nat
  | disj => (1, 2) | conj => (3, 4) | comparison => (7, 8) | bitOr => (9, 10) | bitXor => (11, 12)
  | bitAnd => (13, 14) | shift => (15, 16) | sum => (17, 18) | product => (19, 20)
  | sign => (21, 21) | power => (23, 22) | operand => (25, 25)

/-- Operators that bind their left side with a strength are just those of a level and those that
bind more strongly. -/
def Starts (l : Level) (least : Nat) : Prop :=
  ∀ op : Connective, least ≤ op.strength.1 ↔ l.rank ≤ op.level.rank

/-- The operator may stand behind an expression of the level: it does not belong to the end of
it. -/
def Precedes (l : Level) (op : Connective) : Prop :=
  l = .operand ∨ op.level.rank ≤ l.rank ∧ op.level.rank < Level.sign.rank

end Level

namespace Connective

variable {op op' : Connective}

theorem strength_eq (op : Connective) : op.strength = op.level.strength := by
  rcases op with op | op | op <;> cases op <;> rfl

theorem level_ne (op : Connective) : op.level ≠ .sign ∧ op.level ≠ .operand := by
  rcases op with op | op | op <;> cases op <;>
    exact ⟨by simp [level], by simp [level]⟩

theorem eq_of_level_disj (h : op.level = .disj) : op = logical .disj := by
  rcases op with op | op | op <;> cases op
  case logical.disj => rfl
  all_goals cases h

theorem eq_of_level_conj (h : op.level = .conj) : op = logical .conj := by
  rcases op with op | op | op <;> cases op
  case logical.conj => rfl
  all_goals cases h

theorem isCompare_iff : op.isCompare = true ↔ op.level = .comparison := by
  rcases op with op | op | op
  case compare => exact iff_of_true rfl rfl
  all_goals cases op <;> decide

end Connective

namespace Level

theorem starts_disj : disj.Starts 0 := fun _ => by simp [rank]

theorem starts_of_strength {l : Level} {least : Nat}
    (h : ∀ m : Level, m ≠ .sign → m ≠ .operand → (least ≤ m.strength.1 ↔ l.rank ≤ m.rank)) :
    l.Starts least := by
  intro op
  rw [op.strength_eq]
  exact h op.level op.level_ne.1 op.level_ne.2

theorem starts_sign : sign.Starts 21 := by
  refine starts_of_strength fun m => ?_
  cases m <;> decide

/-- The right side of an operator is read as an expression of its level. -/
theorem starts_side (op : Connective) : op.level.sides.2.Starts op.strength.2 := by
  refine starts_of_strength fun m => ?_
  -- The operator counts by its level alone, and there are few levels.
  obtain ⟨hsign, hoperand⟩ := op.level_ne
  rw [op.strength_eq]
  revert hsign hoperand
  generalize op.level = l
  cases l <;> cases m <;> decide

theorem rank_right_le (op : Connective) : op.level.sides.2.rank ≤ sign.rank := by
  obtain ⟨hsign, hoperand⟩ := op.level_ne
  revert hsign hoperand
  generalize op.level = l
  cases l <;> decide

/-- What may stand behind an operator's right side is what does not bind it more strongly than the
operator. -/
theorem precedes_iff {op op' : Connective} :
    op.level.Precedes op' ↔ op'.strength.1 < op.strength.2 := by
  obtain ⟨hsign, hoperand⟩ := op.level_ne
  obtain ⟨hsign', hoperand'⟩ := op'.level_ne
  rw [op.strength_eq, op'.strength_eq, Precedes]
  revert hsign hoperand hsign' hoperand'
  generalize op.level = l
  generalize op'.level = m
  cases l <;> cases m <;> decide

theorem precedes_sign_iff {op : Connective} : sign.Precedes op ↔ op.strength.1 < 21 := by
  obtain ⟨hsign, hoperand⟩ := op.level_ne
  rw [op.strength_eq, Precedes]
  revert hsign hoperand
  generalize op.level = l
  cases l <;> decide

theorem Precedes.next {l : Level} {op : Connective} (h : l.Precedes op) : l.next.Precedes op := by
  rcases h with rfl | ⟨hle, hlt⟩
  · exact .inl rfl
  · exact .inr ⟨Nat.le_trans hle l.rank_le_next, hlt⟩

theorem Precedes.right {op op' : Connective} (h : op.level.Precedes op') :
    op.level.sides.2.Precedes op' := by
  obtain ⟨hsign, hoperand⟩ := op.level_ne
  unfold Precedes at h ⊢
  revert hsign hoperand h
  generalize op.level = l
  generalize op'.level = m
  cases l <;> cases m <;> decide

/-- What an operator may stand behind can be its left side, unless both are comparisons. -/
theorem rank_left_le {l : Level} {op : Connective} (h : l.Precedes op)
    (hcompare : op.level = .comparison → l ≠ .comparison) : op.level.sides.1.rank ≤ l.rank := by
  obtain ⟨hsign, hoperand⟩ := op.level_ne
  unfold Precedes at h
  revert hsign hoperand h hcompare
  generalize op.level = m
  cases l <;> cases m <;> decide

/-- An operator stands behind its left side. -/
theorem precedes_side (op : Connective) : op.level.sides.1.Precedes op := by
  obtain ⟨hsign, hoperand⟩ := op.level_ne
  rw [Precedes]
  revert hsign hoperand
  generalize op.level = l
  cases l <;> decide

end Level

/-! ### Derivations -/

namespace Derives

variable {l : Level} {ks : List Token.Kind} {e : Expr}

theorem lift {m : Level} (h : Derives m ks e) (hle : l.rank ≤ m.rank) : Derives l ks e := by
  obtain ⟨n, hn⟩ := Nat.exists_eq_add_of_le hle
  induction n generalizing l with
  | zero =>
    have heq : m = l := by
      revert hn
      cases m <;> cases l <;> decide
    exact heq ▸ h
  | succ n ih =>
    have hnext : m.rank = l.next.rank + n := by
      have hm : m.rank ≤ 11 := by cases m <;> decide
      cases l <;> simp only [Level.rank, Level.next] at hn hm hle ⊢ <;> omega
    exact .next (ih (by omega) hnext)

/-- What is derived does not start with a `not`. -/
theorem head (h : Derives l ks e) : ∃ k rest, ks = k :: rest ∧ k ≠ .keyword .not_ := by
  induction h with
  | int n => exact ⟨_, _, rfl, by simp⟩
  | float x => exact ⟨_, _, rfl, by simp⟩
  | name x => exact ⟨_, _, rfl, by simp⟩
  | @sign op ks e hop _ _ =>
    refine ⟨_, _, rfl, ?_⟩
    cases op <;> simp_all [UnaryOp.kind]
  | join op _ _ iha _ =>
    obtain ⟨k, rest, rfl, hk⟩ := iha
    exact ⟨k, _, rfl, hk⟩
  | next _ ih => exact ih

end Derives

open Parse

namespace Level

variable {l : Level} {ks : List Token.Kind}

/-- The tokens bound an expression of the level: no trailer starts with them, and if they start with
an operator then it may stand behind such an expression. -/
def Bounds (l : Level) (ks : List Token.Kind) : Prop :=
  ∀ c : Cursor, c.ahead = ks → startsTrailer c.kind = false ∧ c.OperatorAhead l.Precedes

theorem Bounds.of_ends {k : Token.Kind} (hk : k.Ends) : l.Bounds (k :: ks) := by
  intro c hc
  refine ⟨by rw [Cursor.kind_of_ahead hc, hk.trailer], fun op two hop => ?_⟩
  rw [Cursor.kind_of_ahead hc, hk.connective] at hop
  cases hop

theorem Bounds.of_kinds {op : Connective} {k : Token.Kind} (hk : op.Parts k) (hop : l.Precedes op) :
    l.Bounds (op.kinds ++ k :: ks) := by
  intro c hc
  obtain ⟨htrailer, hfound⟩ := Connective.ofKinds?_of_ahead hc hk
  refine ⟨htrailer, fun op' two h => ?_⟩
  rw [hfound] at h
  cases h
  exact hop

theorem Bounds.next (h : l.Bounds ks) : l.next.Bounds ks := fun c hc =>
  ⟨(h c hc).1, (h c hc).2.mono fun _ => Level.Precedes.next⟩

/-- What bounds a whole bounds its right side. -/
theorem Bounds.right {op : Connective} (h : op.level.Bounds ks) : op.level.sides.2.Bounds ks :=
  fun c hc => ⟨(h c hc).1, (h c hc).2.mono fun _ => Level.Precedes.right⟩

end Level

/-- In front of tokens that bound the level, reading can start with these tokens as far as it can go
on behind an operand with this tree.  The operators of the level bind strongly enough, and where the
operand counts as a comparison the level is not above that of comparisons. -/
def ReadsOn (l : Level) (ks : List Token.Kind) (e : Expr) : Prop :=
  ∀ (least depth start : Nat) (c : Cursor) (rest out : List Token.Kind) (P : Expr → Prop),
    (∀ op : Connective, l.rank ≤ op.level.rank → least ≤ op.strength.1) → ks.length ≤ depth →
    c.ahead = ks ++ rest → l.Bounds rest →
    (∀ (e' : Expr) (c' : Cursor) (n : Nat) (compared : Bool), e'.bare = e → c'.ahead = rest →
      rest.length < n → (compared = true → l.rank ≤ Level.comparison.rank) →
      Yields (continuation (exprWithin depth) start least n e' compared) c' P out) →
    Yields (operand (exprWithin depth) >>= fun left => Parse.rounds >>= fun n =>
      continuation (exprWithin depth) start least n left false) c P out

namespace ReadsOn

variable {l : Level} {ks : List Token.Kind} {e : Expr}

/-- An operand that is read on its own. -/
theorem of_operand (h : ∀ (depth : Nat) (c : Cursor) (rest : List Token.Kind), ks.length ≤ depth →
      c.ahead = ks ++ rest → l.Bounds rest →
      Yields (operand (exprWithin depth)) c (·.bare = e) rest) : ReadsOn l ks e := by
  intro least depth start c rest out P _ hdepth hc hrest hgo
  refine (h depth c rest hdepth hc hrest).bind fun e' c' he' hc' => .rounds fun n hn => ?_
  exact hgo e' c' n false he' hc' (hc' ▸ hn) (by simp)

/-- In front of tokens that stop it, the expression is read whole. -/
theorem within (h : ReadsOn l ks e) {least depth : Nat} (hleast : l.Starts least)
    (hdepth : ks.length < depth) {c : Cursor} {rest : List Token.Kind} (hc : c.ahead = ks ++ rest)
    (hrest : l.Bounds rest)
    (hstops : ∀ c' : Cursor, c'.ahead = rest → c'.OperatorAhead (·.strength.1 < least)) :
    Yields (exprWithin depth least) c (·.bare = e) rest := by
  obtain ⟨depth, rfl⟩ : ∃ d, depth = d + 1 := ⟨depth - 1, by omega⟩
  unfold exprWithin
  refine .here fun span => ?_
  refine h least depth _ c rest rest _ (fun op hop => (hleast op).2 hop) (by omega) hc hrest ?_
  intro e' c' n compared he' hc' _ _
  exact Yields.stopped (P := (·.bare = e)) he' hc' (hrest c' hc').1 (hstops c' hc') _ _ _

theorem sign {op : UnaryOp} (hop : op ≠ .not) (h : ReadsOn .sign ks e) :
    ReadsOn .sign (op.kind :: ks) (.unary .nowhere op e) := by
  refine of_operand fun depth c rest hdepth hc hrest => ?_
  have hsign : sign? op.kind = some (op, 21) := by
    cases op
    case not => exact absurd rfl hop
    all_goals rfl
  rw [List.length_cons] at hdepth
  refine (Yields.signOperand (Q := (·.bare = e)) hc hsign fun c' hc' => ?_).mono ?_
  · exact h.within Level.starts_sign (by omega) hc' hrest fun c₂ hc₂ =>
      (hrest c₂ hc₂).2.mono fun _ => Level.precedes_sign_iff.1
  · rintro _ ⟨span, x, rfl, rfl⟩
    rfl

theorem next (h : ReadsOn l.next ks e) : ReadsOn l ks e := by
  intro least depth start c rest out P hleast hdepth hc hrest hgo
  refine h least depth start c rest out P (fun op hop => hleast op ?_) hdepth hc hrest.next ?_
  · exact Nat.le_trans l.rank_le_next hop
  · exact fun e' c' n compared he' hc' hn hcompared =>
      hgo e' c' n compared he' hc' hn fun h => Nat.le_trans l.rank_le_next (hcompared h)

/-- The left side is read on its own, and behind it the operator with its right side. -/
theorem join {op : Connective} {ls : List Token.Kind} {a b : Expr}
    (ha : ReadsOn op.level.sides.1 ks a) (hb : ReadsOn op.level.sides.2 ls b)
    (hks : ks ≠ []) (hls : ∃ k rest, ls = k :: rest ∧ k ≠ .keyword .not_) :
    ReadsOn op.level (ks ++ op.kinds ++ ls) (op.apply .nowhere a b) := by
  intro least depth start c rest out P hleast hdepth hc hrest hgo
  obtain ⟨k, ls, rfl, hk⟩ := hls
  have hlength : 0 < ks.length := List.length_pos_of_ne_nil hks
  simp only [List.length_append] at hdepth
  rw [List.append_assoc, List.append_assoc, List.cons_append] at hc
  -- Reading starts with the left side, behind which it goes on with this operator.
  refine ha least depth start c _ out P (fun op' hop' => hleast op' ?_) (by omega) hc ?_ ?_
  · exact Nat.le_trans op.level.rank_le_left hop'
  · exact .of_kinds (.of_ne hk) (Level.precedes_side op)
  · intro e' c' n compared he' hc' hn hcompared
    obtain ⟨n, rfl⟩ : ∃ m, n = m + 1 := ⟨n - 1, by omega⟩
    have hright (c₂ : Cursor) (hc₂ : c₂.ahead = k :: (ls ++ rest)) :
        Yields (exprWithin depth op.strength.2) c₂ (·.bare = b) rest := by
      exact hb.within (Level.starts_side op) (by omega) hc₂ hrest.right fun c₃ hc₃ =>
        (hrest c₃ hc₃).2.mono fun _ => Level.precedes_iff.1
    refine .connective hc' (.of_ne hk) (hleast op (Nat.le_refl _)) (fun hop => ?_) hright ?_
    · -- On the sides of a comparison the operators bind more strongly than comparisons.
      cases compared with
      | false => rfl
      | true =>
        have hle := hcompared rfl
        rw [Connective.isCompare_iff.1 hop] at hle
        exact absurd hle (by decide)
    · intro right c₂ hright hc₂
      refine hgo _ c₂ n op.isCompare ?_ hc₂ ?_ fun hop => ?_
      · rw [Expr.bare_apply, he', hright]
      · simp only [List.length_append, List.length_cons] at hn
        omega
      · exact Nat.le_of_eq (congrArg Level.rank (Connective.isCompare_iff.1 hop))

end ReadsOn

/-- Reading can start with what is derived. -/
theorem Derives.readsOn {l : Level} {ks : List Token.Kind} {e : Expr} (h : Derives l ks e) :
    ReadsOn l ks e := by
  induction h with
  | int n =>
    exact .of_operand fun _ _ _ _ hc _ => (Yields.intOperand hc).mono fun _ ⟨_, he⟩ => he ▸ rfl
  | float x =>
    exact .of_operand fun _ _ _ _ hc _ => (Yields.floatOperand hc).mono fun _ ⟨_, he⟩ => he ▸ rfl
  | name x =>
    exact .of_operand fun _ _ _ _ hc _ => (Yields.nameOperand hc).mono fun _ ⟨_, he⟩ => he ▸ rfl
  | sign hop _ ih => exact ih.sign hop
  | join op ha hb iha ihb =>
    obtain ⟨k, rest, rfl, -⟩ := ha.head
    exact iha.join ihb (by simp) hb.head
  | next _ ih => exact ih.next

/-- In front of a token that no expression goes on with, what is derived is read whole. -/
theorem Derives.yields {ks rest : List Token.Kind} {k : Token.Kind} {e : Expr}
    (h : Derives .disj ks e) (hk : k.Ends) {c : Cursor} (hc : c.ahead = ks ++ k :: rest) :
    Yields Parse.expr c (·.bare = e) (k :: rest) := by
  unfold Parse.expr exprAbove
  refine .rounds fun n hn => ?_
  have hlength : ks.length < n := by
    rw [hc, List.length_append] at hn
    omega
  refine h.readsOn.within Level.starts_disj hlength hc (.of_ends hk) fun c' hc' op two hop => ?_
  rw [Cursor.kind_of_ahead hc', hk.connective] at hop
  cases hop

end StagedScript
