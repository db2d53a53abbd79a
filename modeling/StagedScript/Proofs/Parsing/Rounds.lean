import StagedScript.Proofs.Parsing.Pace

/-!
# Rounds of the loops in expressions

A loop of a reader is a round that may ask for the loop again.  Every round reads a token before it
does so.  A nested expression likewise is read behind a token of the one around it, so that it does
not matter how deeply expressions may nest, if there are no more tokens than that.
-/

namespace StagedScript

open Token (Kind)

/-! ## Rounds -/

namespace Parse

/-- One more string literal, if there is one. -/
def moreStringsRound (again : String → Parse String) (text : String) : Parse String := do
  match ← kind with
  | .str more =>
    advance
    again (text ++ more)
  | _ => return text

section

variable (sub : Nat → Parse Expr)

/-- One expression of a list up to a closing token, if there is one. -/
def commaListRound (close : Kind) (again : Parse (List Expr)) : Parse (List Expr) := do
  let c ← get
  if c.sees close || c.atEnd then return []
  let e ← sub 0
  if ← accept (.symbol .comma) then return e :: (← again)
  else return [e]

/-- One further item of a list without brackets, if there is one. -/
def moreItemsRound (again : Parse (List Expr)) : Parse (List Expr) := do
  if ← accept (.symbol .comma) then
    if startsExpr (← kind) then
      let e ← sub 0
      return e :: (← again)
    else return []
  else return []

/-- One entry of a dict, if there is one. -/
def entriesRound (again : Parse (List (Expr × Expr))) : Parse (List (Expr × Expr)) := do
  let c ← get
  if c.sees (.symbol .closeBrace) || c.atEnd then return []
  let k ← sub 0
  expect (.symbol .colon)
  let v ← sub 0
  if ← accept (.symbol .comma) then return (k, v) :: (← again)
  else return [(k, v)]

/-- One argument of a call, if there is one. -/
def argumentsRound (again : Bool → Parse (List (Arg Expr))) (named : Bool) :
    Parse (List (Arg Expr)) := do
  let c ← get
  if c.sees (.symbol .closeParen) || c.atEnd then return []
  let arg ← argument sub named
  if ← accept (.symbol .comma) then return arg :: (← again (named || namesArgument arg.role))
  else return [arg]

/-- One trailer, or one operator with its right operand, if there is one. -/
def continuationRound (start least : Nat) (again : Expr → Bool → Parse Expr) (left : Expr)
    (compared : Bool) : Parse Expr := do
  let c ← get
  if startsTrailer c.kind then
    let e ← trailer sub left
    again e compared
  else
    match Connective.ofKinds? c.kind c.following with
    | none => return left
    | some (op, two) =>
      if op.strength.1 < least then return left
      advance
      if two then advance
      if op.isCompare && compared then failAt left.span .chainedComparison
      let right ← sub op.strength.2
      again (op.apply ⟨start, right.span.stop⟩ left right) op.isCompare

end

end Parse

open Parse

/-! ## What a round reads -/

/-- On some cursors, and on all behind them, two readers of nested parts keep pace, and read a
token. -/
structure Abreast {ι α : Type} (S : Cursor → Prop) (x y : ι → Parse α) : Prop where
  onward : ∀ {c d : Cursor}, S c → c.Reaches d → S d
  paced : ∀ (i : ι) {c : Cursor}, S c → Paced .ahead (x i) (y i) c

section

variable {p : Pace} {c : Cursor} (hp : p ≠ .ahead)
include hp

theorem paced_moreStringsRound {again again' : String → Parse String}
    (hagain : ∀ text d, c.Precedes d → Paced p (again text) (again' text) d) (text : String) :
    Paced p (moreStringsRound again text) (moreStringsRound again' text) c := by
  unfold moreStringsRound
  refine .kind ?_
  split
  · next more hk => exact (Paced.advanced (by simp [hk])).past fun _ d => hagain _ d
  · exact .stop hp

variable {S : Cursor → Prop} {sub sub' : Nat → Parse Expr} (hsub : Abreast S sub sub')
include hsub

theorem paced_commaListRound {close : Kind} {again again' : Parse (List Expr)} (hc : S c)
    (hagain : ∀ d, c.Precedes d → Paced p again again' d) :
    Paced p (commaListRound sub close again) (commaListRound sub' close again') c := by
  unfold commaListRound
  refine .get ?_
  split
  · exact .stop hp
  · refine (hsub.paced 0 hc).past fun e d hd => .accept (by simp) (fun d' hd' => ?_) (.stop hp)
    exact (hagain d' (hd.trans hd')).last fun _ _ => ⟨_, rfl⟩

theorem paced_moreItemsRound {again again' : Parse (List Expr)}
    (hc : ∀ d, c.Precedes d → S d) (hagain : ∀ d, c.Precedes d → Paced p again again' d) :
    Paced p (moreItemsRound sub again) (moreItemsRound sub' again') c := by
  unfold moreItemsRound
  refine .accept (by simp) (fun d hd => .kind ?_) (.stop hp)
  split
  · refine (hsub.paced 0 (hc d hd)).past fun e d' hd' => ?_
    exact (hagain d' (hd.trans hd')).last fun _ _ => ⟨_, rfl⟩
  · exact .stop hp

theorem paced_entriesRound {again again' : Parse (List (Expr × Expr))} (hc : S c)
    (hagain : ∀ d, c.Precedes d → Paced p again again' d) :
    Paced p (entriesRound sub again) (entriesRound sub' again') c := by
  unfold entriesRound
  refine .get ?_
  split
  · exact .stop hp
  · refine (hsub.paced 0 hc).past fun k d hd => (Paced.expected (by simp)).past fun _ d' hd' => ?_
    have hd' := hd.trans hd'
    refine (hsub.paced 0 (hsub.onward hc hd'.reaches)).past fun v e he => ?_
    refine .accept (by simp) (fun e' he' => ?_) (.stop hp)
    exact (hagain e' ((hd'.trans he).trans he')).last fun _ _ => ⟨_, rfl⟩

end

section

variable {S : Cursor → Prop} {sub sub' : Nat → Parse Expr} (hsub : Abreast S sub sub') {c : Cursor}
include hsub

theorem paced_argument (named : Bool) (hc : S c) :
    Paced .ahead (argument sub named) (argument sub' named) c := by
  -- Behind the sign or the name of an argument there is an expression.
  have hrest (role : ArgRole) {d : Cursor} (hd : c.Reaches d) :
      Paced .ahead (do return ⟨role, ← sub 0⟩) (do return (⟨role, ← sub' 0⟩ : Arg Expr)) d :=
    (hsub.paced 0 (hsub.onward hc hd)).first fun _ _ _ => .pure
  unfold argument
  refine .get ?_
  split
  · exact .advance fun d hd => hrest _ hd
  · exact .advance fun d hd => hrest _ hd
  · exact .advance fun d hd => .advance fun d' hd' => hrest _ (hd.trans hd')
  · exact .check (hrest _ (.refl c))

theorem paced_argumentsRound {p : Pace} (hp : p ≠ .ahead)
    {again again' : Bool → Parse (List (Arg Expr))} (hc : S c)
    (hagain : ∀ named d, c.Precedes d → Paced p (again named) (again' named) d) (named : Bool) :
    Paced p (argumentsRound sub again named) (argumentsRound sub' again' named) c := by
  unfold argumentsRound
  refine .get ?_
  split
  · exact .stop hp
  · refine (paced_argument hsub named hc).past fun arg d hd => ?_
    refine .accept (by simp) (fun d' hd' => ?_) (.stop hp)
    exact (hagain _ d' (hd.trans hd')).last fun _ _ => ⟨_, rfl⟩

end

/-! ## Loops -/

theorem paced_moreStrings (n : Nat) (text : String) (c : Cursor) :
    Paced .onward (moreStrings n text) (moreStrings n text) c := by
  induction n generalizing text c with
  | zero => exact .pure
  | succ n ih => exact paced_moreStringsRound (by simp) (fun text d _ => ih text d) text

section

variable {S : Cursor → Prop} {sub sub' : Nat → Parse Expr} (hsub : Abreast S sub sub') {c : Cursor}
include hsub

theorem paced_commaList (close : Kind) (n : Nat) (hc : S c) :
    Paced .onward (commaList sub close n) (commaList sub' close n) c := by
  induction n generalizing c with
  | zero => exact .pure
  | succ n ih =>
    exact paced_commaListRound (by simp) hsub hc fun d hd => ih (hsub.onward hc hd.reaches)

theorem paced_moreItems (n : Nat) (hc : S c) :
    Paced .onward (moreItems sub n) (moreItems sub' n) c := by
  induction n generalizing c with
  | zero => exact .pure
  | succ n ih =>
    have hbehind (d) (hd : c.Precedes d) : S d := hsub.onward hc hd.reaches
    exact paced_moreItemsRound (by simp) hsub hbehind fun d hd => ih (hbehind d hd)

theorem paced_exprList (hc : S c) : Paced .ahead (exprList sub) (exprList sub') c := by
  unfold exprList
  refine .here fun start => (hsub.paced 0 hc).first fun first d hd => .sees (fun _ => ?_) .pure
  refine .rounds fun n _ => (paced_moreItems hsub n (hsub.onward hc hd.reaches)).then_
    fun _ _ _ => ?_
  exact .spanFrom fun _ => .pure

theorem paced_entries (n : Nat) (hc : S c) :
    Paced .onward (entries sub n) (entries sub' n) c := by
  induction n generalizing c with
  | zero => exact .pure
  | succ n ih =>
    exact paced_entriesRound (by simp) hsub hc fun d hd => ih (hsub.onward hc hd.reaches)

theorem paced_arguments (n : Nat) (named : Bool) (hc : S c) :
    Paced .onward (arguments sub n named) (arguments sub' n named) c := by
  induction n generalizing named c with
  | zero => exact .pure
  | succ n ih =>
    exact paced_argumentsRound hsub (by simp) hc
      (fun named d hd => ih named (hsub.onward hc hd.reaches)) named

theorem paced_paren (hk : c.kind ≠ .eof) (hc : ∀ d, c.Precedes d → S d) :
    Paced .ahead (paren sub) (paren sub') c := by
  unfold paren
  refine .here fun start => (Paced.advanced hk).first fun _ d hd => .accept (by simp)
    (fun _ _ => .spanFrom fun _ => .pure) ?_
  refine (hsub.paced 0 (hc d hd)).past fun first d' hd' => ?_
  have hd' := hc d' (hd.trans hd')
  refine .accept (by simp) (fun e he => .rounds fun n _ => ?_) ?_
  · refine (paced_commaList hsub _ n (hsub.onward hd' he.reaches)).then_ fun items _ _ => ?_
    exact (Paced.expected (by simp)).past fun _ _ _ => .spanFrom fun _ => .pure
  · exact (Paced.expected (by simp)).past fun _ _ _ => .pure

theorem paced_operand (hc : ∀ d, c.Precedes d → S d) :
    Paced .ahead (operand sub) (operand sub') c := by
  have hone {x y : Parse Expr} {k : Kind} (hk : c.kind = k) (hne : k ≠ .eof)
      (hxy : ∀ d, S d → Paced .onward x y d) : Paced .ahead (do advance; x) (do advance; y) c :=
    (Paced.advanced (hk ▸ hne)).first fun _ d hd => hxy d (hc d hd)
  unfold operand
  refine .get ?_
  dsimp only
  split
  · next hk => exact hone hk (by simp) fun d _ => .spanFrom fun _ => .pure
  · next hk => exact hone hk (by simp) fun d _ => .spanFrom fun _ => .pure
  · next hk =>
    refine hone hk (by simp) fun d _ => .rounds fun n _ => ?_
    exact (paced_moreStrings n _ d).then_ fun text _ _ => .spanFrom fun _ => .pure
  · next hk => exact hone hk (by simp) fun d _ => .spanFrom fun _ => .pure
  · next hk => exact hone hk (by simp) fun d _ => .spanFrom fun _ => .pure
  · next hk => exact hone hk (by simp) fun d _ => .spanFrom fun _ => .pure
  · next hk => exact hone hk (by simp) fun d _ => .spanFrom fun _ => .pure
  · next hk => exact paced_paren hsub (by simp [hk]) hc
  · next hk =>
    refine hone hk (by simp) fun d hd => .rounds fun n _ => ?_
    refine (paced_commaList hsub _ n hd).then_ fun items _ _ => ?_
    exact (Paced.expected (by simp)).past fun _ _ _ => .spanFrom fun _ => .pure
  · next hk =>
    refine hone hk (by simp) fun d hd => .rounds fun n _ => ?_
    refine (paced_entries hsub n hd).then_ fun es _ _ => ?_
    exact (Paced.expected (by simp)).past fun _ _ _ => .spanFrom fun _ => .pure
  · exact .failAt
  · split
    · next op strength hsign =>
      have hk : c.kind ≠ .eof := by
        intro hk
        rw [hk] at hsign
        cases hsign
      refine hone rfl hk fun d hd => (hsub.paced strength hd).past fun e _ _ => ?_
      exact .spanFrom fun _ => .pure
    · exact .missing

theorem paced_trailer (object : Expr) (hk : startsTrailer c.kind = true) (hc : S c) :
    Paced .ahead (trailer sub object) (trailer sub' object) c := by
  have hone {x y : Parse Expr} {k : Kind} (hk : c.kind = k) (hne : k ≠ .eof)
      (hxy : ∀ d, S d → Paced .onward x y d) : Paced .ahead (do advance; x) (do advance; y) c :=
    (Paced.advanced (hk ▸ hne)).first fun _ d hd => hxy d (hsub.onward hc hd.reaches)
  unfold trailer
  refine .kind ?_
  split
  · next hk =>
    refine hone hk (by simp) fun d hd => .rounds fun n _ => ?_
    refine (paced_arguments hsub n false hd).then_ fun args _ _ => ?_
    exact (Paced.expected (by simp)).past fun _ _ _ => .spanFrom fun _ => .pure
  · next hk =>
    exact hone hk (by simp) fun d _ => Paced.named.past fun x _ _ => .spanFrom fun _ => .pure
  · next hk =>
    refine hone hk (by simp) fun d hd => (paced_exprList hsub hd).past fun index _ _ => ?_
    exact (Paced.expected (by simp)).past fun _ _ _ => .spanFrom fun _ => .pure
  · next hparen hdot hbracket =>
    -- There is no further token that a trailer starts with.
    unfold startsTrailer at hk
    split at hk
    · next s hs =>
      simp only [Bool.or_eq_true, beq_iff_eq] at hk
      rcases hk with (rfl | rfl) | rfl
      · exact absurd hs hparen
      · exact absurd hs hdot
      · exact absurd hs hbracket
    · cases hk

theorem paced_continuationRound {p : Pace} (hp : p ≠ .ahead) (start least : Nat)
    {again again' : Expr → Bool → Parse Expr} (hc : S c)
    (hagain : ∀ left compared d, c.Precedes d → Paced p (again left compared)
      (again' left compared) d)
    (left : Expr) (compared : Bool) :
    Paced p (continuationRound sub start least again left compared)
      (continuationRound sub' start least again' left compared) c := by
  unfold continuationRound
  refine .get ?_
  split
  · next hk => exact (paced_trailer hsub left hk hc).past fun e d => hagain e compared d
  · split
    · exact .stop hp
    · next op two hop =>
      obtain ⟨-, heof, -⟩ := common_of_ofKinds? hop
      split
      · exact .stop hp
      · have hright {d : Cursor} (hd : c.Precedes d) : Paced p
            (do let right ← sub op.strength.2
                again (op.apply ⟨start, right.span.stop⟩ left right) op.isCompare)
            (do let right ← sub' op.strength.2
                again' (op.apply ⟨start, right.span.stop⟩ left right) op.isCompare) d :=
          (hsub.paced _ (hsub.onward hc hd.reaches)).past fun right e he =>
            hagain _ _ e (hd.trans he)
        refine (Paced.advanced heof).past fun _ d hd => ?_
        dsimp only
        split
        · exact .advance fun d' hd' => .check (hright (hd.trans_reaches hd'))
        · exact .check (hright hd)

theorem paced_continuation (start least n : Nat) (left : Expr) (compared : Bool) (hc : S c) :
    Paced .onward (continuation sub start least n left compared)
      (continuation sub' start least n left compared) c := by
  induction n generalizing left compared c with
  | zero => exact .pure
  | succ n ih =>
    exact paced_continuationRound hsub (by simp) start least hc
      (fun left compared d hd => ih left compared (hsub.onward hc hd.reaches)) left compared

end

/-! ## Nested expressions -/

/-- The cursors behind one, on all of which two readers of nested parts keep pace. -/
theorem Abreast.behind {ι α : Type} {x y : ι → Parse α} {c : Cursor}
    (h : ∀ i d, c.Precedes d → Paced .ahead (x i) (y i) d) : Abreast c.Precedes x y where
  onward := Cursor.Precedes.trans_reaches
  paced i d hd := h i d hd

/-- An expression reads a token, and what it reads does not depend on how deeply it may nest, if it
may as deeply as there are tokens. -/
theorem paced_exprWithin {depth depth' : Nat} {c : Cursor}
    (hdepth : depth = depth' ∨ c.rest.length < depth ∧ c.rest.length < depth') (least : Nat) :
    Paced .ahead (exprWithin depth least) (exprWithin depth' least) c := by
  induction depth generalizing depth' c least with
  | zero =>
    obtain rfl : 0 = depth' := by omega
    exact .here fun _ => .failAt
  | succ depth ih =>
    obtain ⟨depth', rfl⟩ : ∃ n, depth' = n + 1 := ⟨depth' - 1, by omega⟩
    have hsub : Abreast c.Precedes (exprWithin depth) (exprWithin depth') :=
      .behind fun least d hd => ih (by have := hd.length_lt; omega) least
    unfold exprWithin
    refine .here fun start => (paced_operand hsub fun d hd => hd).first fun left d hd => ?_
    exact .rounds fun n _ => paced_continuation hsub start.start least n left false hd

/-- An expression reads a token. -/
theorem paced_exprAbove (least : Nat) (c : Cursor) :
    Paced .ahead (exprAbove least) (exprAbove least) c :=
  .rounds fun _ _ => paced_exprWithin (.inl rfl) least

theorem abreast_exprAbove : Abreast (fun _ => True) exprAbove exprAbove where
  onward _ _ := trivial
  paced least c _ := paced_exprAbove least c

theorem paced_expr (c : Cursor) : Paced .ahead expr expr c := paced_exprAbove 0 c

theorem paced_exprs (c : Cursor) : Paced .ahead exprs exprs c :=
  paced_exprList abreast_exprAbove trivial

/-- As many nested expressions as there are tokens are enough. -/
theorem exprWithin_eq {depth : Nat} {c : Cursor} (h : c.rest.length < depth) (least : Nat) :
    exprWithin depth least c = exprAbove least c :=
  (paced_exprWithin (.inr ⟨h, Nat.lt_succ_of_le c.length_rest_le⟩) least).eq

end StagedScript
