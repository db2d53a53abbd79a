import StagedScript.Proofs.Parsing.Rounds

/-!
# Reading always goes on

Whatever the tokens are, every loop of the reader reads a token before it goes round again, every
statement reads one, and behind a broken statement one is passed unless the text is at its end.
Reading therefore ends, and none of its loops is cut short by the bound that it is given.
-/

namespace StagedScript

open Token (Kind)

/-! ## Rounds -/

namespace Parse

/-- One further target of an assignment, or its value. -/
def assignedRound (again : Parse (List Expr × Expr)) : Parse (List Expr × Expr) := do
  advance
  let e ← exprs
  if ← sees (.symbol .assign) then
    let (targets, value) ← again
    return (e :: targets, value)
  else return ([], e)

/-- One further simple statement of a line, if there is one. -/
def moreSimpleRound (again : Parse (List Stmt)) : Parse (List Stmt) := do
  if ← accept (.symbol .semicolon) then
    if ← sees .newline then return []
    let s ← simple
    return s :: (← again)
  else return []

/-- One further target of a loop, if there is one. -/
def moreTargetsRound (again : Parse (List Expr)) : Parse (List Expr) := do
  if ← accept (.symbol .comma) then
    if ← sees (.keyword .in_) then return []
    let e ← exprAbove Connective.aboveCompare
    return e :: (← again)
  else return []

/-- One parameter, if there is one. -/
def paramsRound (again : List (Param Expr) → Parse (List (Param Expr)))
    (before : List (Param Expr)) :
    Parse (List (Param Expr)) := do
  if ← sees (.symbol .closeParen) then return before
  let p ← param before
  if ← accept (.symbol .comma) then again (before ++ [p])
  else return before ++ [p]

/-- One decorator, if there is one. -/
def decoratorsRound (again : Parse (List Expr)) : Parse (List Expr) := do
  if ← accept (.symbol .atSign) then
    let e ← expr
    expect .newline
    modify Cursor.skipNewlines
    return e :: (← again)
  else return []

section

variable (sub : Parse (List Stmt))

/-- One statement of an indented block, if there is one. -/
def blockBodyRound (again : Parse (List Stmt)) : Parse (List Stmt) := do
  let c ← get
  if c.sees .dedent || c.atEnd then return []
  let ss ← sub
  modify Cursor.skipNewlines
  return ss ++ (← again)

/-- One test of a choice with the block below it, and what is below all of its tests. -/
def choiceRound (again : Parse Stmt) : Parse Stmt := do
  let start := (← here).start
  advance
  let test ← expr
  let thenBody ← block sub
  let elseBody ← do
    if ← sees (.keyword .elif_) then pure [← again]
    else if ← accept (.keyword .else_) then block sub
    else pure []
  return .cond (← blockSpanFrom start) test thenBody elseBody

end

end Parse

/-- One token of a kind that is passed, if there is one. -/
def Cursor.passRound (k : Kind) (again : Cursor → Cursor) (c : Cursor) : Cursor :=
  if c.sees k then again c.advance else c

/-- One token of a broken statement, or the end of its line with the blocks that end there. -/
def Cursor.synchronizeRound (again : Int → Cursor → Cursor) (depth : Int) (c : Cursor) : Cursor :=
  match c.kind with
  | .eof => c
  | .indent => again (depth + 1) c.advance
  | .dedent => again (depth - 1) c.advance
  | .newline =>
    if depth ≤ 0 && !c.following.alike .indent then c.advance.skipDedents
    else again depth c.advance
  | _ => again depth c.advance

/-- One statement of a text, or an error, with room for so many of them. -/
def Parsed.round (again : Nat → Cursor → Parsed) (room : Nat) (c : Cursor) : Parsed :=
  if c.atEnd then ⟨[], []⟩
  else
    match Parse.stmt.run c with
    | .ok ss c =>
      let r := again room c.skipNewlines
      ⟨ss ++ r.body, r.errors⟩
    | .error e c =>
      if room ≤ 1 then ⟨[], [e]⟩
      else
        let r := again (room - 1) c.synchronize.skipNewlines
        ⟨r.body, e :: r.errors⟩

open Parse

/-! ## Simple statements -/

section

variable {p : Pace} {c : Cursor} (hp : p ≠ .ahead)
include hp

theorem paced_assignedRound {again again' : Parse (List Expr × Expr)}
    (hagain : ∀ d, c.Precedes d → Paced p again again' d) :
    Paced p (assignedRound again) (assignedRound again') c := by
  unfold assignedRound
  refine .advance fun d hd => (paced_exprs d).past fun e d' hd' => .sees (fun _ => ?_) (.stop hp)
  exact (hagain d' (hd.trans_precedes hd')).last fun _ _ => ⟨_, rfl⟩

end

theorem paced_checkTarget (e : Expr) (c : Cursor) :
    Paced .onward (checkTarget e) (checkTarget e) c := by
  unfold checkTarget
  split
  · exact .throw
  · exact .pure

theorem paced_checkTargets (es : List Expr) (c : Cursor) :
    Paced .onward (checkTargets es) (checkTargets es) c := by
  unfold checkTargets
  split
  · exact .throw
  · exact .pure

theorem paced_assigned (n : Nat) (c : Cursor) : Paced .onward (assigned n) (assigned n) c := by
  induction n generalizing c with
  | zero => exact .here fun _ => .failAt
  | succ n ih => exact paced_assignedRound (by simp) fun d _ => ih d

theorem paced_exprStmt (start : Nat) (c : Cursor) :
    Paced .ahead (exprStmt start) (exprStmt start) c := by
  unfold exprStmt
  refine (paced_exprs c).first fun first d _ => .sees (fun _ => .rounds fun n _ => ?_) (.kind ?_)
  · refine (paced_assigned n d).then_ fun r e _ => (paced_checkTargets _ e).then_ fun _ _ _ => ?_
    exact .spanFrom fun _ => .pure
  · split
    · next op _ =>
      have hright (d : Cursor) : Paced .onward (do
          let right ← expr
          return Stmt.assign (← Parse.spanFrom start) [first]
            (.binary (first.span.cover right.span) op first right)) (do
          let right ← expr
          return Stmt.assign (← Parse.spanFrom start) [first]
            (.binary (first.span.cover right.span) op first right)) d :=
        (paced_expr d).past fun right _ _ => .spanFrom fun _ => .pure
      exact .advance fun d _ => .check (hright d)
    · exact .spanFrom fun _ => .pure

theorem paced_simple (c : Cursor) : Paced .ahead simple simple c := by
  unfold simple
  refine .get ?_
  dsimp only
  split
  · next hk => exact (Paced.advanced (by simp [hk])).first fun _ _ _ => .spanFrom fun _ => .pure
  · next hk => exact (Paced.advanced (by simp [hk])).first fun _ _ _ => .spanFrom fun _ => .pure
  · next hk => exact (Paced.advanced (by simp [hk])).first fun _ _ _ => .spanFrom fun _ => .pure
  · next hk =>
    refine (Paced.advanced (by simp [hk])).first fun _ d _ => .get ?_
    split
    · exact .spanFrom fun _ => .pure
    · exact (paced_exprs d).past fun e _ _ => .spanFrom fun _ => .pure
  · exact .failAt
  · exact paced_exprStmt _ c

theorem paced_moreSimpleRound {p : Pace} (hp : p ≠ .ahead) {c : Cursor}
    {again again' : Parse (List Stmt)} (hagain : ∀ d, c.Precedes d → Paced p again again' d) :
    Paced p (moreSimpleRound again) (moreSimpleRound again') c := by
  unfold moreSimpleRound
  refine .accept (by simp) (fun d hd => .sees (fun _ => .stop hp) ?_) (.stop hp)
  refine (paced_simple d).past fun s d' hd' => ?_
  exact (hagain d' (hd.trans hd')).last fun _ _ => ⟨_, rfl⟩

theorem paced_moreSimple (n : Nat) (c : Cursor) :
    Paced .onward (moreSimple n) (moreSimple n) c := by
  induction n generalizing c with
  | zero => exact .pure
  | succ n ih => exact paced_moreSimpleRound (by simp) fun d _ => ih d

theorem paced_simpleLine (c : Cursor) : Paced .ahead simpleLine simpleLine c := by
  unfold simpleLine
  refine (paced_simple c).first fun s d _ => .rounds fun n _ => ?_
  refine (paced_moreSimple n d).then_ fun ss _ _ => ?_
  exact (Paced.expected (by simp)).past fun _ _ _ => .pure

/-! ## Headers -/

theorem paced_moreTargetsRound {p : Pace} (hp : p ≠ .ahead) {c : Cursor}
    {again again' : Parse (List Expr)} (hagain : ∀ d, c.Precedes d → Paced p again again' d) :
    Paced p (moreTargetsRound again) (moreTargetsRound again') c := by
  unfold moreTargetsRound
  refine .accept (by simp) (fun d hd => .sees (fun _ => .stop hp) ?_) (.stop hp)
  refine (paced_exprAbove _ d).past fun e d' hd' => ?_
  exact (hagain d' (hd.trans hd')).last fun _ _ => ⟨_, rfl⟩

theorem paced_moreTargets (n : Nat) (c : Cursor) :
    Paced .onward (moreTargets n) (moreTargets n) c := by
  induction n generalizing c with
  | zero => exact .pure
  | succ n ih => exact paced_moreTargetsRound (by simp) fun d _ => ih d

theorem paced_loopTarget (c : Cursor) : Paced .ahead loopTarget loopTarget c := by
  unfold loopTarget
  refine .here fun start => (paced_exprAbove _ c).first fun e d _ => .sees (fun _ => ?_) .pure
  exact .rounds fun n _ => (paced_moreTargets n d).then_ fun es _ _ => .spanFrom fun _ => .pure

theorem paced_param (before : List (Param Expr)) (c : Cursor) :
    Paced .ahead (param before) (param before) c := by
  unfold param
  refine .here fun span =>
    .check (.accept (by simp) (fun d _ => ?_) (.accept (by simp) (fun d _ => ?_) ?_))
  · exact Paced.named.first fun x _ _ => .check .pure
  · exact .check (Paced.named.first fun x _ _ => .check .pure)
  · refine .check (Paced.named.first fun x d _ => .accept (by simp) (fun d' _ => ?_) ?_)
    · exact (paced_expr d').past fun e _ _ => .check .pure
    · exact .check (.check .pure)

theorem paced_paramsRound {p : Pace} (hp : p ≠ .ahead) {c : Cursor}
    {again again' : List (Param Expr) → Parse (List (Param Expr))}
    (hagain : ∀ before d, c.Precedes d → Paced p (again before) (again' before) d)
    (before : List (Param Expr)) :
    Paced p (paramsRound again before) (paramsRound again' before) c := by
  unfold paramsRound
  refine .sees (fun _ => .stop hp) ((paced_param before c).past fun q d hd => ?_)
  exact .accept (by simp) (fun d' hd' => hagain _ d' (hd.trans hd')) (.stop hp)

theorem paced_params (n : Nat) (before : List (Param Expr)) (c : Cursor) :
    Paced .onward (params n before) (params n before) c := by
  induction n generalizing before c with
  | zero => exact .pure
  | succ n ih => exact paced_paramsRound (by simp) (fun before d _ => ih before d) before

theorem paced_decoratorsRound {p : Pace} (hp : p ≠ .ahead) {c : Cursor}
    {again again' : Parse (List Expr)} (hagain : ∀ d, c.Precedes d → Paced p again again' d) :
    Paced p (decoratorsRound again) (decoratorsRound again') c := by
  unfold decoratorsRound
  refine .accept (by simp) (fun d₁ h₁ => (paced_expr d₁).past fun e d₂ h₂ => ?_) (.stop hp)
  refine (Paced.expected (by simp)).past fun _ d₃ h₃ => .skipNewlines fun d₄ h₄ => ?_
  have hbehind := ((h₁.trans h₂).trans h₃).trans_reaches h₄
  exact (hagain d₄ hbehind).last fun _ _ => ⟨_, rfl⟩

theorem paced_decorators (n : Nat) (c : Cursor) :
    Paced .onward (decorators n) (decorators n) c := by
  induction n generalizing c with
  | zero => exact .pure
  | succ n ih => exact paced_decoratorsRound (by simp) fun d _ => ih d

/-! ## Statements with blocks -/

section

variable {S : Cursor → Prop} {sub sub' : Parse (List Stmt)}
  (hsub : Abreast S (fun _ : Unit => sub) fun _ => sub') {c : Cursor}
include hsub

theorem paced_blockBodyRound {p : Pace} (hp : p ≠ .ahead) {again again' : Parse (List Stmt)}
    (hc : S c) (hagain : ∀ d, c.Precedes d → Paced p again again' d) :
    Paced p (blockBodyRound sub again) (blockBodyRound sub' again') c := by
  unfold blockBodyRound
  refine .get ?_
  split
  · exact .stop hp
  · refine (hsub.paced () hc).past fun ss d hd => .skipNewlines fun d' hd' => ?_
    exact (hagain d' (hd.trans_reaches hd')).last fun _ _ => ⟨_, rfl⟩

theorem paced_blockBody (n : Nat) (hc : S c) :
    Paced .onward (blockBody sub n) (blockBody sub' n) c := by
  induction n generalizing c with
  | zero => exact .pure
  | succ n ih =>
    exact paced_blockBodyRound hsub (by simp) hc fun d hd => ih (hsub.onward hc hd.reaches)

theorem paced_block (hc : S c) : Paced .ahead (block sub) (block sub') c := by
  unfold block
  refine (Paced.expected (by simp)).first fun _ d₁ h₁ => .accept (by simp) (fun d₂ h₂ => ?_) ?_
  · refine .accept (by simp) (fun d₃ h₃ => .rounds fun n _ => ?_) .missing
    have hbehind := hsub.onward hc ((h₁.trans h₂).trans h₃).reaches
    refine (paced_blockBody hsub n hbehind).then_ fun body _ _ => ?_
    exact (Paced.expected (by simp)).past fun _ _ _ => .pure
  · exact (paced_simpleLine d₁).onward

theorem paced_choiceRound {p : Pace} (hp : p ≠ .ahead) {again again' : Parse Stmt}
    (hc : ∀ d, c.Precedes d → S d) (hagain : ∀ d, c.Precedes d → Paced p again again' d) :
    Paced p.behind (choiceRound sub again) (choiceRound sub' again') c := by
  unfold choiceRound
  refine .here fun start => .advance fun d₁ h₁ => (paced_expr d₁).firstOf rfl fun test d₂ h₂ => ?_
  have h₂ := h₁.trans_precedes h₂
  refine (paced_block hsub (hc d₂ h₂)).past fun thenBody d₃ h₃ => ?_
  have h₃ := h₂.trans h₃
  refine .sees (fun _ => (hagain d₃ h₃).last fun _ _ => ⟨_, rfl⟩)
    (.accept (by simp) (fun d₄ h₄ => ?_) ?_)
  · exact (paced_block hsub (hc d₄ (h₃.trans h₄))).past fun elseBody _ _ => .blockSpanFrom
      fun _ => .stop hp
  · exact Paced.pure.then_ fun _ _ _ => .blockSpanFrom fun _ => .stop hp

theorem paced_choice (n : Nat) (hc : ∀ d, c.Precedes d → S d) :
    Paced .ahead (choice sub n) (choice sub' n) c := by
  induction n generalizing c with
  | zero => exact .here fun _ => .failAt
  | succ n ih =>
    exact paced_choiceRound hsub (p := .onward) (by simp) hc fun d hd =>
      (ih fun d' hd' => hc d' (hd.trans hd')).onward

theorem paced_whileLoop (hc : ∀ d, c.Precedes d → S d) :
    Paced .ahead (whileLoop sub) (whileLoop sub') c := by
  unfold whileLoop
  refine .here fun start => (Paced.expected (by simp)).first fun _ d₁ h₁ => ?_
  refine (paced_expr d₁).past fun test d₂ h₂ => ?_
  exact (paced_block hsub (hc d₂ (h₁.trans h₂))).past fun body _ _ => .blockSpanFrom fun _ => .pure

theorem paced_forLoop (hc : ∀ d, c.Precedes d → S d) :
    Paced .ahead (forLoop sub) (forLoop sub') c := by
  unfold forLoop
  refine .here fun start => (Paced.expected (by simp)).first fun _ d₁ h₁ => ?_
  refine (paced_loopTarget d₁).past fun target d₂ h₂ => (paced_checkTarget target d₂).then_
    fun _ d₃ h₃ => ?_
  refine (Paced.expected (by simp)).past fun _ d₄ h₄ => (paced_exprs d₄).past fun iter d₅ h₅ => ?_
  have h₅ := (((h₁.trans h₂).trans_reaches h₃).trans h₄).trans h₅
  refine (paced_block hsub (hc d₅ h₅)).past fun body d₆ h₆ => .accept (by simp) (fun d₇ h₇ => ?_) ?_
  · refine (paced_block hsub (hc d₇ ((h₅.trans h₆).trans h₇))).past fun elseBody _ _ => ?_
    exact .blockSpanFrom fun _ => .pure
  · exact Paced.pure.then_ fun _ _ _ => .blockSpanFrom fun _ => .pure

theorem paced_definition (hc : ∀ d, c.Precedes d → S d) :
    Paced .ahead (definition sub) (definition sub') c := by
  unfold definition
  refine .here fun start => .rounds fun n _ => (paced_decorators n c).then_ fun ds d hd => ?_
  refine .sees (fun h => ?_) ?_
  · refine (Paced.advanced (Cursor.kind_ne_eof_of_sees h (by simp))).first fun _ d₁ h₁ => ?_
    refine Paced.named.past fun x d₂ h₂ => (Paced.expected (by simp)).past fun _ d₃ h₃ => ?_
    refine .rounds fun n _ => (paced_params n [] d₃).then_ fun ps d₄ h₄ => ?_
    refine (Paced.expected (by simp)).past fun _ d₅ h₅ => ?_
    have hbehind := hd.trans_precedes ((((h₁.trans h₂).trans h₃).trans_reaches h₄).trans h₅)
    exact (paced_block hsub (hc d₅ hbehind)).past fun body _ _ => .blockSpanFrom fun _ => .pure
  · exact .missed

theorem paced_classDefinition (hc : ∀ d, c.Precedes d → S d) :
    Paced .ahead (classDefinition sub) (classDefinition sub') c := by
  unfold classDefinition
  refine .here fun start => (Paced.expected (by simp)).first fun _ d₁ h₁ => ?_
  refine Paced.named.past fun x d₂ h₂ => ?_
  have h₂ := h₁.trans h₂
  have hrest (base : Option Expr) {d : Cursor} (hd : c.Precedes d) : Paced .onward (do
      let body ← block sub
      return Stmt.class_ (← Parse.blockSpanFrom start.start) x base body) (do
      let body ← block sub'
      return Stmt.class_ (← Parse.blockSpanFrom start.start) x base body) d :=
    (paced_block hsub (hc d hd)).past fun body _ _ => .blockSpanFrom fun _ => .pure
  refine .accept (by simp) (fun d₃ h₃ => .sees (fun _ => ?_) ?_) (hrest none h₂)
  · exact (Paced.expected (by simp)).past fun _ d₄ h₄ => hrest none ((h₂.trans h₃).trans h₄)
  · refine (Paced.map (paced_expr d₃).onward).then_ fun base d₄ h₄ => ?_
    exact (Paced.expected (by simp)).past fun _ d₅ h₅ =>
      hrest base (((h₂.trans h₃).trans_reaches h₄).trans h₅)

end

/-- A statement reads a token, and what it reads does not depend on how deeply it may nest, if it
may as deeply as there are tokens. -/
theorem paced_stmtWithin {depth depth' : Nat} {c : Cursor}
    (hdepth : depth = depth' ∨ c.rest.length < depth ∧ c.rest.length < depth') :
    Paced .ahead (stmtWithin depth) (stmtWithin depth') c := by
  induction depth generalizing depth' c with
  | zero =>
    obtain rfl : 0 = depth' := by omega
    exact .here fun _ => .failAt
  | succ depth ih =>
    obtain ⟨depth', rfl⟩ : ∃ n, depth' = n + 1 := ⟨depth' - 1, by omega⟩
    have hsub : Abreast c.Precedes (fun _ : Unit => stmtWithin depth) fun _ => stmtWithin depth' :=
      .behind fun _ d hd => ih (by have := hd.length_lt; omega)
    have hbehind (d) (hd : c.Precedes d) : c.Precedes d := hd
    unfold stmtWithin
    refine .get ?_
    split
    · exact .rounds fun n _ => (paced_choice hsub n hbehind).first fun _ _ _ => .pure
    · exact (paced_whileLoop hsub hbehind).first fun _ _ _ => .pure
    · exact (paced_forLoop hsub hbehind).first fun _ _ _ => .pure
    · exact (paced_definition hsub hbehind).first fun _ _ _ => .pure
    · exact (paced_definition hsub hbehind).first fun _ _ _ => .pure
    · exact (paced_classDefinition hsub hbehind).first fun _ _ _ => .pure
    · exact .failAt
    · exact paced_simpleLine c

/-- A statement reads a token. -/
theorem paced_stmt (c : Cursor) : Paced .ahead stmt stmt c :=
  .rounds fun _ _ => paced_stmtWithin (.inl rfl)

/-- As many nested statements as there are tokens are enough. -/
theorem stmtWithin_eq {depth : Nat} {c : Cursor} (h : c.rest.length < depth) :
    stmtWithin depth c = stmt c :=
  (paced_stmtWithin (.inr ⟨h, Nat.lt_succ_of_le c.length_rest_le⟩)).eq

/-! ## Passing tokens, and whole texts -/

namespace Cursor

variable {c : Cursor} {k : Kind}

theorem passRound_eq (hk : k ≠ .eof) {again again' : Cursor → Cursor}
    (hagain : ∀ d, c.Precedes d → again d = again' d) :
    passRound k again c = passRound k again' c := by
  unfold passRound
  split
  · next h => exact hagain _ (precedes_advance (kind_ne_eof_of_sees h hk))
  · rfl

theorem passRound_of_eof (hc : c.kind = .eof) (hk : k ≠ .eof) (again : Cursor → Cursor) :
    passRound k again c = c := if_neg fun h => kind_ne_eof_of_sees h hk hc

theorem synchronizeRound_eq {again again' : Int → Cursor → Cursor} {depth : Int}
    (hagain : ∀ j d, c.Precedes d → again j d = again' j d) :
    synchronizeRound again depth c = synchronizeRound again' depth c := by
  unfold synchronizeRound
  split
  · rfl
  · next hk => exact hagain _ _ (precedes_advance (by simp [hk]))
  · next hk => exact hagain _ _ (precedes_advance (by simp [hk]))
  · next hk =>
    split
    · rfl
    · exact hagain _ _ (precedes_advance (by simp [hk]))
  · next hk _ _ _ => exact hagain _ _ (precedes_advance hk)

end Cursor

/-- Behind a statement, and behind an error as well, the rest of a text starts further on. -/
theorem Parsed.round_eq {again again' : Nat → Cursor → Parsed} {room : Nat} {c : Cursor}
    (hagain : ∀ j d, c.Precedes d → again j d = again' j d) :
    Parsed.round again room c = Parsed.round again' room c := by
  unfold Parsed.round
  split
  · rfl
  · next hend =>
    have hk : c.kind ≠ .eof := Cursor.kind_ne_eof_of_atEnd (Bool.eq_false_iff.2 hend)
    split
    · next ss d h =>
      have hd : c.Precedes d := (paced_stmt c).reads ss d h
      rw [hagain _ _ (hd.trans_reaches d.reaches_skipNewlines)]
    · next e d h =>
      have hd : c.Precedes d.synchronize := by
        rcases ((paced_stmt c).fails e d h).eq_or_precedes with rfl | hd
        · exact Cursor.precedes_synchronize hk
        · exact hd.trans_reaches d.reaches_synchronize
      rw [hagain _ _ (hd.trans_reaches (Cursor.reaches_skipNewlines _))]

/-! ## The loops of the reader -/

/-- The loops of the reader. -/
inductive Loop where
  /-- String literals in a row. -/
  | strings
  /-- Expressions up to a closing token. -/
  | list (close : Kind)
  /-- The items of a list without brackets. -/
  | items
  /-- The entries of a dict. -/
  | entries
  /-- The arguments of a call. -/
  | arguments
  /-- The trailers and operators behind an operand. -/
  | chain (start least : Nat)
  /-- The targets of an assignment. -/
  | assigned
  /-- The simple statements of a line. -/
  | line
  /-- The targets of a loop. -/
  | targets
  /-- The parameters of a function. -/
  | params
  /-- The decorators of a function. -/
  | decorators
  /-- The statements of a block. -/
  | block
  /-- The tests of a choice. -/
  | choice
  /-- Newlines that are passed. -/
  | newlines
  /-- Ends of blocks that are passed. -/
  | dedents
  /-- The tokens of a broken statement. -/
  | broken
  /-- The statements of a text. -/
  | program

namespace Loop

/-- What a loop carries from one round to the next, besides the cursor. -/
def State : Loop → Type
  | strings => String
  | arguments => Bool
  | chain _ _ => Expr × Bool
  | params => List (Param Expr)
  | broken => Int
  | program => Nat
  | _ => Unit

/-- What a loop comes to. -/
def Outcome : Loop → Type
  | strings => EStateM.Result SyntaxError Cursor String
  | list _ | items | targets | decorators => EStateM.Result SyntaxError Cursor (List Expr)
  | entries => EStateM.Result SyntaxError Cursor (List (Expr × Expr))
  | arguments => EStateM.Result SyntaxError Cursor (List (Arg Expr))
  | chain _ _ => EStateM.Result SyntaxError Cursor Expr
  | assigned => EStateM.Result SyntaxError Cursor (List Expr × Expr)
  | params => EStateM.Result SyntaxError Cursor (List (Param Expr))
  | line | block => EStateM.Result SyntaxError Cursor (List Stmt)
  | choice => EStateM.Result SyntaxError Cursor Stmt
  | newlines | dedents | broken => Cursor
  | program => Parsed

/-- A loop that goes so many rounds at most behind the first one, or so many in all if it only
passes tokens.  Nested parts may nest so deeply. -/
def run (depth : Nat) : (l : Loop) → Nat → l.State → Cursor → l.Outcome
  | strings, n, text => moreStrings (n + 1) text
  | list close, n, _ => commaList (exprWithin depth) close (n + 1)
  | items, n, _ => moreItems (exprWithin depth) (n + 1)
  | entries, n, _ => Parse.entries (exprWithin depth) (n + 1)
  | arguments, n, named => Parse.arguments (exprWithin depth) (n + 1) named
  | chain start least, n, (left, compared) =>
    continuation (exprWithin depth) start least (n + 1) left compared
  | assigned, n, _ => Parse.assigned (n + 1)
  | line, n, _ => moreSimple (n + 1)
  | targets, n, _ => moreTargets (n + 1)
  | params, n, before => Parse.params (n + 1) before
  | decorators, n, _ => Parse.decorators (n + 1)
  | block, n, _ => blockBody (stmtWithin depth) (n + 1)
  | choice, n, _ => Parse.choice (stmtWithin depth) (n + 1)
  | newlines, n, _ => Cursor.skipNewlinesFrom n
  | dedents, n, _ => Cursor.skipDedentsFrom n
  | broken, n, blocks => Cursor.synchronizeFrom n blocks
  | program, n, room => Parsed.ofCursor (n + 1) room

/-- A loop as the reader starts it, with the bound of the cursor. -/
def whole (depth : Nat) (l : Loop) (i : l.State) (c : Cursor) : l.Outcome := l.run depth c.bound i c

/-- One round of a loop, which may ask for the loop again. -/
def round (depth : Nat) : (l : Loop) → (l.State → Cursor → l.Outcome) → l.State → Cursor → l.Outcome
  | strings, again, text => moreStringsRound again text
  | list close, again, _ => commaListRound (exprWithin depth) close (again ())
  | items, again, _ => moreItemsRound (exprWithin depth) (again ())
  | entries, again, _ => entriesRound (exprWithin depth) (again ())
  | arguments, again, named => argumentsRound (exprWithin depth) again named
  | chain start least, again, (left, compared) =>
    continuationRound (exprWithin depth) start least (fun left compared => again (left, compared))
      left compared
  | assigned, again, _ => assignedRound (again ())
  | line, again, _ => moreSimpleRound (again ())
  | targets, again, _ => moreTargetsRound (again ())
  | params, again, before => paramsRound again before
  | decorators, again, _ => decoratorsRound (again ())
  | block, again, _ => blockBodyRound (stmtWithin depth) (again ())
  | choice, again, _ => choiceRound (stmtWithin depth) (again ())
  | newlines, again, _ => Cursor.passRound .newline (again ())
  | dedents, again, _ => Cursor.passRound .dedent (again ())
  | broken, again, blocks => Cursor.synchronizeRound again blocks
  | program, again, room => Parsed.round again room

theorem run_succ (depth : Nat) (l : Loop) (n : Nat) (i : l.State) (c : Cursor) :
    l.run depth (n + 1) i c = l.round depth (l.run depth n) i c := by
  cases l <;> rfl

/-- A round asks for the loop again only where it has read a token. -/
theorem round_eq (depth : Nat) (l : Loop) {again again' : l.State → Cursor → l.Outcome}
    {i : l.State} {c : Cursor} (hagain : ∀ j d, c.Precedes d → again j d = again' j d) :
    l.round depth again i c = l.round depth again' i c := by
  have hfree {α : Type} {x y : Parse α} (h : ∀ d, c.Precedes d → x d = y d) (d : Cursor)
      (hd : c.Precedes d) : Paced .free x y d := .free (h d hd)
  have hexpr : Abreast (fun _ => True) (exprWithin depth) (exprWithin depth) :=
    ⟨fun _ _ => trivial, fun least _ _ => paced_exprWithin (.inl rfl) least⟩
  have hstmt : Abreast (fun _ => True) (fun _ : Unit => stmtWithin depth) fun _ =>
      stmtWithin depth :=
    ⟨fun _ _ => trivial, fun _ _ _ => paced_stmtWithin (.inl rfl)⟩
  cases l with
  | strings => exact (paced_moreStringsRound (by simp) (fun text => hfree (hagain text)) i).eq
  | list close => exact (paced_commaListRound (by simp) hexpr trivial (hfree (hagain ()))).eq
  | items =>
    exact (paced_moreItemsRound (by simp) hexpr (fun _ _ => trivial) (hfree (hagain ()))).eq
  | entries => exact (paced_entriesRound (by simp) hexpr trivial (hfree (hagain ()))).eq
  | arguments =>
    exact (paced_argumentsRound hexpr (by simp) trivial (fun named => hfree (hagain named)) i).eq
  | chain start least =>
    obtain ⟨left, compared⟩ := i
    exact (paced_continuationRound hexpr (by simp) start least trivial
      (fun left compared => hfree (hagain (left, compared))) left compared).eq
  | assigned => exact (paced_assignedRound (by simp) (hfree (hagain ()))).eq
  | line => exact (paced_moreSimpleRound (by simp) (hfree (hagain ()))).eq
  | targets => exact (paced_moreTargetsRound (by simp) (hfree (hagain ()))).eq
  | params => exact (paced_paramsRound (by simp) (fun before => hfree (hagain before)) i).eq
  | decorators => exact (paced_decoratorsRound (by simp) (hfree (hagain ()))).eq
  | block => exact (paced_blockBodyRound hstmt (by simp) trivial (hfree (hagain ()))).eq
  | choice =>
    exact (paced_choiceRound hstmt (p := .free) (by simp) (fun _ _ => trivial)
      (hfree (hagain ()))).eq
  | newlines => exact Cursor.passRound_eq (by simp) (hagain ())
  | dedents => exact Cursor.passRound_eq (by simp) (hagain ())
  | broken => exact Cursor.synchronizeRound_eq hagain
  | program => exact Parsed.round_eq hagain

/-- A loop that has no tokens left comes to what its round comes to there. -/
theorem run_zero (depth : Nat) (l : Loop) {i : l.State} {c : Cursor} (hc : c.rest.length = 0)
    (again : l.State → Cursor → l.Outcome) : l.run depth 0 i c = l.round depth again i c := by
  have hend : c.kind = .eof := Cursor.kind_of_length hc
  -- A loop that reads goes one round more than its bound says, which asks for nothing here.
  have hround (first : l.State → Cursor → l.Outcome) :
      l.round depth first i c = l.round depth again i c :=
    l.round_eq depth fun j d hd => absurd hd.length_lt (by omega)
  cases l with
  | newlines => exact (Cursor.passRound_of_eof hend (by simp) _).symm
  | dedents => exact (Cursor.passRound_of_eof hend (by simp) _).symm
  | broken =>
    change c = Cursor.synchronizeRound again i c
    unfold Cursor.synchronizeRound
    rw [hend]
  | strings => exact hround fun text => moreStrings 0 text
  | list close => exact hround fun _ => commaList (exprWithin depth) close 0
  | items => exact hround fun _ => moreItems (exprWithin depth) 0
  | entries => exact hround fun _ => Parse.entries (exprWithin depth) 0
  | arguments => exact hround fun named => Parse.arguments (exprWithin depth) 0 named
  | chain start least =>
    exact hround fun j => continuation (exprWithin depth) start least 0 j.1 j.2
  | assigned => exact hround fun _ => Parse.assigned 0
  | line => exact hround fun _ => moreSimple 0
  | targets => exact hround fun _ => moreTargets 0
  | params => exact hround fun before => Parse.params 0 before
  | decorators => exact hround fun _ => Parse.decorators 0
  | block => exact hround fun _ => blockBody (stmtWithin depth) 0
  | choice => exact hround fun _ => Parse.choice (stmtWithin depth) 0
  | program => exact hround fun room => Parsed.ofCursor 0 room

/-- A loop that may go as many rounds as there are tokens is not cut short. -/
theorem run_eq (depth : Nat) (l : Loop) {n m : Nat} {i : l.State} {c : Cursor}
    (hn : c.rest.length ≤ n) (hm : c.rest.length ≤ m) : l.run depth n i c = l.run depth m i c := by
  induction n generalizing m i c with
  | zero =>
    cases m with
    | zero => rfl
    | succ m => rw [run_succ, run_zero depth l (Nat.le_zero.1 hn)]
  | succ n ih =>
    rw [run_succ]
    cases m with
    | zero => rw [run_zero depth l (Nat.le_zero.1 hm)]
    | succ m =>
      rw [run_succ]
      exact l.round_eq depth fun j d hd => ih (by have := hd.length_lt; omega)
        (by have := hd.length_lt; omega)

/-- A loop is its round, which asks for the loop again.  There is no bound in this. -/
theorem whole_eq (depth : Nat) (l : Loop) (i : l.State) (c : Cursor) :
    l.whole depth i c = l.round depth (l.whole depth) i c := by
  have hbound := c.length_rest_le
  rw [whole, run_eq depth l hbound (Nat.le_succ_of_le hbound), run_succ]
  refine l.round_eq depth fun j d hd => ?_
  rw [whole, hd.reaches.bound_eq]

end Loop

/-! ## Progress -/

/-- Reading always goes on, whatever the tokens are.  The cursor always has a token, and is never
moved past the end of the text; a statement that is read takes a token at least; one that is broken
takes none back, and behind it a token is passed unless the text is at its end.  No loop goes round
again without having read a token, and none is cut short by its bound: it is its round, and so are
nested expressions and statements, which may nest as deeply as there are tokens. -/
theorem Parsed.ofTokens_progresses (tokens : List Token) :
    Parsed.ofTokens tokens =
      Loop.program.whole 0 Parsed.errorLimit (Cursor.ofTokens tokens).skipNewlines ∧
    (∀ c, (Cursor.ofTokens tokens).Reaches c → c.rest ≠ []) ∧
    (∀ c ss c', Parse.stmt c = .ok ss c' → c.Precedes c') ∧
    (∀ c e c', Parse.stmt c = .error e c' →
      c.Reaches c' ∧ (c'.kind = .eof ∨ c'.Precedes c'.synchronize)) ∧
    (∀ depth (l : Loop), (∀ i c, l.whole depth i c = l.round depth (l.whole depth) i c) ∧
      ∀ again again' i c, (∀ j d, c.Precedes d → again j d = again' j d) →
        l.round depth again i c = l.round depth again' i c) ∧
    (∀ depth least (c : Cursor), c.rest.length < depth →
      exprWithin depth least c = exprAbove least c ∧ stmtWithin depth c = stmt c) := by
  refine ⟨rfl, fun c hc => ((Cursor.hasEnd_ofTokens tokens).of_reaches hc).rest_ne_nil,
    fun c ss c' h => (paced_stmt c).reads ss c' h, fun c e c' h => ?_,
    fun depth l => ⟨l.whole_eq depth, fun again again' i c => l.round_eq depth⟩,
    fun depth least c h => ⟨exprWithin_eq h least, stmtWithin_eq h⟩⟩
  refine ⟨(paced_stmt c).fails e c' h, ?_⟩
  by_cases hk : c'.kind = .eof
  · exact .inl hk
  · exact .inr (Cursor.precedes_synchronize hk)

end StagedScript
