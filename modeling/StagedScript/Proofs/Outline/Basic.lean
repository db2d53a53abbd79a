import StagedScript.Proofs.Parsing.OneLine
import StagedScript.Proofs.Parsing.Operators
import StagedScript.Proofs.Parsing.Statements
import StagedScript.Proofs.Parsing.Yields
import StagedScript.Proofs.Reading.Lists
import StagedScript.Proofs.Reading.Rows
import StagedScript.Proofs.Within
import StagedScript.Proofs.Writing.Emission
import StagedScript.Script.Basic

/-!
# Outlines of programs

An outline is a tree of blocks.  Its leaves are lines that stand for one simple statement each, and
its inner nodes are the headers of blocks.  It is written line by line, each block one step deeper
than its header.
-/

namespace StagedScript

namespace Outline

/-- A text that can stand as a name. -/
structure Name where
  /-- The text. -/
  text : String
  isName : Word.isName text = true

/-- A text of one line that is a program of one simple statement. -/
structure Leaf where
  /-- The text. -/
  text : String
  /-- The statement, without spans. -/
  stmt : Stmt
  oneLine : '\n' ∉ text.toList
  isSimple : stmt.isSimple = true
  parses : ∃ label script s, Script.parse text label = .ok script ∧ script.body = [s] ∧
    s.bare = stmt

/-- The header of a block. -/
inductive Header where
  /-- A choice by a name. -/
  | cond (x : Name)
  /-- A loop as long as a name holds. -/
  | loop (x : Name)
  /-- A function without parameters. -/
  | define (x : Name)
  /-- A loop over the items of a name. -/
  | each (x items : Name)

namespace Header

/-- The line of a header. -/
def text : Header → String
  | cond x => "if " ++ x.text ++ ":"
  | loop x => "while " ++ x.text ++ ":"
  | define x => "def " ++ x.text ++ "():"
  | each x items => "for " ++ x.text ++ " in " ++ items.text ++ ":"

/-- The statement that a header makes of a block, without spans. -/
def stmt (body : List Stmt) : Header → Stmt
  | cond x => .cond .nowhere (.name .nowhere x.text) body []
  | loop x => .loop .nowhere (.name .nowhere x.text) body
  | define x => .define .nowhere x.text [] [] body
  | each x items => .each .nowhere (.name .nowhere x.text) (.name .nowhere items.text) body []

end Header

end Outline

/-- A tree of blocks. -/
inductive Outline where
  /-- A line of its own. -/
  | leaf (line : Outline.Leaf)
  /-- A header and the block below it. -/
  | block (header : Outline.Header) (body : List Outline)

namespace Outline

mutual

/-- The statement that an outline stands for, without spans.  A block that is empty has the
statement that does nothing. -/
def stmt : Outline → Stmt
  | leaf line => line.stmt
  | block header body => header.stmt (if body.isEmpty then [.pass .nowhere] else stmts body)

/-- The statements that outlines stand for. -/
def stmts : List Outline → List Stmt
  | [] => []
  | o :: os => stmt o :: stmts os

end

section

variable {σ : Type}

mutual

/-- Writes an outline, a header with its block below it. -/
def write : Outline → Emit σ Unit
  | leaf line => Emit.words .empty [line.text]
  | block header body => Emit.under .empty (some header.text) (writeAll body)

/-- Writes outlines one after the other. -/
def writeAll : List Outline → Emit σ Unit
  | [] => pure ()
  | o :: os => do
    write o
    writeAll os

end

end

/-! ## The lines of an outline -/

mutual

/-- The lines that are written for an outline at a depth, each with its own. -/
def lines (placeholder : String) (depth : Nat) : Outline → List (Nat × String)
  | leaf line => [(depth, line.text)]
  | block header body => (depth, header.text) ::
      if body.isEmpty then [(depth + 1, placeholder)] else linesAll placeholder (depth + 1) body

/-- The lines that are written for outlines. -/
def linesAll (placeholder : String) (depth : Nat) : List Outline → List (Nat × String)
  | [] => []
  | o :: os => lines placeholder depth o ++ linesAll placeholder depth os

end

theorem isEmpty_linesAll (placeholder : String) (depth : Nat) (os : List Outline) :
    (linesAll placeholder depth os).isEmpty = os.isEmpty := by
  cases os with
  | nil => rfl
  | cons o os => cases o <;> simp [linesAll, lines]

end Outline

/-! ## Writing the lines -/

section

variable {σ : Type}

namespace Outline

mutual

/-- An outline is written as its lines. -/
theorem write_eq (o : Outline) (e : Emission σ) :
    o.write e = .ok () (e.placed (o.lines e.buffer.config.placeholder e.buffer.depth)) := by
  match o with
  | leaf line =>
    rw [write, Emit.words, lines, ← e.pushed_eq_placed]
    exact Emit.line_empty _ e
  | block header body =>
    have hbody := Emit.deeper_ended (e := e.pushed [header.text]) (r := .ok ()) (writeAll_eq body _)
    rw [Emit.filled_ok, isEmpty_linesAll] at hbody
    rw [write, Emit.under, EStateM.bind_ok (Emit.line_empty _ e)]
    refine hbody.trans ?_
    rw [e.pushed_eq_placed, ← Emission.placed_append]
    rfl

theorem writeAll_eq (os : List Outline) (e : Emission σ) :
    writeAll os e = .ok () (e.placed (linesAll e.buffer.config.placeholder e.buffer.depth os)) := by
  match os with
  | [] => rw [linesAll, e.placed_nil]; rfl
  | o :: os =>
    rw [writeAll, EStateM.bind_ok (write_eq o e), writeAll_eq os, linesAll, Emission.placed_append]
    rfl

end

end Outline

end

end StagedScript

/-!
## Reading leaves

A text that is a program of one simple statement is a line of its own: it is read as this statement
also where it is indented and other lines are around it.
-/

namespace StagedScript

open Parse

/-! ## Statements by their first tokens -/

/-- No block belongs to a statement that starts with the token. -/
def Token.Kind.Plain : Token.Kind → Prop
  | .keyword .if_ | .keyword .while_ | .keyword .for_ | .keyword .def_ | .keyword .class_
  | .symbol .atSign | .indent => False
  | _ => True

theorem Token.Kind.Begins.of_startsExpr {k : Token.Kind} (hk : startsExpr k = true) : k.Begins :=
  ⟨⟨alike_of_startsExpr hk rfl, alike_of_startsExpr hk rfl, alike_of_startsExpr hk rfl⟩,
    alike_of_startsExpr hk rfl, alike_of_startsExpr hk rfl⟩

theorem Parse.stmtWithin_of_plain {c : Cursor} (h : c.kind.Plain) (depth : Nat) :
    stmtWithin (depth + 1) c = simpleLine c := by
  have hget (f : Cursor → Parse (List Stmt)) : (MonadState.get >>= f) c = f c c := rfl
  unfold stmtWithin
  dsimp only
  rw [hget]
  refine congrFun (g := simpleLine) ?_ c
  split
  case h_8 => rfl
  all_goals
    next hk =>
      rw [hk] at h
      exact h.elim

namespace Ensures

variable {c : Cursor} {sub : Parse (List Stmt)}

theorem begins_simple : Ensures simple c fun _ _ => c.kind.Begins := by
  unfold simple
  refine .get ?_
  dsimp only
  split
  case h_5 => exact .failAt
  case h_6 =>
    unfold exprStmt
    exact .mono (.first startsExpr_exprs) fun _ _ => .of_startsExpr
  all_goals
    next hk =>
      intro _ _ _
      rw [hk]
      exact ⟨⟨rfl, rfl, rfl⟩, rfl, rfl⟩

theorem begins_simpleLine : Ensures simpleLine c fun _ _ => c.kind.Begins := begins_simple.first

/-- A line has a statement. -/
theorem cons_simpleLine : Ensures simpleLine c fun ss _ => ∃ s more, ss = s :: more :=
  .last fun s _ => .rounds fun _ _ => .last fun more _ => .last fun _ _ => .pure ⟨s, more, rfl⟩

theorem isSimple_choice (n : Nat) : Ensures (choice sub n) c fun s _ => s.isSimple = false := by
  cases n with
  | zero => exact .here fun _ => .failAt
  | succ n =>
    unfold choice
    refine .here fun _ => .advance (.last fun _ _ => .last fun _ _ => .last fun elif _ => ?_)
    dsimp only
    split
    · exact .last fun _ _ => .last fun _ _ => .last fun _ _ => .pure rfl
    · refine .last fun else_ _ => ?_
      split
      · exact .last fun _ _ => .last fun _ _ => .pure rfl
      · exact .last fun _ _ => .last fun _ _ => .pure rfl

theorem isSimple_whileLoop : Ensures (whileLoop sub) c fun s _ => s.isSimple = false :=
  .here fun _ => .last fun _ _ => .last fun _ _ => .last fun _ _ => .last fun _ _ => .pure rfl

theorem isSimple_forLoop : Ensures (forLoop sub) c fun s _ => s.isSimple = false := by
  unfold forLoop
  refine .here fun _ => .last fun _ _ => .last fun _ _ => .last fun _ _ => .last fun _ _ => ?_
  refine .last fun _ _ => .last fun _ _ => .last fun else_ _ => ?_
  dsimp only
  split
  · exact .last fun _ _ => .last fun _ _ => .pure rfl
  · exact .last fun _ _ => .last fun _ _ => .pure rfl

theorem isSimple_definition : Ensures (definition sub) c fun s _ => s.isSimple = false := by
  have hdefined (start : Nat) (ds : List Expr) (c : Cursor) : Ensures (do
      Parse.advance
      let x ← name
      expect (.symbol .openParen)
      let ps ← params (← Parse.rounds) []
      expect (.symbol .closeParen)
      let body ← block sub
      return Stmt.define (← blockSpanFrom start) x ds ps body) c fun s _ => s.isSimple = false := by
    refine .advance (.last fun _ _ => .last fun _ _ => .rounds fun _ _ => .last fun _ _ => ?_)
    exact .last fun _ _ => .last fun _ _ => .last fun _ _ => .pure rfl
  unfold definition
  refine .here fun _ => .rounds fun _ _ => .last fun ds _ => .last fun sees _ => ?_
  dsimp only
  split
  · exact .last fun _ c => hdefined _ ds c
  · exact hdefined _ ds _

theorem isSimple_classDefinition :
    Ensures (classDefinition sub) c fun s _ => s.isSimple = false := by
  unfold classDefinition
  refine .here fun _ => .last fun _ _ => .last fun _ _ => .last fun base _ => ?_
  dsimp only
  split
  · refine .last fun closed _ => ?_
    split
    all_goals
      refine .last fun _ _ => .last fun _ _ => .last fun _ _ => ?_
      exact .last fun _ _ => .last fun _ _ => .pure rfl
  · exact .last fun _ _ => .last fun _ _ => .last fun _ _ => .pure rfl

/-- A statement without a block starts with a plain token. -/
theorem plain_stmtWithin (depth : Nat) : Ensures (stmtWithin depth) c fun ss _ =>
    c.kind.Plain ∨ ∃ s, ss = [s] ∧ s.isSimple = false := by
  have hone {x : Parse Stmt} (hx : ∀ c, Ensures x c fun s _ => s.isSimple = false) (c : Cursor)
      (p : Prop) : Ensures (do return [← x]) c fun ss _ => p ∨ ∃ s, ss = [s] ∧ s.isSimple = false :=
    (hx c).bind fun s _ hs => .pure (.inr ⟨s, rfl, hs⟩)
  cases depth with
  | zero => exact .here fun _ => .failAt
  | succ depth =>
    unfold stmtWithin
    refine .get ?_
    split
    case h_1 => exact .rounds fun n _ => hone (fun _ => isSimple_choice n) _ _
    case h_2 => exact hone (fun _ => isSimple_whileLoop) _ _
    case h_3 => exact hone (fun _ => isSimple_forLoop) _ _
    case h_4 => exact hone (fun _ => isSimple_definition) _ _
    case h_5 => exact hone (fun _ => isSimple_definition) _ _
    case h_6 => exact hone (fun _ => isSimple_classDefinition) _ _
    case h_7 => exact .failAt
    case h_8 =>
      intro _ _ _
      refine .inl ?_
      unfold Token.Kind.Plain
      split <;> trivial

end Ensures

/-! ## Leaves as rows -/

theorem Stmt.isSimple_bare (s : Stmt) : s.bare.isSimple = s.isSimple := by
  cases s <;> rfl

/-- If a text is one statement without a block, this is read from the first line. -/
theorem Parsed.line_of_ofTokens {tokens : List Token} {k : Token.Kind} {ks : List Token.Kind}
    {s : Stmt} (hlast : ∀ t, tokens.getLast? = some t → t.kind = .eof)
    (hk : k.alike .newline = false) (heof : k.alike .eof = false)
    (htokens : tokens.map Token.kind = k :: ks) (hbody : Parsed.ofTokens tokens = ⟨[s], []⟩)
    (hs : s.isSimple = true) :
    ∃ c c' : Cursor, c.ahead = k :: ks ∧ c.kind.Plain ∧ simpleLine c = .ok [s] c' := by
  obtain ⟨c, c', ss, hc, hstmt, hss⟩ := first_of_ofTokens hlast hk heof htokens hbody
  have hwithin : stmtWithin (c.bound + 1) c = .ok ss c' := hstmt
  refine ⟨c, c', Cursor.ahead_of_rest hc htokens, ?_⟩
  rcases Ensures.plain_stmtWithin _ _ _ hwithin with hplain | ⟨t, rfl, ht⟩
  · rw [stmtWithin_of_plain hplain] at hwithin
    obtain ⟨t, more, rfl⟩ := Ensures.cons_simpleLine _ _ hwithin
    obtain ⟨rfl, hmore⟩ := List.cons.inj hss
    obtain ⟨rfl, -⟩ := List.append_eq_nil_iff.1 hmore.symm
    exact ⟨hplain, hwithin⟩
  · obtain ⟨rfl, -⟩ := List.cons.inj hss
    rw [hs] at ht
    cases ht

namespace Outline.Leaf

/-- The text of a leaf has a first piece, which is not indented, and is read from its line. -/
theorem exists_pieces (l : Leaf) : ∃ p ps tail, p.gap = [] ∧ Piece.Read (p :: ps) tail ∧
    l.text.toList = Piece.text (p :: ps) ++ tail ∧ (∀ q ∈ p :: ps, q.kind.Inner) ∧
    ∃ (c c' : Cursor) (s : Stmt), c.ahead = (p :: ps).map Piece.kind ++ [.newline, .eof] ∧
      c.kind.Plain ∧ simpleLine c = .ok [s] c' ∧ s.bare = l.stmt := by
  obtain ⟨label, script, s, hparse, hbody, hbare⟩ := l.parses
  have hs : s.isSimple = true := by
    rw [← Stmt.isSimple_bare, hbare]
    exact l.isSimple
  obtain ⟨herrors, hparsed, -⟩ := (Script.parse_eq_ok script).1 hparse
  obtain ⟨ps, tail, htext, hread⟩ := Lexed.pieces_of_errors herrors
  have hline := l.oneLine
  rw [htext] at hline hparsed
  rw [hbody] at hparsed
  cases ps with
  | nil =>
    have hempty : (Lexed.ofText (Piece.text [] ++ tail)).tokens.map Token.kind = [.eof] := by
      rw [Lexed.ofText_text hread]
      rfl
    rw [Parsed.ofTokens_of_eof hempty] at hparsed
    cases hparsed
  | cons p ps =>
    have hinner := hread.inner hline
    rcases Lexed.ofText_oneLine hread hline with ⟨ks, hkinds⟩ | ⟨hgap, hkinds⟩
    · -- A statement does not start with a block.
      obtain ⟨c, -, hc, hplain, -⟩ :=
        Parsed.line_of_ofTokens (Lexed.kind_getLast? _) rfl rfl hkinds hparsed hs
      rw [Cursor.kind_of_ahead hc] at hplain
      exact hplain.elim
    · obtain ⟨-, hnewline, heof⟩ := hinner p List.mem_cons_self
      obtain ⟨c, c', hfirst⟩ := Parsed.line_of_ofTokens (Lexed.kind_getLast? _)
        (Bool.eq_false_iff.2 (mt (Token.Kind.alike_iff (b := .newline) trivial).1 hnewline))
        (Bool.eq_false_iff.2 (mt (Token.Kind.alike_iff (b := .eof) trivial).1 heof))
        hkinds hparsed hs
      exact ⟨p, ps, tail, hgap, hread, htext, hinner, c, c', s, hfirst.1, hfirst.2.1,
        hfirst.2.2, hbare⟩

/-- A leaf is a row that is read as its statement. -/
theorem exists_row (l : Leaf) : ∃ r : Row, r.text = l.text.toList ∧
    ReadsStmt (r.kinds ++ [.newline]) (·.bare = l.stmt) := by
  obtain ⟨p, ps, tail, hgap, hread, htext, hinner, c, c', s, hc, hplain, hsimple, hbare⟩ :=
    l.exists_pieces
  have honLine {d : Cursor} {rest : List Token.Kind}
      (hd : d.ahead = (p :: ps).map Piece.kind ++ .newline :: rest) :
      OnLine .nowhere ((p :: ps).map Piece.kind) [.eof] rest c d :=
    .nowhere (by simpa using hinner) hc hd
  have hline := l.oneLine
  rw [htext] at hline
  obtain ⟨-, -, -, -, hcounts, -⟩ := simpleLine_alike (honLine hc) hsimple
  let row : Row := ⟨p, ps, tail, hgap, fun rest hrest => hread.line hline hrest, hinner, hcounts⟩
  have hkind {d : Cursor} {rest : List Token.Kind}
      (hd : d.ahead = (p :: ps).map Piece.kind ++ rest) : d.kind = p.kind := Cursor.kind_of_ahead hd
  refine ⟨row, htext.symm, ⟨p.kind, _, rfl, ?_⟩, fun {depth d k ks} hdepth _ hd => ?_⟩
  · rw [← hkind hc]
    exact Ensures.begins_simpleLine _ _ hsimple
  · obtain ⟨depth, rfl⟩ : ∃ n, depth = n + 1 := ⟨depth - 1, by omega⟩
    rw [List.append_assoc] at hd
    obtain ⟨ss, d', hd', hss, -, -, rfl⟩ := simpleLine_alike (honLine hd) hsimple
    refine ⟨ss, _, ?_, ?_, (honLine hd).ahead_after⟩
    · rw [stmtWithin_of_plain, hd']
      rw [hkind hd, ← hkind hc]
      exact hplain
    · obtain ⟨t, more, ht, hmore, rfl⟩ := List.forall₂_cons_left_iff.1 hss
      cases hmore
      exact ⟨t, rfl, ht.trans hbare⟩

end Outline.Leaf

end StagedScript

/-!
## Reading headers

A header is a row, and is read together with the block below it.  So is the line of a block that is
given none.
-/

namespace StagedScript

open Parse

namespace Stmt

theorem mapSpans_eq_map (f : Span → Span) (ss : List Stmt) :
    mapSpans f ss = ss.map (mapSpan f) := by
  induction ss with
  | nil => rfl
  | cons s ss ih => rw [mapSpans, ih, List.map_cons]

/-- Statements that differ from given ones in their spans alone. -/
theorem map_bare {bodies ss : List Stmt}
    (h : List.Forall₂ (fun P s => P s) (bodies.map fun t s => s.bare = t) ss) :
    ss.map bare = bodies := by
  induction bodies generalizing ss with
  | nil =>
    cases h
    rfl
  | cons t bodies ih =>
    cases h with
    | cons hs hss => exact congrArg₂ List.cons hs (ih hss)

end Stmt

/-! ## Loops over the items of a name -/

/-- The target of a loop stands in front of a keyword that would be an operator. -/
theorem Yields.loopTarget {x : String} {k : Token.Kind} {ks : List Token.Kind} {c : Cursor}
    (hc : c.ahead = .ident x :: .keyword .in_ :: k :: ks) :
    Yields Parse.loopTarget c (fun e => ∃ span, e = .name span x) (.keyword .in_ :: k :: ks) := by
  have hfirst : Yields (exprAbove Connective.aboveCompare) c (fun e => ∃ span, e = .name span x)
      (.keyword .in_ :: k :: ks) := by
    unfold exprAbove
    refine .rounds fun n hn => ?_
    obtain ⟨n, rfl⟩ : ∃ m, n = m + 1 := ⟨n - 1, by omega⟩
    unfold exprWithin
    refine .here fun start => (Yields.nameOperand hc).bind fun e c' he hc' => .rounds fun i _ => ?_
    refine .stopped he hc' ?_ ?_ _ _ _
    · rw [Cursor.kind_of_ahead hc']
      rfl
    · intro op two hop
      rw [Cursor.kind_of_ahead hc'] at hop
      cases hop
      decide
  unfold Parse.loopTarget
  refine .here fun start => hfirst.bind fun e c' he hc' => .sees hc' ?_
  rw [if_neg (by simp [Token.Kind.alike])]
  exact .pure he hc'

namespace Outline.Header

/-- The tokens of a header. -/
def kinds : Header → List Token.Kind
  | cond x => [.keyword .if_, .ident x.text, .symbol .colon]
  | loop x => [.keyword .while_, .ident x.text, .symbol .colon]
  | define x =>
      [.keyword .def_, .ident x.text, .symbol .openParen, .symbol .closeParen, .symbol .colon]
  | each x items =>
    [.keyword .for_, .ident x.text, .keyword .in_, .ident items.text, .symbol .colon]

section

variable {sub : Parse (List Stmt)} {below ks : List Token.Kind} {bodies : List Stmt}
    {k : Token.Kind}
  {c : Cursor}
  (hblock : ∀ c : Cursor, c.ahead = .symbol .colon :: below → Yields (Parse.block sub) c
    (fun ss => Stmt.mapSpans (fun _ => .nowhere) ss = bodies) (k :: ks))
include hblock

theorem yields_choice {x : Name} {n : Nat} (hk : k.Follows)
    (hc : c.ahead = (cond x).kinds ++ below) :
    Yields (choice sub (n + 1)) c (·.bare = (cond x).stmt bodies) (k :: ks) := by
  unfold choice
  refine .here fun start => .advance hc (by simp) fun c₁ hc₁ => ?_
  have htest := Yields.expr (.of_expr (fun depth => ReadsExpr.name x.text (depth + 1)) (by simp))
    Token.Kind.Ends.colon hc₁
  refine htest.bind fun e c₂ he hc₂ => (hblock c₂ hc₂).bind fun body c₃ hbody hc₃ => ?_
  obtain ⟨span, rfl⟩ := he
  refine .sees hc₃ ?_
  dsimp only
  rw [hk.elif, if_neg Bool.false_ne_true]
  refine .reject hc₃ hk.else_ ?_
  rw [if_neg Bool.false_ne_true, pure_bind]
  refine .blockSpanFrom _ fun _ => .pure ?_ hc₃
  exact congrArg (Stmt.cond .nowhere (.name .nowhere x.text) · []) hbody

theorem yields_whileLoop {x : Name} (hc : c.ahead = (loop x).kinds ++ below) :
    Yields (whileLoop sub) c (·.bare = (loop x).stmt bodies) (k :: ks) := by
  unfold whileLoop
  refine .here fun start => .expect hc rfl (by simp) fun c₁ hc₁ => ?_
  have htest := Yields.expr (.of_expr (fun depth => ReadsExpr.name x.text (depth + 1)) (by simp))
    Token.Kind.Ends.colon hc₁
  refine htest.bind fun e c₂ he hc₂ => (hblock c₂ hc₂).bind fun body c₃ hbody hc₃ => ?_
  obtain ⟨span, rfl⟩ := he
  refine .blockSpanFrom _ fun _ => .pure ?_ hc₃
  exact congrArg (Stmt.loop .nowhere (.name .nowhere x.text)) hbody

theorem yields_definition {x : Name} (hc : c.ahead = (define x).kinds ++ below) :
    Yields (definition sub) c (·.bare = (define x).stmt bodies) (k :: ks) := by
  unfold definition
  refine .here fun start => .rounds fun n _ => ?_
  refine (Yields.noDecorators hc rfl n).bind fun ds c₁ hds hc₁ => .sees hc₁ ?_
  rw [if_neg (by simp [Token.Kind.alike])]
  refine .advance hc₁ (by simp) fun c₂ hc₂ => .name hc₂ fun c₃ hc₃ => ?_
  refine .expect hc₃ rfl (by simp) fun c₄ hc₄ => .rounds fun n hn => ?_
  have hparams : Yields (params n []) c₄ (· = []) (.symbol .closeParen :: .symbol .colon ::
      below) := by
    obtain ⟨n, rfl⟩ : ∃ m, n = m + 1 := ⟨n - 1, by omega⟩
    unfold params
    refine .sees hc₄ ?_
    rw [if_pos (by rfl)]
    exact .pure rfl hc₄
  refine hparams.bind fun ps c₅ hps hc₅ => .expect hc₅ rfl (by simp) fun c₆ hc₆ => ?_
  refine (hblock c₆ hc₆).bind fun body c₇ hbody hc₇ => .blockSpanFrom _ fun _ => .pure ?_ hc₇
  rw [hds, hps]
  exact congrArg (Stmt.define .nowhere x.text [] []) hbody

theorem yields_forLoop {x items : Name} (hk : k.Follows)
    (hc : c.ahead = (each x items).kinds ++ below) :
    Yields (forLoop sub) c (·.bare = (each x items).stmt bodies) (k :: ks) := by
  unfold forLoop
  refine .here fun start => .expect hc rfl (by simp) fun c₁ hc₁ => ?_
  refine (Yields.loopTarget hc₁).bind fun e c₂ he hc₂ => ?_
  obtain ⟨span, rfl⟩ := he
  refine .bind (P := fun _ => True) (.pure trivial hc₂) fun _ c₃ _ hc₃ => ?_
  refine .expect hc₃ rfl (by simp) fun c₄ hc₄ => ?_
  have hiter :=
    Yields.exprs (.of_expr (fun depth => ReadsExpr.name items.text (depth + 1)) (by simp))
    Token.Kind.Ends.colon rfl hc₄
  refine hiter.bind fun e c₅ he hc₅ => (hblock c₅ hc₅).bind fun body c₆ hbody hc₆ => ?_
  obtain ⟨spanItems, rfl⟩ := he
  refine .reject hc₆ hk.else_ ?_
  dsimp only
  rw [if_neg Bool.false_ne_true, pure_bind]
  refine .blockSpanFrom _ fun _ => .pure ?_ hc₆
  exact congrArg (Stmt.each .nowhere (.name .nowhere x.text) (.name .nowhere items.text) · []) hbody

end

/-- A header is read with a block below it as its statement. -/
theorem readsStmt (h : Header) {words : List (List Token.Kind)} {bodies : List Stmt}
    (hwords : List.Forall₂ ReadsStmt words (bodies.map fun t s => s.bare = t)) :
    ReadsStmt (h.kinds ++ .newline :: .indent :: (words.flatten ++ [.dedent]))
      (·.bare = h.stmt bodies) where
  begins := by cases h <;> exact ⟨_, _, rfl, ⟨rfl, rfl, rfl⟩, rfl, rfl⟩
  read {depth c k ks} hdepth hk hc := by
    obtain ⟨depth, rfl⟩ : ∃ n, depth = n + 1 := ⟨depth - 1, by omega⟩
    have hlength : words.flatten.length < depth := by
      simp only [List.length_append, List.length_cons] at hdepth
      omega
    have hahead : c.ahead =
        h.kinds ++ .newline :: .indent :: (words.flatten ++ .dedent :: k :: ks) := by
      rw [hc]
      simp
    have hblock (c : Cursor) (hc : c.ahead =
        .symbol .colon :: .newline :: .indent :: (words.flatten ++ .dedent :: k :: ks)) :
        Yields (Parse.block (stmtWithin depth)) c
          (fun ss => Stmt.mapSpans (fun _ => .nowhere) ss = bodies) (k :: ks) :=
      (Yields.block hwords hlength hc).mono fun ss hss =>
        (Stmt.mapSpans_eq_map _ ss).trans (Stmt.map_bare hss)
    have hone {s : Stmt → Prop} {x : Parse Stmt} (hx : Yields x c s (k :: ks)) :
        Yields (do return [← x]) c (fun ss => ∃ t, ss = [t] ∧ s t) (k :: ks) :=
      hx.bind fun t c' ht hc' => .pure ⟨t, rfl, ht⟩ hc'
    unfold stmtWithin
    refine .get ?_
    cases h with
    | cond x =>
      rw [Cursor.kind_of_ahead hahead]
      refine .rounds fun n hn => ?_
      obtain ⟨n, rfl⟩ : ∃ m, n = m + 1 := ⟨n - 1, by omega⟩
      exact hone (yields_choice hblock hk hahead)
    | loop x =>
      rw [Cursor.kind_of_ahead hahead]
      exact hone (yields_whileLoop hblock hahead)
    | define x =>
      rw [Cursor.kind_of_ahead hahead]
      exact hone (yields_definition hblock hahead)
    | each x items =>
      rw [Cursor.kind_of_ahead hahead]
      exact hone (yields_forLoop hblock hk hahead)

/-! ## Headers as rows -/

/-- The pieces of a header. -/
def pieces : Header → List Piece
  | cond x => [Piece.word [] "if", Piece.word [' '] x.text, Piece.symbol [] .colon]
  | loop x => [Piece.word [] "while", Piece.word [' '] x.text, Piece.symbol [] .colon]
  | define x => [Piece.word [] "def", Piece.word [' '] x.text, Piece.symbol [] .openParen,
      Piece.symbol [] .closeParen, Piece.symbol [] .colon]
  | each x items => [Piece.word [] "for", Piece.word [' '] x.text, Piece.word [' '] "in",
      Piece.word [' '] items.text, Piece.symbol [] .colon]

theorem kinds_pieces (h : Header) : h.pieces.map Piece.kind = h.kinds := by
  have hname (x : Name) : Word.kind x.text = .ident x.text := Word.kind_of_isName x.isName
  cases h
  all_goals
    simp only [pieces, kinds, List.map_cons, List.map_nil, Piece.word, Piece.symbol, hname]
    rfl

theorem text_pieces (h : Header) : Piece.text h.pieces = h.text.toList := by
  cases h <;> simp [pieces, text, Piece.text, Piece.word, Piece.symbol, Symbol.chars]

theorem fit_pieces (h : Header) (rest : List Char) : Piece.Fit h.pieces rest := by
  have hname (x : Name) : Word.isIdentifier x.text = true := Word.isIdentifier_of_isName x.isName
  have hcolon : Piece.Fit [Piece.symbol [] .colon] rest :=
    ⟨Piece.fits_symbol Piece.blanks_none rfl, trivial⟩
  cases h with
  | cond x | loop x =>
    exact ⟨Piece.fits_word rfl Piece.blanks_none (.cons rfl),
      Piece.fits_word (hname x) Piece.blanks_one (.cons rfl), hcolon⟩
  | define x =>
    exact ⟨Piece.fits_word rfl Piece.blanks_none (.cons rfl),
      Piece.fits_word (hname x) Piece.blanks_one (.cons rfl),
      Piece.fits_symbol Piece.blanks_none rfl, Piece.fits_symbol Piece.blanks_none rfl, hcolon⟩
  | each x items =>
    exact ⟨Piece.fits_word rfl Piece.blanks_none (.cons rfl),
      Piece.fits_word (hname x) Piece.blanks_one (.cons rfl),
      Piece.fits_word rfl Piece.blanks_one (.cons rfl),
      Piece.fits_word (hname items) Piece.blanks_one (.cons rfl), hcolon⟩

theorem inner_kinds (h : Header) : ∀ k ∈ h.kinds, k.Inner := by
  cases h <;> simp [kinds, Token.Kind.Inner, Token.Kind.Flat]

theorem counts_kinds (h : Header) : Token.Counts 0 h.kinds 0 := by
  cases h with
  | define x => exact .cons rfl (.cons rfl (.cons (l := 1) rfl (.cons rfl (.cons rfl (.nil 0)))))
  | cond x | loop x => exact .cons rfl (.cons rfl (.cons rfl (.nil 0)))
  | each x items => exact .cons rfl (.cons rfl (.cons rfl (.cons rfl (.cons rfl (.nil 0)))))

theorem exists_row (h : Header) : ∃ r : Row, r.text = h.text.toList ∧ r.kinds = h.kinds := by
  obtain ⟨p, ps, hpieces, hgap⟩ : ∃ p ps, h.pieces = p :: ps ∧ p.gap = [] := by
    cases h <;> exact ⟨_, _, rfl, rfl⟩
  have hkinds := h.kinds_pieces
  have htext := h.text_pieces
  rw [hpieces] at hkinds htext
  refine ⟨⟨p, ps, [], hgap, fun rest _ => ⟨?_, .nil⟩, ?_, ?_⟩, ?_, hkinds⟩
  · rw [← hpieces]
    exact h.fit_pieces rest
  · rw [← List.forall_mem_map, hkinds]
    exact h.inner_kinds
  · rw [hkinds]
    exact h.counts_kinds
  · rw [Row.text, htext, List.append_nil]

end Outline.Header

end StagedScript
