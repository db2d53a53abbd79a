import StagedScript.Tree.Expr

/-!
# Statements

The trees of statements, of functions and of classes.
-/

namespace StagedScript

/-- How a parameter takes arguments.  A plain parameter may have a default, which is an expression
in a tree and a value in a function. -/
inductive ParamKind (δ : Type) where
  /-- One argument, by place or by name. -/
  | plain (default? : Option δ)
  /-- All further arguments by place. -/
  | star
  /-- All further arguments by name. -/
  | starStar
deriving DecidableEq, Repr

/-- A parameter of a function. -/
structure Param (δ : Type) where
  /-- Its name. -/
  name : String
  /-- How it takes arguments. -/
  kind : ParamKind δ
deriving DecidableEq, Repr

/-- The default of a parameter. -/
def Param.default? {δ : Type} (p : Param δ) : Option δ :=
  match p.kind with
  | .plain d => d
  | .star | .starStar => none

/-- Whether a parameter takes one argument. -/
def Param.isPlain {δ : Type} (p : Param δ) : Bool :=
  match p.kind with
  | .plain _ => true
  | .star | .starStar => false

/-- Whether a parameter takes all further arguments by place. -/
def Param.isStar {δ : Type} (p : Param δ) : Bool :=
  match p.kind with
  | .star => true
  | .plain _ | .starStar => false

/-- Whether a parameter takes all further arguments by name. -/
def Param.isStarStar {δ : Type} (p : Param δ) : Bool :=
  match p.kind with
  | .starStar => true
  | .plain _ | .star => false

/-- A statement. -/
inductive Stmt where
  /-- An expression, evaluated for its effect. -/
  | expr (span : Span) (e : Expr)
  /-- One value, assigned to every target from the left to the right. -/
  | assign (span : Span) (targets : List Expr) (value : Expr)
  /-- Nothing. -/
  | pass (span : Span)
  /-- The end of a call. -/
  | ret (span : Span) (value : Option Expr)
  /-- The end of a loop. -/
  | brk (span : Span)
  /-- The end of a round of a loop. -/
  | cont (span : Span)
  /-- A choice; a chain of choices nests in the second branch. -/
  | cond (span : Span) (test : Expr) (thenBody elseBody : List Stmt)
  /-- A loop as long as a test holds. -/
  | loop (span : Span) (test : Expr) (body : List Stmt)
  /-- A loop over items; `elseBody` runs when the items are exhausted. -/
  | each (span : Span) (target iter : Expr) (body elseBody : List Stmt)
  /-- The definition of a function; the outermost decorator is the first. -/
  | define (span : Span) (name : String) (decorators : List Expr) (params : List (Param Expr))
      (body : List Stmt)
  /-- The definition of a class. -/
  | class_ (span : Span) (name : String) (base : Option Expr) (body : List Stmt)
deriving Inhabited

/-- The definition of a function as a function keeps it. -/
structure Definition where
  /-- The name. -/
  name : String
  /-- The decorators, the outermost first. -/
  decorators : List Expr
  /-- The parameters, with the expressions of their defaults. -/
  params : List (Param Expr)
  /-- The body. -/
  body : List Stmt

/-- The text that a body starts with, if its first statement is a string. -/
def docstring? : List Stmt → Option String
  | .expr _ (.str _ text) :: _ => some text
  | _ => none

/-- The parameter with the spans of its default changed. -/
def Param.mapSpan (f : Span → Span) (p : Param Expr) : Param Expr :=
  match p.kind with
  | .plain (some e) => ⟨p.name, .plain (some (e.mapSpan f))⟩
  | _ => p

namespace Stmt

/-- Where a statement stands. -/
def span : Stmt → Span
  | expr s _ | assign s _ _ | pass s | ret s _ | brk s | cont s | cond s _ _ _ | loop s _ _
  | each s _ _ _ _ | define s _ _ _ _ | class_ s _ _ _ => s

mutual

/-- The statement with every span changed. -/
def mapSpan (f : Span → Span) : Stmt → Stmt
  | expr s e => expr (f s) (e.mapSpan f)
  | assign s ts v => assign (f s) (Expr.mapSpans f ts) (v.mapSpan f)
  | pass s => pass (f s)
  | ret s v => ret (f s) (v.map (Expr.mapSpan f))
  | brk s => brk (f s)
  | cont s => cont (f s)
  | cond s t a b => cond (f s) (t.mapSpan f) (mapSpans f a) (mapSpans f b)
  | loop s t b => loop (f s) (t.mapSpan f) (mapSpans f b)
  | each s x i b e => each (f s) (x.mapSpan f) (i.mapSpan f) (mapSpans f b) (mapSpans f e)
  | define s n ds ps b =>
      define (f s) n (Expr.mapSpans f ds) (ps.map (Param.mapSpan f)) (mapSpans f b)
  | class_ s n base b => class_ (f s) n (base.map (Expr.mapSpan f)) (mapSpans f b)

/-- Statements with every span changed. -/
def mapSpans (f : Span → Span) : List Stmt → List Stmt
  | [] => []
  | s :: ss => mapSpan f s :: mapSpans f ss

end

/-- The statement with every span forgotten. -/
def bare (s : Stmt) : Stmt := s.mapSpan fun _ => ⟨0, 0⟩

end Stmt

end StagedScript
