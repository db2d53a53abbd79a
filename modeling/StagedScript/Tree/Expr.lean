import StagedScript.Source.Basic

/-!
# Expressions

The trees of expressions.  Every node carries the span of the text that it was read from.
-/

/-!
## Operators

The operators of expressions and how they are written.
-/

namespace StagedScript

/-- The operators on two numbers or containers. -/
inductive BinaryOp where
  | add | sub | mul | div | floorDiv | mod | pow | bitAnd | bitOr | bitXor | shiftLeft | shiftRight
deriving DecidableEq, Repr, Inhabited

/-- How a binary operator is written. -/
def BinaryOp.text : BinaryOp → String
  | add => "+" | sub => "-" | mul => "*" | div => "/" | floorDiv => "//" | mod => "%"
  | pow => "**" | bitAnd => "&" | bitOr => "|" | bitXor => "^" | shiftLeft => "<<"
  | shiftRight => ">>"

/-- The comparisons. -/
inductive CompareOp where
  | eq | ne | lt | gt | le | ge | isIn | notIn | is | isNot
deriving DecidableEq, Repr, Inhabited

/-- How a comparison is written. -/
def CompareOp.text : CompareOp → String
  | eq => "==" | ne => "!=" | lt => "<" | gt => ">" | le => "<=" | ge => ">=" | isIn => "in"
  | notIn => "not in" | is => "is" | isNot => "is not"

/-- The operators whose second operand is evaluated only if the first does not decide. -/
inductive LogicalOp where
  | conj | disj
deriving DecidableEq, Repr, Inhabited

/-- How a logical operator is written. -/
def LogicalOp.text : LogicalOp → String
  | conj => "and" | disj => "or"

/-- The operators on one operand. -/
inductive UnaryOp where
  | neg | pos | not | bitNot
deriving DecidableEq, Repr, Inhabited

/-- How a unary operator is written. -/
def UnaryOp.text : UnaryOp → String
  | neg => "-" | pos => "+" | not => "not" | bitNot => "~"

/-- How an argument of a call is passed. -/
inductive ArgRole where
  /-- By its place. -/
  | positional
  /-- By a name. -/
  | keyword (name : String)
  /-- As the items of a sequence, each by its place. -/
  | star
  /-- As the entries of a mapping, each by its name. -/
  | starStar
deriving DecidableEq, Repr

/-- An argument of a call. -/
structure Arg (ε : Type) where
  /-- How it is passed. -/
  role : ArgRole
  /-- What is passed. -/
  value : ε
deriving DecidableEq, Repr

/-- An expression. -/
inductive Expr where
  /-- An integer literal. -/
  | int (span : Span) (n : Int64)
  /-- A float literal. -/
  | float (span : Span) (x : Float)
  /-- A string literal, or several in a row. -/
  | str (span : Span) (text : String)
  /-- The literals `True` and `False`. -/
  | bool (span : Span) (b : Bool)
  /-- The literal `None`. -/
  | none_ (span : Span)
  /-- A name. -/
  | name (span : Span) (x : String)
  /-- Items with commas between them. -/
  | tuple (span : Span) (items : List Expr)
  /-- Items in brackets. -/
  | list (span : Span) (items : List Expr)
  /-- Pairs of keys and values in braces. -/
  | dict (span : Span) (entries : List (Expr × Expr))
  /-- A binary operator and its operands. -/
  | binary (span : Span) (op : BinaryOp) (left right : Expr)
  /-- A unary operator and its operand. -/
  | unary (span : Span) (op : UnaryOp) (operand : Expr)
  /-- A logical operator and its operands. -/
  | logical (span : Span) (op : LogicalOp) (left right : Expr)
  /-- A comparison and its operands. -/
  | compare (span : Span) (op : CompareOp) (left right : Expr)
  /-- A call. -/
  | call (span : Span) (func : Expr) (args : List (Arg Expr))
  /-- An attribute of an object. -/
  | attr (span : Span) (object : Expr) (name : String)
  /-- An item of an object. -/
  | subscript (span : Span) (object index : Expr)
deriving Inhabited

namespace Expr

/-- Where an expression stands. -/
def span : Expr → Span
  | int s _ | float s _ | str s _ | bool s _ | none_ s | name s _ | tuple s _ | list s _ | dict s _
  | binary s _ _ _ | unary s _ _ | logical s _ _ _ | compare s _ _ _ | call s _ _
  | attr s _ _ | subscript s _ _ => s

mutual

/-- The expression with every span changed. -/
def mapSpan (f : Span → Span) : Expr → Expr
  | int s n => int (f s) n
  | float s x => float (f s) x
  | str s t => str (f s) t
  | bool s b => bool (f s) b
  | none_ s => none_ (f s)
  | name s x => name (f s) x
  | tuple s items => tuple (f s) (mapSpans f items)
  | list s items => list (f s) (mapSpans f items)
  | dict s entries => dict (f s) (mapEntrySpans f entries)
  | binary s op l r => binary (f s) op (mapSpan f l) (mapSpan f r)
  | unary s op e => unary (f s) op (mapSpan f e)
  | logical s op l r => logical (f s) op (mapSpan f l) (mapSpan f r)
  | compare s op l r => compare (f s) op (mapSpan f l) (mapSpan f r)
  | call s g args => call (f s) (mapSpan f g) (mapArgSpans f args)
  | attr s o x => attr (f s) (mapSpan f o) x
  | subscript s o i => subscript (f s) (mapSpan f o) (mapSpan f i)

/-- Expressions with every span changed. -/
def mapSpans (f : Span → Span) : List Expr → List Expr
  | [] => []
  | e :: es => mapSpan f e :: mapSpans f es

/-- Entries of a dict with every span changed. -/
def mapEntrySpans (f : Span → Span) : List (Expr × Expr) → List (Expr × Expr)
  | [] => []
  | (k, v) :: es => (mapSpan f k, mapSpan f v) :: mapEntrySpans f es

/-- Arguments with every span changed. -/
def mapArgSpans (f : Span → Span) : List (Arg Expr) → List (Arg Expr)
  | [] => []
  | ⟨role, e⟩ :: args => ⟨role, mapSpan f e⟩ :: mapArgSpans f args

end

/-- The expression with every span forgotten.  Two expressions that differ in their spans alone
have the same. -/
def bare (e : Expr) : Expr := e.mapSpan fun _ => ⟨0, 0⟩

end Expr

end StagedScript
