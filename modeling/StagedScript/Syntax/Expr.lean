import StagedScript.Syntax.Cursor
import StagedScript.Tree.Expr

/-!
# Reading expressions

An expression is an operand with the trailers behind it (calls, attributes and subscripts) and the
operators that connect it with further operands.  An operator binds its two sides with two
strengths; an operand goes to the stronger side.

The parsers of this file take the parser of nested expressions as an argument `sub`, which reads
an expression whose operators bind at least as strongly as a given strength.  At the end of the
file it is tied to itself; every nesting reads a token, so the tokens bound its depth.
-/

namespace StagedScript

/-- An operator between two operands. -/
inductive Connective where
  /-- The operators that join truth values. -/
  | logical (op : LogicalOp)
  /-- The comparisons. -/
  | compare (op : CompareOp)
  /-- The operators on numbers and containers. -/
  | binary (op : BinaryOp)
deriving DecidableEq, Repr

namespace Connective

/-- How strongly an operator binds its left and its right side.  Where the right side is bound more
strongly the operator groups to the left; only the power groups to the right, and it binds its left
side more strongly than a sign does. -/
def strength : Connective → Nat × Nat
  | logical .disj => (1, 2)
  | logical .conj => (3, 4)
  | compare _ => (7, 8)
  | binary .bitOr => (9, 10)
  | binary .bitXor => (11, 12)
  | binary .bitAnd => (13, 14)
  | binary .shiftLeft | binary .shiftRight => (15, 16)
  | binary .add | binary .sub => (17, 18)
  | binary .mul | binary .div | binary .floorDiv | binary .mod => (19, 20)
  | binary .pow => (23, 22)

/-- The strength above which no comparison binds: a loop target is read with it, so that the word
behind it is not taken for a membership test. -/
def aboveCompare : Nat := 9

/-- The operator that two tokens in a row start with, and whether it takes both of them. -/
def ofKinds? (first second : Token.Kind) : Option (Connective × Bool) :=
  match first with
  | .keyword .or_ => some (logical .disj, false)
  | .keyword .and_ => some (logical .conj, false)
  | .keyword .in_ => some (compare .isIn, false)
  | .keyword .not_ =>
    match second with
    | .keyword .in_ => some (compare .notIn, true)
    | _ => none
  | .keyword .is_ =>
    match second with
    | .keyword .not_ => some (compare .isNot, true)
    | _ => some (compare .is, false)
  | .symbol s =>
    match s with
    | .equal => some (compare .eq, false)
    | .notEqual => some (compare .ne, false)
    | .less => some (compare .lt, false)
    | .greater => some (compare .gt, false)
    | .lessEqual => some (compare .le, false)
    | .greaterEqual => some (compare .ge, false)
    | .bar => some (binary .bitOr, false)
    | .caret => some (binary .bitXor, false)
    | .ampersand => some (binary .bitAnd, false)
    | .shiftLeft => some (binary .shiftLeft, false)
    | .shiftRight => some (binary .shiftRight, false)
    | .plus => some (binary .add, false)
    | .minus => some (binary .sub, false)
    | .star => some (binary .mul, false)
    | .slash => some (binary .div, false)
    | .floorSlash => some (binary .floorDiv, false)
    | .percent => some (binary .mod, false)
    | .power => some (binary .pow, false)
    | _ => none
  | _ => none

/-- Whether an operator is a comparison. -/
def isCompare : Connective → Bool
  | compare _ => true
  | _ => false

/-- The expression that an operator makes of two. -/
def apply (span : Span) (left right : Expr) : Connective → Expr
  | logical op => .logical span op left right
  | compare op => .compare span op left right
  | binary op => .binary span op left right

end Connective

namespace Parse

/-- The operator in front of an operand, and how strongly it binds it. -/
def sign? : Token.Kind → Option (UnaryOp × Nat)
  | .symbol .minus => some (.neg, 21)
  | .symbol .plus => some (.pos, 21)
  | .symbol .tilde => some (.bitNot, 21)
  | .keyword .not_ => some (.not, 5)
  | _ => none

/-- Whether an expression can start with a token. -/
def startsExpr : Token.Kind → Bool
  | .int _ | .float _ | .str _ | .ident _ => true
  | .keyword k => k == .true_ || k == .false_ || k == .none_ || k == .not_
  | .symbol s =>
    s == .openParen || s == .openBracket || s == .openBrace || s == .minus || s == .plus
      || s == .tilde
  | _ => false

/-- Reads the string literals that follow one with a text; in a row they are one string. -/
def moreStrings : Nat → String → Parse String
  | 0, text => return text
  | n + 1, text => do
    match ← kind with
    | .str more =>
      advance
      moreStrings n (text ++ more)
    | _ => return text

section

variable (sub : Nat → Parse Expr)

/-- Reads expressions with commas between them up to a closing token; a comma may stand behind the
last. -/
def commaList (close : Token.Kind) : Nat → Parse (List Expr)
  | 0 => return []
  | n + 1 => do
    let c ← get
    if c.sees close || c.atEnd then return []
    let e ← sub 0
    if ← accept (.symbol .comma) then return e :: (← commaList close n)
    else return [e]

/-- Reads the items behind the first one of a list without brackets.  A comma without an expression
behind it ends the list. -/
def moreItems : Nat → Parse (List Expr)
  | 0 => return []
  | n + 1 => do
    if ← accept (.symbol .comma) then
      if startsExpr (← kind) then
        let e ← sub 0
        return e :: (← moreItems n)
      else return []
    else return []

/-- Reads one expression, or several with commas between them, which make a tuple. -/
def exprList : Parse Expr := do
  let start := (← here).start
  let first ← sub 0
  if ← sees (.symbol .comma) then
    let items ← moreItems sub (← rounds)
    return .tuple (← spanFrom start) (first :: items)
  else return first

/-- Reads the entries of a dict. -/
def entries : Nat → Parse (List (Expr × Expr))
  | 0 => return []
  | n + 1 => do
    let c ← get
    if c.sees (.symbol .closeBrace) || c.atEnd then return []
    let k ← sub 0
    expect (.symbol .colon)
    let v ← sub 0
    if ← accept (.symbol .comma) then return (k, v) :: (← entries n)
    else return [(k, v)]

/-- Reads what stands in parentheses: nothing or several items make a tuple, one expression stands
for itself. -/
def paren : Parse Expr := do
  let start := (← here).start
  advance
  if ← accept (.symbol .closeParen) then return .tuple (← spanFrom start) []
  let first ← sub 0
  if ← accept (.symbol .comma) then
    let items ← commaList sub (.symbol .closeParen) (← rounds)
    expect (.symbol .closeParen)
    return .tuple (← spanFrom start) (first :: items)
  else
    expect (.symbol .closeParen)
    return first

/-- Reads an operand: a literal, a name, a display in brackets, or an operator with its operand. -/
def operand : Parse Expr := do
  let c ← get
  let start := c.token.span.start
  match c.kind with
  | .int n =>
    advance
    return .int (← spanFrom start) n
  | .float x =>
    advance
    return .float (← spanFrom start) x
  | .str s =>
    advance
    let text ← moreStrings (← rounds) s
    return .str (← spanFrom start) text
  | .ident x =>
    advance
    return .name (← spanFrom start) x
  | .keyword .true_ =>
    advance
    return .bool (← spanFrom start) true
  | .keyword .false_ =>
    advance
    return .bool (← spanFrom start) false
  | .keyword .none_ =>
    advance
    return .none_ (← spanFrom start)
  | .symbol .openParen => paren sub
  | .symbol .openBracket =>
    advance
    let items ← commaList sub (.symbol .closeBracket) (← rounds)
    expect (.symbol .closeBracket)
    return .list (← spanFrom start) items
  | .symbol .openBrace =>
    advance
    let es ← entries sub (← rounds)
    expect (.symbol .closeBrace)
    return .dict (← spanFrom start) es
  | .reserved word => failAt c.token.span (.reservedWord word)
  | k =>
    match sign? k with
    | some (op, strength) =>
      advance
      let e ← sub strength
      return .unary (← spanFrom start) op e
    | none => missing .expression

/-- Reads one argument of a call; `named` says that one by name came before it. -/
def argument (named : Bool) : Parse (Arg Expr) := do
  let c ← get
  match c.kind, c.following with
  | .symbol .power, _ =>
    advance
    return ⟨.starStar, ← sub 0⟩
  | .symbol .star, _ =>
    advance
    return ⟨.star, ← sub 0⟩
  | .ident x, .symbol .assign =>
    advance
    advance
    return ⟨.keyword x, ← sub 0⟩
  | _, _ =>
    if named then failAt c.token.span .positionalAfterKeyword
    return ⟨.positional, ← sub 0⟩

/-- Whether an argument is passed by name, so that none by place may follow. -/
def namesArgument : ArgRole → Bool
  | .keyword _ | .starStar => true
  | .positional | .star => false

/-- Reads the arguments of a call. -/
def arguments : Nat → Bool → Parse (List (Arg Expr))
  | 0, _ => return []
  | n + 1, named => do
    let c ← get
    if c.sees (.symbol .closeParen) || c.atEnd then return []
    let arg ← argument sub named
    if ← accept (.symbol .comma) then
      return arg :: (← arguments n (named || namesArgument arg.role))
    else return [arg]

/-- Whether a trailer starts with a token. -/
def startsTrailer : Token.Kind → Bool
  | .symbol s => s == .openParen || s == .dot || s == .openBracket
  | _ => false

/-- Reads the trailer behind an expression. -/
def trailer (object : Expr) : Parse Expr := do
  let start := object.span.start
  match ← kind with
  | .symbol .openParen =>
    advance
    let args ← arguments sub (← rounds) false
    expect (.symbol .closeParen)
    return .call (← spanFrom start) object args
  | .symbol .dot =>
    advance
    let x ← name
    return .attr (← spanFrom start) object x
  | .symbol .openBracket =>
    advance
    let index ← exprList sub
    expect (.symbol .closeBracket)
    return .subscript (← spanFrom start) object index
  | _ => return object

/-- Reads the trailers and operators behind the left operand of an expression that starts at
`start`, as long as they bind it at least as strongly as `least`.  `compared` says that the operand
is itself a comparison without parentheses. -/
def continuation (start least : Nat) : Nat → Expr → Bool → Parse Expr
  | 0, left, _ => return left
  | n + 1, left, compared => do
    let c ← get
    if startsTrailer c.kind then
      let e ← trailer sub left
      continuation start least n e compared
    else
      match Connective.ofKinds? c.kind c.following with
      | none => return left
      | some (op, two) =>
        if op.strength.1 < least then return left
        advance
        if two then advance
        if op.isCompare && compared then failAt left.span .chainedComparison
        let right ← sub op.strength.2
        continuation start least n (op.apply ⟨start, right.span.stop⟩ left right) op.isCompare

end

/-- Reads an expression whose operators bind at least as strongly as `least`; `depth` bounds how
deeply it nests. -/
def exprWithin : Nat → Nat → Parse Expr
  | 0, _ => do failAt (← here) .tooDeep
  | depth + 1, least => do
    let start := (← here).start
    let left ← operand (exprWithin depth)
    continuation (exprWithin depth) start least (← rounds) left false

/-- Reads an expression whose operators bind at least as strongly as `least`. -/
def exprAbove (least : Nat) : Parse Expr := do exprWithin (← rounds) least

/-- Reads an expression. -/
def expr : Parse Expr := exprAbove 0

/-- Reads an expression, or several with commas between them. -/
def exprs : Parse Expr := exprList exprAbove

end Parse

end StagedScript
