import StagedScript.Token.Basic

/-!
# A position in a sequence of tokens

A cursor holds the tokens that are still to be read and where the last ones read have ended.  It
never moves past the end of the text, and it keeps its place when reading fails, so that reading
can go on behind the error.  It carries a bound on the number of tokens, which bounds every loop of
the reader without counting them again.
-/

/-!
## Syntax errors

What can be wrong with a sequence of tokens, how it is worded, and what may help.
-/

namespace StagedScript

namespace SyntaxError

/-- What could have stood where something else was found. -/
inductive Expected where
  /-- A token. -/
  | token (kind : Token.Kind)
  /-- An expression. -/
  | expression
  /-- A name. -/
  | name
  /-- The indented body of a block. -/
  | block
  /-- The definition of a function, behind its decorators. -/
  | definition

/-- How an expected part is called. -/
def Expected.text : Expected → String
  | token kind => kind.describe
  | expression => "expression"
  | name => "name"
  | block => "indented block"
  | definition => "'def'"

/-- What cannot be assigned to. -/
inductive Unassignable where
  | literal | call | emptyTuple | emptyList | comparison | expression
deriving DecidableEq, Repr

/-- How it is called. -/
def Unassignable.text : Unassignable → String
  | literal => "literal"
  | call => "function call"
  | emptyTuple => "empty tuple"
  | emptyList => "empty list"
  | comparison => "comparison"
  | expression => "expression"

/-- What is wrong. -/
inductive Cause where
  /-- Something else should have stood here. -/
  | expected (what : Expected) (found : Token.Kind)
  /-- An indented line that no block header precedes. -/
  | unexpectedIndent
  /-- A word that may be neither a name nor a statement. -/
  | reservedWord (word : String)
  /-- A comparison of a comparison, without parentheses. -/
  | chainedComparison
  /-- Something that is no target of an assignment. -/
  | notTarget (what : Unassignable)
  /-- Something that is no target of an assignment with an operator. -/
  | notAugmentedTarget
  /-- A parameter behind the one for further keywords. -/
  | afterStarStar
  /-- A second parameter for further positional arguments. -/
  | secondStar
  /-- A plain parameter behind the one for further positional arguments. -/
  | afterStar
  /-- A parameter without default behind one with a default. -/
  | afterDefault
  /-- Two parameters of one name. -/
  | duplicateParam (name : String)
  /-- A positional argument behind one passed by name. -/
  | positionalAfterKeyword
  /-- An expression that nests deeper than it has tokens, which none does. -/
  | tooDeep

/-- The message of a cause. -/
def Cause.message : Cause → String
  | expected (.token (.symbol .closeParen)) .eof => "unclosed '(' - missing ')'"
  | expected (.token (.symbol .closeBracket)) .eof => "unclosed '[' - missing ']'"
  | expected (.token .newline) found =>
    "expected end of line after statement, found " ++ found.describe
  | expected what found => "expected " ++ what.text ++ ", found " ++ found.describe
  | unexpectedIndent => "unexpected indent"
  | reservedWord word => s!"'{word}' is a reserved word"
  | chainedComparison => "comparison chains are not supported"
  | notTarget what => "cannot assign to " ++ what.text
  | notAugmentedTarget => "illegal target for augmented assignment"
  | afterStarStar => "parameters cannot follow '**' parameter"
  | secondStar => "only one '*' parameter is allowed"
  | afterStar => "parameters cannot follow '*' parameter"
  | afterDefault => "non-default parameter follows default parameter"
  | duplicateParam name => s!"duplicate parameter '{name}' in function definition"
  | positionalAfterKeyword => "positional argument follows keyword argument"
  | tooDeep => "expression is nested too deeply"

/-- What may help when something else should have stood where `found` was. -/
def Expected.hint? (what : Expected) (found : Token.Kind) : Option String :=
  match what, found with
  | .token (.symbol .colon), .symbol .assign => some "use '==' to compare"
  | .token (.symbol .colon), _ => some "block headers end with ':'"
  | .block, _ => some "indent the body under the header, or write 'pass'"
  | .token (.symbol .closeParen), .eof => some "add ')' to close the parenthesis"
  | .token (.symbol .closeBracket), .eof => some "add ']' to close the bracket"
  | .token (.symbol .closeBrace), .eof => some "add '\x7d' to close the dict"
  | .token (.keyword .in_), .symbol .assign => some "loops are written 'for name in items:'"
  | .expression, .newline => some "statement is incomplete"
  | .expression, .reserved _ => some "this word is reserved"
  | .expression, _ => some "try a value, a name, or a call"
  | .name, .int _ => some "names can't start with a number"
  | .name, .reserved _ => some "reserved words can't be used as names"
  | .name, _ => some "names start with a letter or '_'"
  | .token .newline, .symbol .assign => some "chained assignment is 'a = b = value'"
  | .token .newline, _ => some "put each statement on its own line or separate with ';'"
  | .definition, _ => some "decorators apply to function definitions"
  | .token _, _ => none

/-- What may help against a cause. -/
def Cause.hint? : Cause → Option String
  | expected what found => what.hint? found
  | unexpectedIndent => some "only block bodies are indented"
  | reservedWord _ => some "reserved words can't be used as names or statements here"
  | chainedComparison => some "combine the comparisons with 'and'"
  | afterStar => some "keyword-only parameters are not supported"
  | _ => none

end SyntaxError

/-- A syntax error and where it is. -/
structure SyntaxError where
  /-- Where it is. -/
  span : Span
  /-- What is wrong. -/
  cause : SyntaxError.Cause

/-- A position in a sequence of tokens. -/
structure Cursor where
  /-- The tokens that are still to be read. -/
  rest : List Token
  /-- Where the last token read ends. -/
  lastStop : Nat
  /-- Where the last token read ends that stands for characters of its own. -/
  lastWordStop : Nat
  /-- A bound on the tokens that are still to be read. -/
  bound : Nat
  /-- There are no more tokens than the bound says. -/
  length_rest_le : rest.length ≤ bound

/-- A way to read something from a sequence of tokens. -/
abbrev Parse := EStateM SyntaxError Cursor

namespace Cursor

/-- The start of a sequence of tokens, which the end of the text is added to where it is
missing. -/
def ofTokens (tokens : List Token) : Cursor :=
  let closed := match tokens.getLast? with
    | some ⟨.eof, _⟩ => tokens
    | some t => tokens ++ [⟨.eof, Span.point t.span.stop⟩]
    | none => [⟨.eof, Span.point 0⟩]
  ⟨closed, 0, 0, closed.length, Nat.le_refl _⟩

/-- The next token. -/
def token (c : Cursor) : Token := c.rest.headD ⟨.eof, Span.point c.lastStop⟩

/-- What the next token is. -/
def kind (c : Cursor) : Token.Kind := c.token.kind

/-- What the token behind the next one is. -/
def following (c : Cursor) : Token.Kind :=
  match c.rest with
  | _ :: t :: _ => t.kind
  | _ => .eof

/-- Whether the next token is of a kind. -/
def sees (k : Token.Kind) (c : Cursor) : Bool := c.kind.alike k

/-- Whether the end of the text is reached. -/
def atEnd (c : Cursor) : Bool := c.sees .eof

/-- The cursor behind the next token. -/
def advance : Cursor → Cursor
  | c@⟨[], _, _, _, _⟩ => c
  | c@⟨t :: ts, _, lastWordStop, bound, h⟩ =>
    match t.kind with
    | .eof => c
    | k =>
      ⟨ts, t.span.stop, if k.isLayout then lastWordStop else t.span.stop, bound,
        Nat.le_of_succ_le h⟩

/-- The cursor behind the newlines. -/
def skipNewlinesFrom : Nat → Cursor → Cursor
  | 0, c => c
  | n + 1, c => if c.sees .newline then skipNewlinesFrom n c.advance else c

/-- The cursor behind the newlines. -/
def skipNewlines (c : Cursor) : Cursor := skipNewlinesFrom c.bound c

/-- The cursor behind the ends of blocks. -/
def skipDedentsFrom : Nat → Cursor → Cursor
  | 0, c => c
  | n + 1, c => if c.sees .dedent then skipDedentsFrom n c.advance else c

/-- The cursor behind the ends of blocks. -/
def skipDedents (c : Cursor) : Cursor := skipDedentsFrom c.bound c

/-- The cursor behind the rest of a broken statement and the block that hangs off it; `depth` is
how many blocks have been entered. -/
def synchronizeFrom : Nat → Int → Cursor → Cursor
  | 0, _, c => c
  | n + 1, depth, c =>
    match c.kind with
    | .eof => c
    | .indent => synchronizeFrom n (depth + 1) c.advance
    | .dedent => synchronizeFrom n (depth - 1) c.advance
    | .newline =>
      if depth ≤ 0 && !c.following.alike .indent then c.advance.skipDedents
      else synchronizeFrom n depth c.advance
    | _ => synchronizeFrom n depth c.advance

/-- The cursor behind the rest of a broken statement. -/
def synchronize (c : Cursor) : Cursor := synchronizeFrom c.bound 0 c

end Cursor

namespace Parse

/-- Fails at a span. -/
def failAt {α : Type} (span : Span) (cause : SyntaxError.Cause) : Parse α := throw ⟨span, cause⟩

/-- Fails at the next token, where something else should stand. -/
def missing {α : Type} (what : SyntaxError.Expected) : Parse α := do
  let c ← get
  failAt c.token.span (.expected what c.kind)

/-- What the next token is. -/
def kind : Parse Token.Kind := return (← get).kind

/-- Where the next token is. -/
def here : Parse Span := return (← get).token.span

/-- Whether the next token is of a kind. -/
def sees (k : Token.Kind) : Parse Bool := return (← get).sees k

/-- Reads the next token. -/
def advance : Parse Unit := modify Cursor.advance

/-- Reads the next token if it is of a kind, and says whether it was. -/
def accept (k : Token.Kind) : Parse Bool := do
  if ← sees k then
    advance
    return true
  else return false

/-- Reads the next token, which has to be of a kind. -/
def expect (k : Token.Kind) : Parse Unit := do
  if ← sees k then advance else missing (.token k)

/-- Reads a name. -/
def name : Parse String := do
  match ← kind with
  | .ident x =>
    advance
    return x
  | _ => missing .name

/-- The span from a position to the end of the last token read. -/
def spanFrom (start : Nat) : Parse Span := return ⟨start, (← get).lastStop⟩

/-- The span from a position to the end of the last token read that is not of the layout. -/
def blockSpanFrom (start : Nat) : Parse Span := return ⟨start, (← get).lastWordStop⟩

/-- A bound on the rounds of a loop of which every round reads a token. -/
def rounds : Parse Nat := return (← get).bound + 1

end Parse

end StagedScript
