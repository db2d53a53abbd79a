import StagedScript.Syntax.Expr
import StagedScript.Tree.Stmt
import StagedScript.Tree.Target

/-!
# Reading statements

A statement is a line of simple statements, or a header with a block.  The span of a simple
statement ends with its last token, and that of a statement with a block with the last token of the
block that stands for characters of its own.

The parsers of this file take the parser of nested statements as an argument `sub`.  At the end of
the file it is tied to itself; every nesting reads a token, so the tokens bound its depth.
-/

namespace StagedScript.Parse

/-- Fails if an expression is no target of an assignment. -/
def checkTarget (e : Expr) : Parse Unit :=
  match e.targetFault? with
  | some error => throw error
  | none => return ()

/-- Fails if one of several expressions is no target of an assignment. -/
def checkTargets (es : List Expr) : Parse Unit :=
  match Expr.targetFaults? es with
  | some error => throw error
  | none => return ()

/-- The operator of an assignment that has one. -/
def augmented? : Token.Kind → Option BinaryOp
  | .symbol .addAssign => some .add
  | .symbol .subAssign => some .sub
  | .symbol .mulAssign => some .mul
  | .symbol .divAssign => some .div
  | .symbol .floorDivAssign => some .floorDiv
  | .symbol .modAssign => some .mod
  | _ => none

/-- Reads what follows the first target of an assignment: further targets, and the value at
last. -/
def assigned : Nat → Parse (List Expr × Expr)
  | 0 => do failAt (← here) .tooDeep
  | n + 1 => do
    advance
    let e ← exprs
    if ← sees (.symbol .assign) then
      let (targets, value) ← assigned n
      return (e :: targets, value)
    else return ([], e)

/-- Reads an expression or an assignment that starts at `start`. -/
def exprStmt (start : Nat) : Parse Stmt := do
  let first ← exprs
  if ← sees (.symbol .assign) then
    let (targets, value) ← assigned (← rounds)
    checkTargets (first :: targets)
    return .assign (← spanFrom start) (first :: targets) value
  else
    match augmented? (← kind) with
    | some op =>
      advance
      if !first.isAugmentedTarget then failAt first.span .notAugmentedTarget
      let right ← expr
      return .assign (← spanFrom start) [first]
        (.binary (first.span.cover right.span) op first right)
    | none => return .expr (← spanFrom start) first

/-- Reads a simple statement. -/
def simple : Parse Stmt := do
  let c ← get
  let start := c.token.span.start
  match c.kind with
  | .keyword .pass_ =>
    advance
    return .pass (← spanFrom start)
  | .keyword .break_ =>
    advance
    return .brk (← spanFrom start)
  | .keyword .continue_ =>
    advance
    return .cont (← spanFrom start)
  | .keyword .return_ =>
    advance
    let c ← get
    if c.sees .newline || c.sees (.symbol .semicolon) then return .ret (← spanFrom start) none
    else
      let e ← exprs
      return .ret (← spanFrom start) (some e)
  | .reserved word => failAt c.token.span (.reservedWord word)
  | _ => exprStmt start

/-- Reads the simple statements behind the first one of a line. -/
def moreSimple : Nat → Parse (List Stmt)
  | 0 => return []
  | n + 1 => do
    if ← accept (.symbol .semicolon) then
      if ← sees .newline then return []
      let s ← simple
      return s :: (← moreSimple n)
    else return []

/-- Reads a line of simple statements. -/
def simpleLine : Parse (List Stmt) := do
  let s ← simple
  let ss ← moreSimple (← rounds)
  expect .newline
  return s :: ss

/-- Reads the targets behind the first one of a loop. -/
def moreTargets : Nat → Parse (List Expr)
  | 0 => return []
  | n + 1 => do
    if ← accept (.symbol .comma) then
      if ← sees (.keyword .in_) then return []
      let e ← exprAbove Connective.aboveCompare
      return e :: (← moreTargets n)
    else return []

/-- Reads the target of a loop. -/
def loopTarget : Parse Expr := do
  let start := (← here).start
  let first ← exprAbove Connective.aboveCompare
  if ← sees (.symbol .comma) then
    let items ← moreTargets (← rounds)
    return .tuple (← spanFrom start) (first :: items)
  else return first

/-- Reads one parameter; the parameters in front of it are `before`. -/
def param (before : List (Param Expr)) : Parse (Param Expr) := do
  let span ← here
  if before.any Param.isStarStar then failAt span .afterStarStar
  let p ← do
    if ← accept (.symbol .power) then pure ⟨← name, .starStar⟩
    else if ← accept (.symbol .star) then
      if before.any Param.isStar then failAt span .secondStar
      pure ⟨← name, .star⟩
    else
      if before.any Param.isStar then failAt span .afterStar
      let x ← name
      if ← accept (.symbol .assign) then pure ⟨x, .plain (some (← expr))⟩
      else
        if before.any (·.default?.isSome) then failAt span .afterDefault
        pure ⟨x, .plain none⟩
  if before.any (·.name == p.name) then failAt span (.duplicateParam p.name)
  return p

/-- Reads the parameters behind those in `before`. -/
def params : Nat → List (Param Expr) → Parse (List (Param Expr))
  | 0, before => return before
  | n + 1, before => do
    if ← sees (.symbol .closeParen) then return before
    let p ← param before
    if ← accept (.symbol .comma) then params n (before ++ [p])
    else return before ++ [p]

/-- Reads the decorators of a function. -/
def decorators : Nat → Parse (List Expr)
  | 0 => return []
  | n + 1 => do
    if ← accept (.symbol .atSign) then
      let e ← expr
      expect .newline
      modify Cursor.skipNewlines
      return e :: (← decorators n)
    else return []

section

variable (sub : Parse (List Stmt))

/-- Reads the statements of an indented block. -/
def blockBody : Nat → Parse (List Stmt)
  | 0 => return []
  | n + 1 => do
    let c ← get
    if c.sees .dedent || c.atEnd then return []
    let ss ← sub
    modify Cursor.skipNewlines
    return ss ++ (← blockBody n)

/-- Reads a block: a line of simple statements behind the colon, or indented lines below it. -/
def block : Parse (List Stmt) := do
  expect (.symbol .colon)
  if ← accept .newline then
    if ← accept .indent then
      let body ← blockBody sub (← rounds)
      expect .dedent
      return body
    else missing .block
  else simpleLine

/-- Reads a choice, from the word that it starts with. -/
def choice : Nat → Parse Stmt
  | 0 => do failAt (← here) .tooDeep
  | n + 1 => do
    let start := (← here).start
    advance
    let test ← expr
    let thenBody ← block sub
    let elseBody ← do
      if ← sees (.keyword .elif_) then pure [← choice n]
      else if ← accept (.keyword .else_) then block sub
      else pure []
    return .cond (← blockSpanFrom start) test thenBody elseBody

/-- Reads a loop with a test. -/
def whileLoop : Parse Stmt := do
  let start := (← here).start
  expect (.keyword .while_)
  let test ← expr
  let body ← block sub
  return .loop (← blockSpanFrom start) test body

/-- Reads a loop over items. -/
def forLoop : Parse Stmt := do
  let start := (← here).start
  expect (.keyword .for_)
  let target ← loopTarget
  checkTarget target
  expect (.keyword .in_)
  let iter ← exprs
  let body ← block sub
  let elseBody ← if ← accept (.keyword .else_) then block sub else pure []
  return .each (← blockSpanFrom start) target iter body elseBody

/-- Reads the definition of a function. -/
def definition : Parse Stmt := do
  let start := (← here).start
  let ds ← decorators (← rounds)
  if !(← sees (.keyword .def_)) then missing .definition
  advance
  let x ← name
  expect (.symbol .openParen)
  let ps ← params (← rounds) []
  expect (.symbol .closeParen)
  let body ← block sub
  return .define (← blockSpanFrom start) x ds ps body

/-- Reads the definition of a class. -/
def classDefinition : Parse Stmt := do
  let start := (← here).start
  expect (.keyword .class_)
  let x ← name
  let base ← do
    if ← accept (.symbol .openParen) then
      let base ← if ← sees (.symbol .closeParen) then pure none else some <$> expr
      expect (.symbol .closeParen)
      pure base
    else pure none
  let body ← block sub
  return .class_ (← blockSpanFrom start) x base body

end

/-- Reads a statement with a block, or a line of simple statements; `depth` bounds how deeply it
nests. -/
def stmtWithin : Nat → Parse (List Stmt)
  | 0 => do failAt (← here) .tooDeep
  | depth + 1 => do
    let sub := stmtWithin depth
    let c ← get
    match c.kind with
    | .keyword .if_ => return [← choice sub (← rounds)]
    | .keyword .while_ => return [← whileLoop sub]
    | .keyword .for_ => return [← forLoop sub]
    | .keyword .def_ => return [← definition sub]
    | .symbol .atSign => return [← definition sub]
    | .keyword .class_ => return [← classDefinition sub]
    | .indent => failAt c.token.span .unexpectedIndent
    | _ => simpleLine

/-- Reads a statement with a block, or a line of simple statements. -/
def stmt : Parse (List Stmt) := do stmtWithin (← rounds)

end StagedScript.Parse

namespace StagedScript

/-- The statements of a text, and what is wrong with it. -/
structure Parsed where
  /-- The statements that could be read. -/
  body : List Stmt
  /-- The errors, in the order of the text. -/
  errors : List SyntaxError

namespace Parsed

/-- How many syntax errors are collected before the rest of the text is given up. -/
def errorLimit : Nat := 20

/-- Reads the statements from a cursor on, with room for so many errors.  Every round reads a
token. -/
def ofCursor : Nat → Nat → Cursor → Parsed
  | 0, _, _ => ⟨[], []⟩
  | n + 1, room, c =>
    if c.atEnd then ⟨[], []⟩
    else
      match Parse.stmt.run c with
      | .ok ss c =>
        let r := ofCursor n room c.skipNewlines
        ⟨ss ++ r.body, r.errors⟩
      | .error e c =>
        if room ≤ 1 then ⟨[], [e]⟩
        else
          let r := ofCursor n (room - 1) c.synchronize.skipNewlines
          ⟨r.body, e :: r.errors⟩

/-- Reads a sequence of tokens as statements.  Behind an error it goes on with the next
statement. -/
def ofTokens (tokens : List Token) : Parsed :=
  let c := (Cursor.ofTokens tokens).skipNewlines
  ofCursor (c.bound + 1) errorLimit c

end Parsed

end StagedScript
