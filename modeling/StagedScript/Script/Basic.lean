import StagedScript.Source.Basic
import StagedScript.Syntax.Stmt
import StagedScript.Token.Layout
import StagedScript.Tree.Stmt

/-!
# Scripts and programs

A script is the tree of a text together with the text.  A program is a script whose control
statements stand where they may, so that it can be executed.
-/

/-!
## Where control statements may stand

A `return` stands in a function, a `break` and a `continue` in the body of a loop of the same
function or class.
-/

namespace StagedScript

/-- A control statement that stands where it may not. -/
inductive Misplaced where
  | ret | brk | cont
deriving DecidableEq, Repr

/-- How a misplaced statement is reported. -/
def Misplaced.message : Misplaced → String
  | ret => "'return' outside function"
  | brk => "'break' outside loop"
  | cont => "'continue' not properly in loop"

/-- What surrounds a statement. -/
structure Surroundings where
  /-- Whether it is part of a function. -/
  inFunction : Bool
  /-- Whether it is part of a loop's body. -/
  inLoop : Bool
deriving DecidableEq, Repr

namespace Surroundings

/-- Neither function nor loop: a module or the body of a class. -/
def top : Surroundings := ⟨false, false⟩

/-- The body of a function. -/
def function : Surroundings := ⟨true, false⟩

/-- The body of a loop. -/
def loop (c : Surroundings) : Surroundings := { c with inLoop := true }

end Surroundings

namespace Stmt

mutual

/-- The first control statement within a statement that stands where it may not. -/
def misplaced? (c : Surroundings) : Stmt → Option (Span × Misplaced)
  | ret s _ => if c.inFunction then none else some (s, .ret)
  | brk s => if c.inLoop then none else some (s, .brk)
  | cont s => if c.inLoop then none else some (s, .cont)
  | cond _ _ a b => (misplacedIn? c a).or (misplacedIn? c b)
  | loop _ _ b => misplacedIn? c.loop b
  | each _ _ _ b e => (misplacedIn? c.loop b).or (misplacedIn? c e)
  | define _ _ _ _ b => misplacedIn? .function b
  | class_ _ _ _ b => misplacedIn? .top b
  | expr _ _ | assign _ _ _ | pass _ => none

/-- The first control statement of a body that stands where it may not. -/
def misplacedIn? (c : Surroundings) : List Stmt → Option (Span × Misplaced)
  | [] => none
  | s :: ss => (misplaced? c s).or (misplacedIn? c ss)

end

end Stmt

namespace CompileError

/-- What keeps a text from being a program. -/
inductive Cause where
  /-- It is no sequence of tokens. -/
  | lexical (cause : LexError.Cause)
  /-- It is no sequence of statements. -/
  | grammar (cause : SyntaxError.Cause)
  /-- A control statement stands where it may not. -/
  | misplaced (what : Misplaced)

/-- The message of a cause. -/
def Cause.message : Cause → String
  | lexical c => c.message
  | grammar c => c.message
  | misplaced m => m.message

/-- What may help against a cause. -/
def Cause.hint? : Cause → Option String
  | lexical c => c.hint?
  | grammar c => c.hint?
  | misplaced _ => none

end CompileError

/-- Why a text is no program: the first of its errors. -/
structure CompileError where
  /-- Where the error is. -/
  location : Location
  /-- What is wrong. -/
  cause : CompileError.Cause
  /-- How many further errors of the same kind there are. -/
  further : Nat

/-- The message of an error, behind its location. -/
def CompileError.message (e : CompileError) : String := e.location.lead ++ e.cause.message

/-- A tree and the text that its spans point into. -/
structure Script where
  /-- The statements. -/
  body : List Stmt
  /-- The text. -/
  source : Source
  /-- What is added to the lines that are reported for the tree. -/
  lineOffset : Int

namespace Script

/-- Where a span of the script is. -/
def location (s : Script) (span : Span) : Location := .ofSpan s.source s.lineOffset span

/-- Where the statements of the script start. -/
def starts (s : Script) : List Location :=
  let lines := s.source.lines
  s.body.map fun stmt => .ofLines s.source.label lines s.lineOffset stmt.span

/-- The script with the lines that are reported for it shifted. -/
def shift (s : Script) (n : Int) : Script := { s with lineOffset := s.lineOffset + n }

/-- The script with another label. -/
def relabel (s : Script) (label : String) : Script :=
  { s with source := { s.source with label } }

/-- Reads a text as a script.  If it is no sequence of tokens its statements are not looked at. -/
def parse (text label : String) : Except CompileError Script :=
  let source : Source := ⟨label, text⟩
  let lexed := Lexed.ofText source.chars
  match lexed.errors with
  | e :: es => .error ⟨.ofSpan source 0 e.span, .lexical e.cause, es.length⟩
  | [] =>
    let parsed := Parsed.ofTokens lexed.tokens
    match parsed.errors with
    | e :: es => .error ⟨.ofSpan source 0 e.span, .grammar e.cause, es.length⟩
    | [] => .ok ⟨parsed.body, source, 0⟩

/-- The first control statement of the script that stands where it may not. -/
def misplaced? (s : Script) : Option (Span × Misplaced) := Stmt.misplacedIn? .top s.body

end Script

/-- A script that can be executed. -/
structure Program extends Script where
  /-- Every control statement stands where it may. -/
  wellPlaced : toScript.misplaced? = none

namespace Program

/-- The program of a script, under a label. -/
def ofScript (s : Script) (label : String) : Except CompileError Program :=
  let s := s.relabel label
  match h : s.misplaced? with
  | none => .ok ⟨s, h⟩
  | some (span, what) => .error ⟨s.location span, .misplaced what, 0⟩

/-- The program of a text. -/
def ofText (text label : String) : Except CompileError Program := do
  ofScript (← Script.parse text label) label

end Program

end StagedScript
