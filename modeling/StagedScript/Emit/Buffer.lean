import StagedScript.Emit.Template
import StagedScript.Text.Dedent

/-!
# Lines of source text

What lines are made of, and the buffer that they are written into.
-/

/-!
## Argument lists

The text of the arguments of a call or of the parameters of a function.
-/

namespace StagedScript

/-- An entry of an argument list. -/
structure ArgText where
  /-- The name, or the expression of an argument by place. -/
  name : String
  /-- The text behind the equals sign, if there is one. -/
  default? : Option String
deriving DecidableEq, Repr

namespace ArgText

/-- The entry as it is written. -/
def text (a : ArgText) : String :=
  match a.default? with
  | none => a.name
  | some d => a.name ++ "=" ++ d

/-- A list of entries, with the entry for further arguments by place and the one for further
arguments by name at its end. -/
def list (entries : List ArgText) (star? starStar? : Option String) : String :=
  ", ".intercalate (entries.map text ++ star?.toList ++ starStar?.toList)

/-- A call. -/
def call (func : String) (entries : List ArgText) (star? starStar? : Option String) : String :=
  func ++ "(" ++ list entries star? starStar? ++ ")"

end ArgText

end StagedScript

/-!
## Writing source text

Lines are written into a buffer, at the depth of the block that they belong to.  A line is a
template for the names that are bound where it is written: a block or a scope binds names for all
that is written in it, and a single line may bind some for itself.
-/

namespace StagedScript

/-- How source text is laid out. -/
structure EmitConfig where
  /-- How many spaces a block is indented by. -/
  indentWidth : Nat
  /-- The line of a block that is given none. -/
  placeholder : String
  /-- The label under which the text is compiled. -/
  label : String
deriving DecidableEq, Repr

/-- The usual layout. -/
def EmitConfig.standard : EmitConfig := ⟨4, "pass", "<codegen>"⟩

/-- The lines that have been written. -/
structure Buffer where
  /-- The layout. -/
  config : EmitConfig
  /-- How many blocks the next line is in. -/
  depth : Nat
  /-- The lines. -/
  lines : Array String
deriving DecidableEq, Repr

namespace Buffer

/-- The buffer without lines. -/
def empty (config : EmitConfig) : Buffer := ⟨config, 0, #[]⟩

/-- A text indented by the depth. -/
def indented (b : Buffer) (text : String) : String :=
  String.ofList (List.replicate (b.depth * b.config.indentWidth) ' ') ++ text

/-- The buffer with a further line. -/
def push (b : Buffer) (text : String) : Buffer := { b with lines := b.lines.push (b.indented text) }

/-- The text of the lines. -/
def text (b : Buffer) : String := "\n".intercalate b.lines.toList

end Buffer

/-- What is written so far, and whatever else changes while it is written. -/
structure Emission (σ : Type) where
  /-- The lines. -/
  buffer : Buffer
  /-- The rest. -/
  rest : σ

namespace Emission

/-- One block deeper. -/
def enter {σ : Type} (e : Emission σ) : Emission σ :=
  { e with buffer := { e.buffer with depth := e.buffer.depth + 1 } }

/-- One block back. -/
def leave {σ : Type} (e : Emission σ) : Emission σ :=
  { e with buffer := { e.buffer with depth := e.buffer.depth - 1 } }

end Emission

/-- A computation that writes lines.  Those written before an error stay. -/
abbrev Emit (σ : Type) := EStateM EmitError (Emission σ)

/-- The template of the first line of a function. -/
def functionHeader : String := "def \x7bfuncname\x7d(\x7bparamlist\x7d):"

namespace Bindings

/-- Bindings with further ones over them. -/
def extend (outer inner : Bindings) : Bindings := outer.insertAll inner.entries

/-- A text as a template for bindings.  Without any it stands for itself. -/
def format (bindings : Bindings) (text : String) : Except EmitError String :=
  if bindings.isEmpty then .ok text else Template.substitute text bindings

end Bindings

namespace Emit

variable {σ : Type}

/-- Writes a line as it is. -/
def push (text : String) : Emit σ Unit := modify fun e => { e with buffer := e.buffer.push text }

/-- Writes a line that is a template. -/
def line (bindings : Bindings) (text : String) : Emit σ Unit :=
  match bindings.format text with
  | .ok text => push text
  | .error e => throw e

/-- Writes a line from parts with blanks between them. -/
def words (bindings : Bindings) (parts : List String) : Emit σ Unit :=
  line bindings (" ".intercalate parts)

/-- The lines of a block of text.  A line feed at its start and the margin are left out. -/
def blockOf (text : String) : List String :=
  let cs := match text.toList with
    | '\n' :: cs => cs
    | cs => cs
  (Text.dedent cs).map String.ofList

/-- Writes the lines of a block of text, each of them a template. -/
def block (bindings : Bindings) (text : String) : Emit σ Unit :=
  (blockOf text).forM (line bindings)

/-- Writes what a body writes one block deeper, or the placeholder if that is nothing.  The block is
left again however the body ends: it is up to the body that this is the block that was entered. -/
def deeper (body : Emit σ Unit) : Emit σ Unit := fun e =>
  let count := e.buffer.lines.size
  match body e.enter with
  | .ok _ e =>
    let b := e.buffer
    let b := if b.lines.size = count then b.push b.config.placeholder else b
    .ok () { e with buffer := b }.leave
  | .error err e => .error err e.leave

/-- Writes a header, if there is one, and below it what a body writes. -/
def under (bindings : Bindings) (header? : Option String) (body : Emit σ Unit) : Emit σ Unit := do
  match header? with
  | some header => line bindings header
  | none => pure ()
  deeper body

/-- The names that the header of a function stands for. -/
def functionBindings (name params : String) : Bindings :=
  .ofList [("funcname", name), ("paramlist", params)]

end Emit

end StagedScript
