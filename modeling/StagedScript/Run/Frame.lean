import StagedScript.Run.Basic

/-!
# Frames

A frame is what a body is executed in: the namespaces that it reads and writes, and the text that it
was read from.
-/

namespace StagedScript

/-- The surroundings of a body that is executed. -/
structure Frame where
  /-- Where names are bound. -/
  locals : NamespaceRef
  /-- Where names are looked up that are neither bound here nor captured. -/
  globals : NamespaceRef
  /-- What the function around the body has captured, if there is one. -/
  captured? : Option (Table Value)
  /-- The text of the body. -/
  source : Source
  /-- What is added to the lines that are reported for the body. -/
  lineOffset : Int

namespace Frame

/-- Where a span of the body is. -/
def location (f : Frame) (span : Span) : Location := .ofSpan f.source f.lineOffset span

/-- Where a definition of the body was read. -/
def origin (f : Frame) (span : Span) : Origin := ⟨f.source, f.lineOffset, span⟩

/-- The value of a name: among the names bound here, those that the function around has captured,
the globals and the builtins, in this order. -/
def find? (f : Frame) (s : Store) (name : String) : Option Value :=
  (s.bindings f.locals).get? name
    <|> f.captured?.bind (·.get? name)
    <|> (s.bindings f.globals).get? name
    <|> (Builtin.visible? name).map .builtin

/-- The values that a function defined here captures: those that its free names have in the
function around it.  Outside of functions nothing is captured. -/
def capture (f : Frame) (s : Store) (names : List String) : Table Value :=
  match f.captured? with
  | none => .empty
  | some outer =>
    .ofList (names.filterMap fun name =>
      ((s.bindings f.locals).get? name <|> outer.get? name).map (name, ·))

/-- The frame of a class body that stands in this one. -/
def inside (f : Frame) (locals : NamespaceRef) : Frame := { f with locals }

end Frame

namespace Run

/-- Looks up a name. -/
def lookup (f : Frame) (name : String) : Run Value := do
  match ← view (f.find? · name) with
  | some v => return v
  | none => fail (.undefined name)

/-- Binds a name in a frame. -/
def bind (f : Frame) (name : String) (v : Value) : Run Unit := modify (·.bind f.locals name v)

end Run

end StagedScript
