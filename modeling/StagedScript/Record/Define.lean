import StagedScript.Emit.Code
import StagedScript.Record.Fields

/-!
# Defining record types

A record type with given fields is made by writing the text of its class, and executing it where the
builtins for record classes are bound.
-/

namespace StagedScript

/-- Why a record type could not be defined, or a record not be made. -/
inductive RecordError where
  /-- The names are not fit for it. -/
  | naming (what : NamingFault)
  /-- The text of the class does not define the type. -/
  | noType (name : String)
  /-- The arguments do not fit the fields. -/
  | construction (cause : Fault)
  /-- A line could not be written. -/
  | emit (e : EmitError)
  /-- The text that was written could not be executed. -/
  | code (e : CodeError)

namespace CodeError

/-- The message of an error; a program that was given too little fuel or brought the process down
has none. -/
def message : CodeError → String
  | compile e => e.message
  | run (.error e) => e.message
  | run .outOfFuel | run (.aborted _) => ""

end CodeError

namespace RecordError

/-- The message of an error. -/
def message : RecordError → String
  | naming what => what.message
  | noType name => s!"generated source did not define '{name}'"
  | construction cause => cause.message
  | emit e => e.message
  | code e => e.message

end RecordError

/-- How a record type is defined. -/
structure DefineOptions where
  /-- Whether the text of the class is printed. -/
  verbose : Bool
  /-- Whether names of fields are replaced that are not fit for it. -/
  rename : Bool
  /-- Whether the type keeps the text of its class. -/
  keepSource : Bool
deriving DecidableEq, Repr

namespace RecordType

/-- The template of the text of a class, its fields aside. -/
def classTemplate : String :=
  "\n".intercalate
    ["",
      "class \x7btypename\x7d(_slots):",
      "    '\x7btypename\x7d(\x7barg_list\x7d)'",
      "    _fields = \x7bfield_names\x7d",
      "    _arity = \x7bnum_fields\x7d",
      "    _repr_fmt = '(\x7brepr_fmt\x7d)'",
      "    _mapping = OrderedDict",
      ""]

/-- The template of the line for a field. -/
def fieldTemplate : String := "\x7bname\x7d = _slot(\x7bindex\x7d)"

/-- The names in the template of a class. -/
def classBindings (name : String) (fields : List String) : Bindings :=
  .ofList [("typename", name), ("arg_list", ", ".intercalate fields),
    ("field_names", Shape.tupleText (fields.map strLiteral)),
    ("num_fields", toString fields.length),
    ("repr_fmt", ", ".intercalate (fields.map (· ++ "=%r")))]

/-- The names in the template of a field. -/
def fieldBindings (name : String) (index : Nat) : Bindings :=
  .ofList [("name", name), ("index", toString index)]

/-- Writes the text of a class. -/
def write (name : String) (fields : List String) : Emit Unit Unit := do
  Emit.block (classBindings name fields) classTemplate
  if !fields.isEmpty then
    Emit.deeper (fields.zipIdx.forM fun (x, i) => Emit.line (fieldBindings x i) fieldTemplate)

/-- The text of a class. -/
def render (name : String) (fields : List String) : Except EmitError String :=
  match write name fields ⟨.empty .standard, ()⟩ with
  | .ok _ e => .ok e.buffer.text
  | .error e _ => .error e

/-- The label of the text of a class. -/
def label (name : String) : String := "<record " ++ name ++ ">"

/-- Gives a type the text that it was made from.  The first one that it is given counts. -/
def keep (source : String) (t : RecordType) : RecordType :=
  { t with source? := t.source?.or (some source) }

end RecordType

/-- A computation that defines record types and makes records. -/
abbrev Define := EStateM RecordError Store

namespace Define

/-- A change of the store that cannot fail. -/
def make {α : Type} (f : Store → α × Store) : Define α := modifyGet f

/-- The bindings that the text of a class needs. -/
def ambient : Table Value := .ofList (Builtin.ambient.map fun b => (b.name, .builtin b))

/-- Executes generated code. -/
def execute (host : Host) (fuel : Nat) (text label : String) (globals : NamespaceRef) :
    Define Unit := fun s =>
  match Generate.execute host fuel text label globals s with
  | .ok _ s => .ok () s
  | .error e s => .error (.code e) s

/-- Defines a record type. -/
def define (host : Host) (fuel : Nat) (options : DefineOptions) (name : String)
    (names : List String) : Define RecordTypeRef := do
  let fields := if options.rename then Fields.rename names else names
  match Fields.fault? name fields options.rename with
  | some what => throw (.naming what)
  | none => pure ()
  match RecordType.render name fields with
  | .error e => throw (.emit e)
  | .ok source =>
    let globals ← make (·.newNamespace ambient)
    execute host fuel source (RecordType.label name) globals
    match ((← get).bindings globals).get? name with
    | some (.recordType r) =>
      if options.verbose then modify (·.write .stdout (source ++ "\n"))
      if options.keepSource then modify (·.modifyRecordType r (.keep source))
      return r
    | _ => throw (.noType name)

/-- An error of making a record: arguments that do not fit are the caller's mistake. -/
def ofStop : Stop → RecordError
  | .error ⟨_, .arity f n k⟩ => .construction (.arity f n k)
  | .error ⟨_, .typing what⟩ => .construction (.typing what)
  | .error ⟨_, cause⟩ => .code (.run (.error ⟨none, cause⟩))
  | .outOfFuel => .code (.run .outOfFuel)
  | .aborted why => .code (.run (.aborted why))

/-- A computation that makes a record. -/
def constructing {α : Type} (x : Run α) : Define α := fun s =>
  match x s with
  | .ok a s => .ok a s
  | .error stop s => .error (ofStop stop) s

end Define

end StagedScript
