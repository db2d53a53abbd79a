import StagedScript.Source.Basic
import StagedScript.Table
import StagedScript.Tree.Stmt
import StagedScript.Value.Basic

/-!
# The store

The store holds what values refer to, and what the program has written.  Nothing is ever removed
from it, so a reference stays good.
-/

namespace StagedScript

/-- Where a definition was read. -/
structure Origin where
  /-- The text. -/
  source : Source
  /-- What is added to the lines that are reported for it. -/
  lineOffset : Int
  /-- The definition's part of the text. -/
  span : Span

/-- A function of the language. -/
structure Function where
  /-- Its name. -/
  name : String
  /-- Its definition. -/
  definition : Definition
  /-- Its parameters, with the values of their defaults. -/
  params : List (Param Value)
  /-- Where it looks up the names that it neither binds nor has captured. -/
  globals : NamespaceRef
  /-- The values of names around the definition, from when it was executed. -/
  captured : Table Value
  /-- Where the definition was read. -/
  origin : Origin

namespace Function

/-- The reported line of the definition, its decorators included. -/
def firstLine (f : Function) : Int :=
  (Location.ofSpan f.origin.source f.origin.lineOffset f.origin.span).line

/-- The text of the definition, its decorators and the indentation of its first line included. -/
def sourceText (f : Function) : String := f.origin.source.linesOf f.origin.span

/-- The text that the body starts with. -/
def doc? (f : Function) : Option String := docstring? f.definition.body

end Function

/-- A type of records. -/
structure RecordType where
  /-- Its name. -/
  name : String
  /-- The names of the fields, one for every slot. -/
  fields : List String
  /-- The slots that attributes stand for. -/
  accessors : Table Nat
  /-- The template of a record's text. -/
  format : String
  /-- What the type is for. -/
  doc? : Option String
  /-- The other attributes of the class. -/
  attrs : Table Value
  /-- The text that the type was made from, when it was kept. -/
  source? : Option String
deriving Inhabited

namespace RecordType

/-- How many slots a record of the type has. -/
def arity (t : RecordType) : Nat := t.fields.length

/-- The first slot with a field name. -/
def fieldIndex? (t : RecordType) (name : String) : Option Nat := t.fields.findIdx? (· == name)

end RecordType

/-- A record: its type and what its slots hold. -/
structure Record where
  /-- The type. -/
  type : RecordTypeRef
  /-- What the slots hold. -/
  slots : List Value
deriving Inhabited

/-- Where written text goes. -/
inductive Sink where
  /-- Into the text that the host reads. -/
  | captured
  /-- To the standard output. -/
  | stdout
deriving DecidableEq, Repr, Inhabited

/-- What values refer to, and what was written. -/
structure Store where
  /-- The items of the lists. -/
  lists : Array (Array Value)
  /-- The entries of the dicts. -/
  dicts : Array (Table Value)
  /-- The records. -/
  records : Array Record
  /-- The functions. -/
  functions : Array Function
  /-- The record types. -/
  recordTypes : Array RecordType
  /-- The bindings of the namespaces. -/
  namespaces : Array (Table Value)
  /-- The identity of the next value that carries one. -/
  nextIdentity : Nat
  /-- The text that was written for the host to read. -/
  captured : String
  /-- The text that was written to the standard output. -/
  stdout : String
deriving Inhabited

namespace Store

/-- The store in which nothing has been made. -/
def empty : Store := ⟨#[], #[], #[], #[], #[], #[], 0, "", ""⟩

section Read

variable (s : Store)

/-- The items of a list. -/
def listItems (r : ListRef) : Array Value := s.lists[r.index]?.getD #[]

/-- The entries of a dict. -/
def dictEntries (r : DictRef) : Table Value := s.dicts[r.index]?.getD .empty

/-- A record. -/
def getRecord (r : RecordRef) : Record := s.records[r.index]?.getD default

/-- A function. -/
def getFunction? (r : FunctionRef) : Option Function := s.functions[r.index]?

/-- A record type. -/
def getRecordType (r : RecordTypeRef) : RecordType := s.recordTypes[r.index]?.getD default

/-- The type of a record. -/
def typeOf (r : RecordRef) : RecordType := s.getRecordType (s.getRecord r).type

/-- The bindings of a namespace. -/
def bindings (r : NamespaceRef) : Table Value := s.namespaces[r.index]?.getD .empty

/-- How many containers there are. -/
def containers : Nat := s.lists.size + s.dicts.size + s.records.size

end Read

section Make

variable (s : Store)

/-- Makes a list. -/
def newList (items : Array Value) : ListRef × Store :=
  (⟨s.lists.size⟩, { s with lists := s.lists.push items })

/-- Makes a dict. -/
def newDict (entries : Table Value) : DictRef × Store :=
  (⟨s.dicts.size⟩, { s with dicts := s.dicts.push entries })

/-- Makes a record. -/
def newRecord (record : Record) : RecordRef × Store :=
  (⟨s.records.size⟩, { s with records := s.records.push record })

/-- Makes a function. -/
def newFunction (f : Function) : FunctionRef × Store :=
  (⟨s.functions.size⟩, { s with functions := s.functions.push f })

/-- Makes a record type. -/
def newRecordType (t : RecordType) : RecordTypeRef × Store :=
  (⟨s.recordTypes.size⟩, { s with recordTypes := s.recordTypes.push t })

/-- Makes a namespace. -/
def newNamespace (bindings : Table Value) : NamespaceRef × Store :=
  (⟨s.namespaces.size⟩, { s with namespaces := s.namespaces.push bindings })

/-- Takes an identity that no value has. -/
def newIdentity : Nat × Store := (s.nextIdentity, { s with nextIdentity := s.nextIdentity + 1 })

end Make

section Write

variable (s : Store)

/-- Changes the items of a list. -/
def modifyList (r : ListRef) (f : Array Value → Array Value) : Store :=
  { s with lists := s.lists.modify r.index f }

/-- Changes the entries of a dict. -/
def modifyDict (r : DictRef) (f : Table Value → Table Value) : Store :=
  { s with dicts := s.dicts.modify r.index f }

/-- Changes what the slots of a record hold. -/
def modifySlots (r : RecordRef) (f : List Value → List Value) : Store :=
  { s with records := s.records.modify r.index fun x => { x with slots := f x.slots } }

/-- Changes a record type. -/
def modifyRecordType (r : RecordTypeRef) (f : RecordType → RecordType) : Store :=
  { s with recordTypes := s.recordTypes.modify r.index f }

/-- Changes the bindings of a namespace. -/
def modifyBindings (r : NamespaceRef) (f : Table Value → Table Value) : Store :=
  { s with namespaces := s.namespaces.modify r.index f }

/-- Binds a name in a namespace. -/
def bind (r : NamespaceRef) (name : String) (v : Value) : Store :=
  s.modifyBindings r fun t => t.insert name v

/-- Writes a text. -/
def write (sink : Sink) (text : String) : Store :=
  match sink with
  | .captured => { s with captured := s.captured ++ text }
  | .stdout => { s with stdout := s.stdout ++ text }

end Write

/-- The name of a value's type. -/
def typeName (s : Store) : Value → String
  | .none_ => "NoneType"
  | .bool _ => "bool"
  | .int _ => "int"
  | .float _ => "float"
  | .str _ _ => "str"
  | .tuple _ _ => "tuple"
  | .list _ => "list"
  | .dict _ => "dict"
  | .range _ => "range"
  | .function _ => "function"
  | .builtin _ | .native _ _ _ => "builtin_function"
  | .method _ _ => "method"
  | .slot _ => "slot"
  | .recordType _ => "type"
  | .record r => (s.typeOf r).name

/-- The name of the type of what a method is applied to. -/
def receiverType (s : Store) : Method → String
  | .list _ _ => "list"
  | .dict _ _ => "dict"
  | .text _ _ => "str"
  | .record r _ => (s.typeOf r).name
  | .recordType _ _ => "type"

/-- The items of a value that has them by position: a tuple, a list or a record. -/
def sequenceItems? (s : Store) : Value → Option (List Value)
  | .tuple _ items => some items
  | .list r => some (s.listItems r).toList
  | .record r => some (s.getRecord r).slots
  | _ => none

/-- How many items a value has. -/
def size? (s : Store) : Value → Option Nat
  | .str _ text => some text.length
  | .tuple _ items => some items.length
  | .list r => some (s.listItems r).size
  | .dict r => some (s.dictEntries r).size
  | .range r => some r.size
  | .record r => some (s.typeOf r).arity
  | _ => none

/-- Whether a value counts as true: it is not `None`, zero or without items. -/
def isTruthy (s : Store) : Value → Bool
  | .none_ => false
  | .bool b => b
  | .int n => n != 0
  | .float x => x.toFloat != 0
  | v =>
    match s.size? v with
    | some n => n != 0
    | none => true

end Store

end StagedScript
