import StagedScript.Fault.Basic
import StagedScript.Shape.Text

/-!
# Record types

A record type is made from the body of a class, and says how records are made from arguments and
changed.  The slots of a record are found by the names of the fields, and by the attributes that
stand for slots.
-/

namespace StagedScript.RecordType

/-- The names in the body of a class that say what its records are like. -/
def reserved : List String := ["_fields", "_arity", "_repr_fmt", "_mapping"]

/-- The names of the fields, from the value that the body gives for them. -/
def fieldNames? : Value → Option (List String)
  | .tuple _ items => items.mapM Value.str?
  | _ => none

/-- The template that shows every field by its name. -/
def plainFormat (fields : List String) : String :=
  "(" ++ ", ".intercalate (fields.map (· ++ "=%r")) ++ ")"

/-- The slot that a value of a class body is an accessor of. -/
def accessed? : Value → Option Nat
  | .slot i => some i
  | _ => none

/-- A value of a class body that is no accessor. -/
def plain? : Value → Option Value
  | .slot _ => none
  | v => some v

section Class

variable (s : Store) (name : String) (body : Table Value)

/-- The names of the fields that a class body gives. -/
def readFields : Except Fault (List String) :=
  match body.get? "_fields" with
  | none => .error (.typing (.noFields name))
  | some v =>
    match fieldNames? v with
    | none => .error (.typing (.fieldsNotTexts name))
    | some fields => .ok fields

/-- Checks the number of fields, where a class body gives it. -/
def checkArity (fields : Nat) : Except Fault Unit :=
  match body.get? "_arity" with
  | none => .ok ()
  | some v =>
    if v.int?.map Int64.toInt = some (fields : Int) then .ok ()
    else .error (.domain (.arityMismatch name (s.repr v) fields))

/-- Checks the type of the mapping that records turn into, where a class body gives it. -/
def checkMapping : Except Fault Unit :=
  match body.get? "_mapping" with
  | none | some (.builtin .dict) | some (.builtin .orderedDict) => .ok ()
  | some v => .error (.typing (.mappingNotDict name (s.repr v)))

/-- The template of a record's text. -/
def readFormat (fields : List String) : Except Fault String :=
  match body.get? "_repr_fmt" with
  | none => .ok (plainFormat fields)
  | some (.str _ text) => .ok text
  | some v => .error (.typing (.formatNotText name (s.typeName v)))

/-- Checks that the accessors of a class body stay within the fields. -/
def checkAccessors (accessors : Table Nat) (fields : Nat) : Except Fault Unit :=
  match accessors.entries.find? fun (_, i) => fields ≤ i with
  | none => .ok ()
  | some (key, i) => .error (.domain (.slotOutOfRange name key i fields))

/-- The record type that an executed class body describes. -/
def ofClass (doc? : Option String) : Except Fault RecordType := do
  let fields ← readFields name body
  checkArity s name body fields.length
  checkMapping s name body
  let format ← readFormat s name body fields
  let own := body.filter fun key _ => !reserved.contains key
  let accessors := own.filterMap accessed?
  checkAccessors name accessors fields.length
  return ⟨name, fields, accessors, format, doc?, own.filterMap plain?, none⟩

end Class

variable (t : RecordType)

/-- The arity fault of a wrong number of values. -/
def arityFault (got : Nat) : Fault := .arity t.name t.arity got

/-- Puts arguments by name into their slots, the first `filled` of which are for the arguments by
place.  No slot is filled twice. -/
def place (filled : Nat) (slots : List (Option Value)) :
    List (String × Value) → Except Fault (List (Option Value))
  | [] => .ok slots
  | (key, v) :: es =>
    match t.fieldIndex? key with
    | none => .error (.typing (.unknownKeyword t.name key))
    | some i =>
      if i < filled || (slots.getD i none).isSome then .error (.typing (.manyValues t.name key))
      else place filled (slots.set i (some v)) es

/-- Slots with new values for fields. -/
def fill (slots : List Value) (values : List (String × Value)) : List Value :=
  values.foldl (fun slots (key, v) =>
    match t.fieldIndex? key with
    | none => slots
    | some i => slots.set i v) slots

/-- What slots hold.  An empty one would hold `None`. -/
def held (slots : List (Option Value)) : List Value := slots.map fun slot => slot.getD .none_

/-- The slots of a record that is made from arguments. -/
def slotsOf (args : List Value) (named : Table Value) : Except Fault (List Value) :=
  let got := args.length + named.size
  if got = t.arity then do
    let slots := args.map some ++ List.replicate named.size none
    return held (← t.place args.length slots named.entries)
  else .error (t.arityFault got)

/-- The slots of a record that is made from the values of all its fields. -/
def slotsOfValues (values : List Value) : Except Fault (List Value) :=
  if values.length = t.arity then .ok values else .error (t.arityFault values.length)

/-- The slots of a record with new values for fields.  If one of the names is no field, nothing is
changed. -/
def replaced (slots : List Value) (updates : Table Value) : Except Fault (List Value) :=
  match updates.keys.filter fun key => (t.fieldIndex? key).isNone with
  | [] => .ok (t.fill slots updates.entries)
  | unknown => .error (.domain (.unknownFields unknown))

/-- The slots of a record by the names of their fields. -/
def named (slots : List Value) : Table Value := .ofList (t.fields.zip slots)

end StagedScript.RecordType
