import StagedScript.Json.Basic
import StagedScript.Run.Record
import StagedScript.Text.Printable
import StagedScript.Width

/-!
# Values as JSON

Plain data turns into JSON: sequences and records into arrays, dicts into objects.  Back from JSON
every array is a tuple, for JSON does not tell sequences apart; to read a record its type has to be
given.
-/

namespace StagedScript

/-- Why a value could not be turned into JSON, or JSON not into a value. -/
inductive JsonError where
  /-- A value of a type that is no plain data. -/
  | notData (type : String)
  /-- An integer that does not fit in 64 bits. -/
  | tooLarge (n : Int)
  /-- What is to be a record is no array. -/
  | notArray (j : Json)
  /-- An array does not have as many items as a record has fields. -/
  | construction (cause : Fault)

namespace Json

/-- What a JSON value is, in words. -/
def description : Json → String
  | null => "null"
  | bool b => "boolean `" ++ (if b then "true" else "false") ++ "`"
  | int n => "integer `" ++ toString n ++ "`"
  | float x => "floating point `" ++ floatText x ++ "`"
  | str s => "string " ++ Text.quoted s
  | arr _ => "sequence"
  | obj _ => "map"

end Json

/-- The message of an error. -/
def JsonError.message : JsonError → String
  | notData type => s!"cannot serialize a value of type '{type}'"
  | tooLarge n => s!"integer {n} does not fit in 64 signed bits"
  | notArray j => "invalid type: " ++ j.description ++ ", expected a sequence"
  | construction cause => cause.message

mutual

/-- A value as JSON. -/
def Shape.toJson : Shape → Except JsonError Json
  | .none_ => .ok .null
  | .bool b => .ok (.bool b)
  | .int n => .ok (.int n.toInt)
  | .float x => .ok (.float x)
  | .str text => .ok (.str text)
  | .tuple items => .arr <$> (items ()).toJson
  | .list _ items => .arr <$> (items ()).toJson
  | .dict _ entries => .obj <$> (entries ()).toJson
  | .range r => .ok (.arr (r.items.map fun n => .int n.toInt))
  | .record _ _ _ items => .arr <$> (items ()).toJson
  | v => .error (.notData v.typeName)

/-- Several values as JSON. -/
def Shapes.toJson : Shapes → Except JsonError (List Json)
  | .nil => .ok []
  | .cons v vs => do
    let j ← v.toJson
    return j :: (← vs.toJson)

/-- The entries of a dict as the fields of an object. -/
def NamedShapes.toJson : NamedShapes → Except JsonError (List (String × Json))
  | .nil => .ok []
  | .cons k v es => do
    let j ← v.toJson
    return (k, j) :: (← es.toJson)

end

/-- A value as JSON. -/
def Store.toJson (s : Store) (v : Value) : Except JsonError Json := (s.shape v).toJson

/-- A computation that makes values from JSON. -/
abbrev ReadJson := EStateM JsonError Store

namespace ReadJson

/-- Makes something in the store. -/
def make {α : Type} (f : Store → α × Store) : ReadJson α := modifyGet f

mutual

/-- The value that JSON stands for. -/
def value : Json → ReadJson Value
  | .null => return .none_
  | .bool b => return .bool b
  | .int n =>
    if fits n then return .int (Int64.ofInt n) else throw (.tooLarge n)
  | .float x => return .float (.ofFloat x)
  | .str s => do return .str (← make Store.newIdentity) s
  | .arr items => do
    let vs ← values items
    return .tuple (← make Store.newIdentity) vs
  | .obj fields => do
    let es ← entries fields
    return .dict (← make (·.newDict (.ofList es)))

/-- The values that the items of an array stand for. -/
def values : List Json → ReadJson (List Value)
  | [] => return []
  | j :: js => do
    let v ← value j
    return v :: (← values js)

/-- The entries that the fields of an object stand for. -/
def entries : List (String × Json) → ReadJson (List (String × Value))
  | [] => return []
  | (k, j) :: fs => do
    let v ← value j
    return (k, v) :: (← entries fs)

end

/-- The record of a type that an array stands for. -/
def record (type : RecordTypeRef) (j : Json) : ReadJson Value := do
  match j with
  | .arr items =>
    let vs ← values items
    match ((← get).getRecordType type).slotsOfValues vs with
    | .ok slots => return .record (← make (·.newRecord ⟨type, slots⟩))
    | .error cause => throw (.construction cause)
  | j => throw (.notArray j)

end ReadJson

end StagedScript
