import StagedScript.Run.Record

/-!
# Attributes

What stands behind the dot: methods, the fields of records, and what records, their types and
functions say about themselves.
-/

namespace StagedScript.Run

/-- Fails because a value has no attribute of a name. -/
def noAttribute {α : Type} (v : Value) (name : String) : Run α :=
  do fail (.attr (← typeName v) name)

/-- A text, or `None` where there is none. -/
def newDoc : Option String → Run Value
  | some text => newStr text
  | none => return .none_

/-- The names of a type's fields. -/
def newFields (t : RecordType) : Run Value := do newTuple (← newStrs t.fields)

/-- An attribute of a record that is no method. -/
def recordAttr (r : RecordRef) (name : String) : Run Value := do
  let t ← view (·.typeOf r)
  match ← view (field? · r name) with
  | some v => return v
  | none =>
    match name with
    | "_fields" => newFields t
    | "__class__" => return .recordType (← view (·.getRecord r)).type
    | "__doc__" => newDoc t.doc?
    | name =>
      match t.attrs.get? name with
      | some v => return v
      | none => noAttribute (.record r) name

/-- An attribute of a record type that is no method. -/
def recordTypeAttr (r : RecordTypeRef) (name : String) : Run Value := do
  let t ← view (·.getRecordType r)
  match name with
  | "__name__" => newStr t.name
  | "__doc__" => newDoc t.doc?
  | "_fields" => newFields t
  | "_source" =>
    match t.source? with
    | some text => newStr text
    | none => noAttribute (.recordType r) name
  | name =>
    match ((t.accessors.get? name).map Value.slot).or (t.attrs.get? name) with
    | some v => return v
    | none => noAttribute (.recordType r) name

/-- An attribute of a function. -/
def functionAttr (r : FunctionRef) (name : String) : Run Value := do
  match name, ← view (·.getFunction? r) with
  | "__name__", some f => newStr f.name
  | "__doc__", some f => newDoc f.doc?
  | name, _ => noAttribute (.function r) name

/-- The attribute of a value that goes by a name. -/
def getAttr (v : Value) (name : String) : Run Value :=
  match v.method? name with
  | some m => newMethod m
  | none =>
    match v with
    | .record r => recordAttr r name
    | .recordType r => recordTypeAttr r name
    | .function r => functionAttr r name
    | v => noAttribute v name

/-- Whether a computation failed because of an attribute that is not there. -/
def lacksAttribute : Stop → Bool
  | .error ⟨none, .attr _ _⟩ => true
  | _ => false

/-- The attribute of a value that goes by a name, or another value if there is none. -/
def getAttrOr (v : Value) (name : String) (other : Value) : Run Value := fun s =>
  match getAttr v name s with
  | .error e s => if lacksAttribute e then .ok other s else .error e s
  | r => r

/-- Gives an attribute a new value; only the fields of records can be given one. -/
def setAttr (target : Value) (name : String) (v : Value) : Run Unit :=
  match target with
  | .record r => setField r name v
  | target => noAttribute target name

end StagedScript.Run
