import StagedScript.Record.Type
import StagedScript.Run.Basic

/-!
# Working with records

Records are made by their types, and are changed in place: every holder of a record sees a change.
-/

namespace StagedScript.Run

/-- A new record of a type. -/
def newRecord (type : RecordTypeRef) (slots : List Value) : Run RecordRef :=
  make (·.newRecord ⟨type, slots⟩)

/-- The record that a type makes from arguments. -/
def instantiate (type : RecordTypeRef) (args : Arguments) : Run RecordRef := do
  let t ← view (·.getRecordType type)
  newRecord type (← ofExcept (t.slotsOf args.positional args.named))

/-- The record that a type makes from the values of all fields. -/
def recordOf (type : RecordTypeRef) (values : List Value) : Run RecordRef := do
  let t ← view (·.getRecordType type)
  newRecord type (← ofExcept (t.slotsOfValues values))

/-- Gives a slot a new value.  An index is reported as a signed 64-bit integer. -/
def setSlot (r : RecordRef) (i : Nat) (v : Value) : Run Unit := do
  let slots := (← view (·.getRecord r)).slots
  if i < slots.length then modify (·.modifySlots r (·.set i v))
  else fail (.index (Int64.ofNat i).toInt slots.length)

/-- The value that a record has under the name of an accessor. -/
def field? (s : Store) (r : RecordRef) (name : String) : Option Value := do
  (s.getRecord r).slots[← (s.typeOf r).accessors.get? name]?

/-- Gives the slot that an accessor stands for a new value. -/
def setField (r : RecordRef) (name : String) (v : Value) : Run Unit := do
  let t ← view (·.typeOf r)
  match t.accessors.get? name with
  | some i => setSlot r i v
  | none => fail (.attr t.name name)

/-- Gives several fields of a record new values, or changes nothing. -/
def replaceFields (r : RecordRef) (updates : Table Value) : Run Unit := do
  let t ← view (·.typeOf r)
  let slots ← ofExcept (t.replaced (← view (·.getRecord r)).slots updates)
  modify (·.modifySlots r fun _ => slots)

/-- The values of a record by the names of their fields. -/
def fieldTable (r : RecordRef) : Run (Table Value) :=
  view fun s => (s.typeOf r).named (s.getRecord r).slots

end StagedScript.Run
