import StagedScript.Run.Record

/-!
# Items

What stands in brackets behind a value.  Sequences are indexed by integers, from the start or, with
a negative index, from the end; dicts are indexed by texts.
-/

namespace StagedScript.Run

/-- From this length on a sequence cannot be indexed, for its last index is no integer of the
language. -/
def lengthLimit : Nat := Nat.pow 2 63

/-- The place that an index means in a sequence of a length. -/
def place? (index : Int) (length : Nat) : Option Nat :=
  let i := if index < 0 then index + length else index
  if length < lengthLimit ∧ 0 ≤ i ∧ i < length then some i.toNat else none

/-- The place that an index means in a container. -/
def place (container : Value) (length : Nat) (index : Value) : Run Nat := do
  match index.int? with
  | none => failTyping (.indexNotInt (← typeName container) (← typeName index))
  | some i =>
    match place? i.toInt length with
    | some i => return i
    | none => fail (.index i.toInt length)

/-- The text that a value is as a key of a dict. -/
def dictKey (key : Value) : Run String := do
  match key.str? with
  | some text => return text
  | none => failTyping (.dictKey (← typeName key))

/-- The item that an index means in a container of a length, given the items at its places. -/
def itemAt (container : Value) (length : Nat) (item? : Nat → Option Value) (index : Value) :
    Run Value := do
  let i ← place container length index
  match item? i with
  | some v => return v
  | none => fail (.index i length)

/-- The item of a value that an index means. -/
def getItem (container index : Value) : Run Value := do
  match container with
  | .dict r =>
    let key ← dictKey index
    match (← view (·.dictEntries r)).get? key with
    | some v => return v
    | none => fail (.key key)
  | .str _ text =>
    let i ← place container text.length index
    match text.toList[i]? with
    | some c => newStr c.toString
    | none => fail (.index i text.length)
  | .range r => itemAt container r.size (fun i => (r.get? i).map .int) index
  | .tuple _ items => itemAt container items.length (items[·]?) index
  | .list r =>
    let items ← view (·.listItems r)
    itemAt container items.size (items[·]?) index
  | .record r =>
    let slots := (← view (·.getRecord r)).slots
    itemAt container slots.length (slots[·]?) index
  | container => failTyping (.notSubscriptable (← typeName container))

/-- Gives the item of a value that an index means a new value. -/
def setItem (container index v : Value) : Run Unit := do
  match container with
  | .dict r =>
    let key ← dictKey index
    modify (·.modifyDict r (·.insert key v))
  | .list r =>
    let i ← place container (← view (·.listItems r)).size index
    modify (·.modifyList r (·.setIfInBounds i v))
  | .record r =>
    let i ← place container (← view (·.typeOf r)).arity index
    setSlot r i v
  | container => failTyping (.noItemAssignment (← typeName container))

end StagedScript.Run
