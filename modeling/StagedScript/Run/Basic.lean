import StagedScript.Fault.Basic
import StagedScript.Shape.Order
import StagedScript.Shape.Text

/-!
# Computations

A computation reads and changes the store, and ends with a result, with an error, or because it
was given too little fuel.  The store keeps what was done before an error.  A few operations bring
down the process that carries them out, so that nothing is answered at all.
-/

namespace StagedScript

/-- What brings the process down. -/
inductive Abort where
  /-- A comparison without an end, which goes down until there is no stack left. -/
  | endlessComparison
  /-- A remainder of 64-bit integers whose quotient is none. -/
  | remainder
deriving DecidableEq, Repr

/-- Why a computation ends without a result. -/
inductive Stop where
  /-- Something went wrong. -/
  | error (e : RuntimeError)
  /-- The fuel for loops and calls is used up; with more of it the computation would go on. -/
  | outOfFuel
  /-- The process is brought down. -/
  | aborted (why : Abort)
deriving DecidableEq, Repr

/-- A computation over the store. -/
abbrev Run := EStateM Stop Store

/-- The arguments of a call: those by place, and those by name in the order given. -/
structure Arguments where
  /-- The arguments by place. -/
  positional : List Value
  /-- The arguments by name. -/
  named : Table Value

namespace Arguments

/-- Arguments by place alone. -/
def ofList (positional : List Value) : Arguments := ⟨positional, .empty⟩

end Arguments

/-- A way to call values. -/
abbrev Caller := Value → Arguments → Run Value

namespace Run

/-- Fails with a cause, at a place that is not known yet. -/
def fail {α : Type} (cause : Fault) : Run α := throw (.error ⟨none, cause⟩)

/-- Brings the process down. -/
def abort {α : Type} (why : Abort) : Run α := throw (.aborted why)

/-- Fails because of a type. -/
def failTyping {α : Type} (what : Fault.Typing) : Run α := fail (.typing what)

/-- Fails because of a value. -/
def failDomain {α : Type} (what : Fault.Domain) : Run α := fail (.domain what)

/-- The result of a check. -/
def ofExcept {α : Type} : Except Fault α → Run α
  | .ok a => pure a
  | .error cause => fail cause

/-- Looks something up in the store. -/
def view {α : Type} (f : Store → α) : Run α := return f (← get)

/-- Makes something in the store. -/
def make {α : Type} (f : Store → α × Store) : Run α := modifyGet f

/-- The name of a value's type. -/
def typeName (v : Value) : Run String := view (·.typeName v)

/-- The text that shows what a value is. -/
def repr (v : Value) : Run String := view (·.repr v)

/-- The text of a value as it is printed. -/
def text (v : Value) : Run String := view (·.text v)

/-- Whether a value counts as true. -/
def isTruthy (v : Value) : Run Bool := view (·.isTruthy v)

/-- Whether two values are equal. -/
def equal (a b : Value) : Run Bool := do
  match ← view (·.equal a b) with
  | some answer => return answer
  | none => abort .endlessComparison

/-- The order of two values, where they have one. -/
def order? (a b : Value) : Run (Option Ordering) := do
  match ← view (·.compare a b) with
  | .order o => return some o
  | .unordered => return none
  | .endless => abort .endlessComparison

/-- Makes a text. -/
def newStr (text : String) : Run Value := return .str (← make Store.newIdentity) text

/-- Makes a tuple. -/
def newTuple (items : List Value) : Run Value := return .tuple (← make Store.newIdentity) items

/-- Makes a list. -/
def newList (items : List Value) : Run Value := return .list (← make (·.newList items.toArray))

/-- Makes a dict. -/
def newDict (entries : Table Value) : Run Value := return .dict (← make (·.newDict entries))

/-- Makes a method of a value. -/
def newMethod (m : Method) : Run Value := return .method (← make Store.newIdentity) m

/-- Makes a native callable. -/
def newNative (kind : Native) (held : List (String × Value)) : Run Value :=
  return .native (← make Store.newIdentity) kind held

/-- Makes one text for each of several. -/
def newStrs (texts : List String) : Run (List Value) := texts.mapM newStr

/-- Gives the errors that leave a statement its location. -/
def locating {α : Type} (location : Unit → Location) (x : Run α) : Run α := fun s =>
  match x s with
  | .error (.error e) s => .error (.error (e.leaving (location ()))) s
  | r => r

/-- What a value has for an item: a value, or the text of a character or of a key, which is made
when the item is asked for. -/
inductive Member where
  /-- A value. -/
  | value (v : Value)
  /-- A text that is still to be made. -/
  | text (t : String)

/-- The item that a value has. -/
def Member.take : Member → Run Value
  | value v => return v
  | text t => newStr t

/-- What a value has for items, in order: the items of a sequence, the keys of a dict, the
characters of a text, the integers of a range. -/
def members (v : Value) : Run (List Member) := do
  match ← view (·.sequenceItems? v) with
  | some items => return items.map Member.value
  | none =>
    match v with
    | .dict r => return (← view (·.dictEntries r)).keys.map Member.text
    | .str _ text => return text.toList.map fun c => Member.text c.toString
    | .range r => return r.items.map fun n => Member.value (.int n)
    | v => failTyping (.notIterable (← typeName v))

/-- The items of a value, in order. -/
def items (v : Value) : Run (List Value) := do (← members v).mapM Member.take

end Run

end StagedScript
