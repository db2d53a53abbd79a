import StagedScript.Binary64
import StagedScript.Value.Callable
import StagedScript.Value.Range

/-!
# Values

The values of the language.  Containers, functions, records and their types live in a store and
are values by reference, so that all holders of one see its changes.  Texts, tuples, methods and
native callables never change; each carries a number that tells it from its equals.
-/

namespace StagedScript

/-- A value. -/
inductive Value where
  /-- The value `None`. -/
  | none_
  /-- A truth value. -/
  | bool (b : Bool)
  /-- An integer. -/
  | int (n : Int64)
  /-- A float. -/
  | float (x : Binary64)
  /-- A text. -/
  | str (identity : Nat) (text : String)
  /-- A tuple. -/
  | tuple (identity : Nat) (items : List Value)
  /-- A list. -/
  | list (ref : ListRef)
  /-- A dict. -/
  | dict (ref : DictRef)
  /-- A range. -/
  | range (r : Range)
  /-- A function. -/
  | function (ref : FunctionRef)
  /-- A builtin. -/
  | builtin (b : Builtin)
  /-- A native callable and the values that it holds by name. -/
  | native (identity : Nat) (kind : Native) (held : List (String × Value))
  /-- A method of a value, waiting to be called. -/
  | method (identity : Nat) (m : Method)
  /-- An accessor of the slot with an index. -/
  | slot (index : Nat)
  /-- A record type. -/
  | recordType (ref : RecordTypeRef)
  /-- A record. -/
  | record (ref : RecordRef)
deriving Inhabited

namespace Value

/-- The integer that a value is; a truth value is one too. -/
def int? : Value → Option Int64
  | int n => some n
  | bool b => some (if b then 1 else 0)
  | _ => none

/-- The text that a value is. -/
def str? : Value → Option String
  | str _ text => some text
  | _ => none

/-- The method of a value that goes by a name. -/
def method? (name : String) : Value → Option Method
  | list r => (ListMethod.ofName? name).map (.list r)
  | dict r => (DictMethod.ofName? name).map (.dict r)
  | str _ text => (TextMethod.ofName? name).map (.text text)
  | record r => (RecordMethod.ofName? name).map (.record r)
  | recordType r => (RecordTypeMethod.ofName? name).map (.recordType r)
  | _ => Option.none

/-- Whether two values are one and the same.  Numbers, truth values, ranges, slots and builtins have
no identity beyond what they are; a float is told from another by its bits. -/
def isSame : Value → Value → Bool
  | none_, none_ => true
  | bool a, bool b => a == b
  | int a, int b => a == b
  | float a, float b => a == b
  | str a _, str b _ => a == b
  | tuple a _, tuple b _ => a == b
  | list a, list b => a == b
  | dict a, dict b => a == b
  | range a, range b => a == b
  | function a, function b => a == b
  | builtin a, builtin b => a == b
  | native a _ _, native b _ _ => a == b
  | method a _, method b _ => a == b
  | slot a, slot b => a == b
  | recordType a, recordType b => a == b
  | record a, record b => a == b
  | _, _ => false

end Value

end StagedScript
