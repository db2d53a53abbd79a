import StagedScript.Store.Basic

/-!
# Shapes

The shape of a value is the value with everything that it refers to written out in it: a tree that
says all that its text, its comparison with other values and its JSON depend on.  What a value
holds is written out only when it is asked for: a value that is held in many places is written out
in each of them, and one that holds itself is written out inside itself, down to a depth that is
past the end of every comparison that has one.
-/

namespace StagedScript

/-- What can contain other values and be changed. -/
inductive Container where
  | list (ref : ListRef)
  | dict (ref : DictRef)
  | record (ref : RecordRef)
deriving DecidableEq, Repr

mutual

/-- A value with what it refers to written out. -/
inductive Shape where
  | none_
  | bool (b : Bool)
  | int (n : Int64)
  | float (x : Float)
  | str (text : String)
  | tuple (items : Unit → Shapes)
  | list (ref : ListRef) (items : Unit → Shapes)
  | dict (ref : DictRef) (entries : Unit → NamedShapes)
  | range (r : Range)
  /-- A record, with the name of its type and the template of its text. -/
  | record (ref : RecordRef) (type format : String) (items : Unit → Shapes)
  | function (ref : FunctionRef) (name : String)
  | builtin (b : Builtin)
  | native (identity : Nat) (name : String)
  /-- A method, with the type of its receiver. -/
  | method (identity : Nat) (name receiver : String)
  | slot (index : Nat)
  | recordType (ref : RecordTypeRef) (name : String)
  /-- A container that is not written out because it stands too deep, with the name of its type. -/
  | cut (c : Container) (type : String)

/-- The shapes of the items of a sequence. -/
inductive Shapes where
  | nil
  | cons (first : Shape) (rest : Shapes)

/-- The shapes of the entries of a dict. -/
inductive NamedShapes where
  | nil
  | cons (name : String) (first : Shape) (rest : NamedShapes)

end

instance : Inhabited Shape := ⟨.none_⟩

namespace Shapes

/-- How many there are. -/
def size : Shapes → Nat
  | nil => 0
  | cons _ vs => vs.size + 1

end Shapes

namespace NamedShapes

/-- How many there are. -/
def size : NamedShapes → Nat
  | nil => 0
  | cons _ _ es => es.size + 1

/-- The shape under a name. -/
def get? (es : NamedShapes) (k : String) : Option Shape :=
  match es with
  | nil => none
  | cons x v es => if x = k then some v else es.get? k

end NamedShapes

namespace Shape

/-- The name of the type of the value. -/
def typeName : Shape → String
  | none_ => "NoneType"
  | bool _ => "bool"
  | int _ => "int"
  | float _ => "float"
  | str _ => "str"
  | tuple _ => "tuple"
  | list _ _ => "list"
  | dict _ _ => "dict"
  | range _ => "range"
  | record _ type _ _ => type
  | function _ _ => "function"
  | builtin _ | native _ _ => "builtin_function"
  | method _ _ _ => "method"
  | slot _ => "slot"
  | recordType _ _ => "type"
  | cut _ type => type

end Shape

namespace Value

mutual

/-- The shape of a value, given the shapes of the containers in it. -/
def unfold (s : Store) (inside : Container → Shape) : Value → Shape
  | none_ => .none_
  | bool b => .bool b
  | int n => .int n
  | float x => .float x.toFloat
  | str _ text => .str text
  | tuple _ items => .tuple fun _ => unfoldAll s inside items
  | list r => inside (.list r)
  | dict r => inside (.dict r)
  | range r => .range r
  | function r => .function r ((s.getFunction? r).elim "" Function.name)
  | builtin b => .builtin b
  | native i kind _ => .native i kind.name
  | method i m => .method i m.name (s.receiverType m)
  | slot i => .slot i
  | recordType r => .recordType r (s.getRecordType r).name
  | record r => inside (.record r)

/-- The shapes of values, given the shapes of the containers in them. -/
def unfoldAll (s : Store) (inside : Container → Shape) : List Value → Shapes
  | [] => .nil
  | v :: vs => .cons (unfold s inside v) (unfoldAll s inside vs)

end

/-- The shapes of values by names, given the shapes of the containers in them. -/
def unfoldEntries (s : Store) (inside : Container → Shape) : List (String × Value) → NamedShapes
  | [] => .nil
  | (k, v) :: es => .cons k (unfold s inside v) (unfoldEntries s inside es)

end Value

namespace Store

/-- The name of a container's type. -/
def containerType (s : Store) : Container → String
  | .list _ => "list"
  | .dict _ => "dict"
  | .record r => (s.typeOf r).name

/-- The shape of a container, written out to a depth. -/
def containerShape (s : Store) : Nat → Container → Shape
  | 0, c => .cut c (s.containerType c)
  | depth + 1, c =>
    let inside := s.containerShape depth
    match c with
    | .list r => .list r fun _ => Value.unfoldAll s inside (s.listItems r).toList
    | .dict r => .dict r fun _ => Value.unfoldEntries s inside (s.dictEntries r).entries
    | .record r =>
      let t := s.typeOf r
      .record r t.name t.format fun _ => Value.unfoldAll s inside (s.getRecord r).slots

/-- A bound on the number of values that hold others: the containers, and the tuples, each of which
has an identity of its own. -/
def holders (s : Store) : Nat := s.containers + s.nextIdentity

/-- How deep shapes are written out.  A comparison that meets the same two values again below
themselves has no end; one that has an end goes down through pairs of values that all differ, so
that the number of pairs bounds its depth. -/
def shapeDepth (s : Store) : Nat := (s.holders + 1) * (s.holders + 1)

/-- The shape of a value. -/
def shape (s : Store) (v : Value) : Shape := v.unfold s (s.containerShape s.shapeDepth)

end Store

end StagedScript
