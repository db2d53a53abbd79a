/-!
# References and callables

The places of a store that values refer to, and what can be called without being written in the
language.
-/

/-!
## References

What can be changed, or is defined once and held by many, lives in a store.  A reference is a
place there, so that all holders of one see the same thing.
-/

namespace StagedScript

/-- A list of the store. -/
structure ListRef where
  /-- Its place in the store. -/
  index : Nat
deriving DecidableEq, Repr, Inhabited

/-- A dict of the store. -/
structure DictRef where
  /-- Its place in the store. -/
  index : Nat
deriving DecidableEq, Repr, Inhabited

/-- A function of the store. -/
structure FunctionRef where
  /-- Its place in the store. -/
  index : Nat
deriving DecidableEq, Repr, Inhabited

/-- A record type of the store. -/
structure RecordTypeRef where
  /-- Its place in the store. -/
  index : Nat
deriving DecidableEq, Repr, Inhabited

/-- A record of the store. -/
structure RecordRef where
  /-- Its place in the store. -/
  index : Nat
deriving DecidableEq, Repr, Inhabited

/-- A namespace of the store. -/
structure NamespaceRef where
  /-- Its place in the store. -/
  index : Nat
deriving DecidableEq, Repr, Inhabited

end StagedScript

/-!
## Callables that are not written in the language

The builtins, which every program has at hand, and the native callables, which a host binds.
-/

namespace StagedScript

/-- The callables of the language itself. -/
inductive Builtin where
  | len | tuple | list | dict | orderedDict | range | str | repr | print | getattr | setattr | zip
  | enumerate | min | max | sum | abs | int
  /-- The base of record classes. -/
  | slots
  /-- The maker of positional accessors. -/
  | slot
deriving DecidableEq, Repr, Inhabited

namespace Builtin

/-- The name of a builtin. -/
def name : Builtin → String
  | len => "len" | tuple => "tuple" | list => "list" | dict => "dict"
  | orderedDict => "OrderedDict" | range => "range" | str => "str" | repr => "repr"
  | print => "print" | getattr => "getattr" | setattr => "setattr" | zip => "zip"
  | enumerate => "enumerate" | min => "min" | max => "max" | sum => "sum" | abs => "abs"
  | int => "int" | slots => "_slots" | slot => "_slot"

/-- The builtins that every program sees. -/
def visible : List Builtin :=
  [len, tuple, list, dict, range, str, repr, print, getattr, setattr, zip, enumerate, min, max, sum,
    abs, int]

/-- The builtins that are bound to their names where record classes are to be written. -/
def ambient : List Builtin := [slots, slot, orderedDict]

/-- The builtin that every program sees under a name. -/
def visible? (name : String) : Option Builtin := visible.find? (·.name == name)

end Builtin

/-- The callables that are not written in the language. -/
inductive Native where
  /-- Takes names with values, and gives the decorator that unrolls loops over them. -/
  | unrolling
  /-- Rebuilds a function with the loops over the held names unrolled. -/
  | unroller
  /-- Takes anything by name, and gives the decorator that changes nothing. -/
  | passing
  /-- Gives back the function that it is applied to. -/
  | passer
  /-- A callable of the host program. -/
  | host (name : String)
deriving DecidableEq, Repr, Inhabited

/-- The name that unrolling goes by. -/
def unrollName : String := "unroll"

/-- The name of a native callable. -/
def Native.name : Native → String
  | unrolling | unroller | passing | passer => unrollName
  | host name => name

end StagedScript

/-!
## Methods

The operations that values offer as attributes.  A method is an operation together with what it is
applied to, and waits to be called.
-/

namespace StagedScript

/-- The methods of a list. -/
inductive ListMethod where
  | append | extend | pop
deriving DecidableEq, Repr

/-- The methods of a dict. -/
inductive DictMethod where
  | items | keys | values | get
deriving DecidableEq, Repr

/-- The methods of a text. -/
inductive TextMethod where
  | join | split | startsWith | replace | upper | lower
deriving DecidableEq, Repr

/-- The methods of a record. -/
inductive RecordMethod where
  | asDict | replace
deriving DecidableEq, Repr

/-- The methods of a record type. -/
inductive RecordTypeMethod where
  | make
deriving DecidableEq, Repr

/-- The name of a list's method. -/
def ListMethod.name : ListMethod → String
  | append => "append" | extend => "extend" | pop => "pop"

/-- The name of a dict's method. -/
def DictMethod.name : DictMethod → String
  | items => "items" | keys => "keys" | values => "values" | get => "get"

/-- The name of a text's method. -/
def TextMethod.name : TextMethod → String
  | join => "join" | split => "split" | startsWith => "startswith" | replace => "replace"
  | upper => "upper" | lower => "lower"

/-- The name of a record's method. -/
def RecordMethod.name : RecordMethod → String
  | asDict => "_asdict" | replace => "_replace"

/-- The name of a record type's method. -/
def RecordTypeMethod.name : RecordTypeMethod → String
  | make => "_make"

/-- A list's method by its name. -/
def ListMethod.ofName? (name : String) : Option ListMethod :=
  [append, extend, pop].find? (·.name == name)

/-- A dict's method by its name. -/
def DictMethod.ofName? (name : String) : Option DictMethod :=
  [items, keys, values, get].find? (·.name == name)

/-- A text's method by its name. -/
def TextMethod.ofName? (name : String) : Option TextMethod :=
  [join, split, startsWith, replace, upper, lower].find? (·.name == name)

/-- A record's method by its name. -/
def RecordMethod.ofName? (name : String) : Option RecordMethod :=
  [asDict, replace].find? (·.name == name)

/-- A record type's method by its name. -/
def RecordTypeMethod.ofName? (name : String) : Option RecordTypeMethod :=
  [make].find? (·.name == name)

/-- A method of a value. -/
inductive Method where
  | list (ref : ListRef) (op : ListMethod)
  | dict (ref : DictRef) (op : DictMethod)
  | text (text : String) (op : TextMethod)
  | record (ref : RecordRef) (op : RecordMethod)
  | recordType (ref : RecordTypeRef) (op : RecordTypeMethod)
deriving DecidableEq, Repr

/-- The name of a method. -/
def Method.name : Method → String
  | list _ op => op.name
  | dict _ op => op.name
  | text _ op => op.name
  | record _ op => op.name
  | recordType _ op => op.name

end StagedScript
