import StagedScript.Source.Basic

/-!
# Run-time errors

What can go wrong while a program runs.  An error is its cause and, once it has left a statement,
the place of the innermost statement that was executed when it was raised.
-/

namespace StagedScript

namespace Fault

/-- The operations whose result may not fit in 64 bits. -/
inductive Overflow where
  | addition | subtraction | multiplication | division | modulo | exponentiation | leftShift
  | repetition | negation | absolute
deriving DecidableEq, Repr

/-- How an operation is called. -/
def Overflow.text : Overflow → String
  | addition => "addition" | subtraction => "subtraction" | multiplication => "multiplication"
  | division => "division" | modulo => "modulo" | exponentiation => "exponentiation"
  | leftShift => "left shift" | repetition => "repetition" | negation => "negation"
  | absolute => "abs"

/-- A value of a type that does not fit.  Types are given by their names. -/
inductive Typing where
  | dictKey (type : String)
  | notMapping (type : String)
  | repeatedKeyword (name : String)
  | notSlotBase (className : String)
  | fieldsNotTexts (className : String)
  | noFields (className : String)
  | mappingNotDict (className repr : String)
  | formatNotText (className type : String)
  | notCallable (type : String)
  | manyValues (callee name : String)
  | unknownKeyword (callee name : String)
  | missingArgument (callee name : String)
  | notAssignable
  | notIterable (type : String)
  | operands (op left right : String)
  | operand (type : String)
  | unordered (op left right : String)
  | needleNotText (type : String)
  | notContainer (type : String)
  | indexNotInt (container type : String)
  | notSubscriptable (type : String)
  | noItemAssignment (type : String)
  | argumentNotText (method type : String)
  | tooFewForFormat
  | tooManyForFormat
  | formatNotNumber (type : String)
  | noLength (type : String)
  | attributeNameNotText (callee : String)
  | startNotInt
  | absOperand (type : String)
  | slotBaseCalled
  | notPairs
  | notInteger (type : String)
  | optionNotText (name type : String)
  | notNumber (type : String)
deriving DecidableEq, Repr

/-- The message of a typing fault. -/
def Typing.message : Typing → String
  | dictKey t => s!"dict keys must be strings, not '{t}'"
  | notMapping t => s!"argument after ** must be a mapping, not {t}"
  | repeatedKeyword x => s!"keyword argument repeated: {x}"
  | notSlotBase c => s!"class {c} must derive from the slot base"
  | fieldsNotTexts c => s!"{c}._fields must be a tuple of strings"
  | noFields c => s!"class {c} must define _fields"
  | mappingNotDict c r => s!"{c}._mapping must be a dict type, not {r}"
  | formatNotText c t => s!"{c}._repr_fmt must be a string, not {t}"
  | notCallable t => s!"'{t}' object is not callable"
  | manyValues f x => s!"{f}() got multiple values for argument '{x}'"
  | unknownKeyword f x => s!"{f}() got an unexpected keyword argument '{x}'"
  | missingArgument f x => s!"{f}() missing required argument '{x}'"
  | notAssignable => "cannot assign to expression"
  | notIterable t => s!"'{t}' object is not iterable"
  | operands op l r => s!"unsupported operand type(s) for {op}: '{l}' and '{r}'"
  | operand t => s!"bad operand type for unary operator: '{t}'"
  | unordered op l r => s!"'{op}' not supported between instances of '{l}' and '{r}'"
  | needleNotText t => s!"'in <string>' requires string as left operand, not {t}"
  | notContainer t => s!"argument of type '{t}' is not iterable"
  | indexNotInt c t => s!"{c} indices must be integers, not {t}"
  | notSubscriptable t => s!"'{t}' object is not subscriptable"
  | noItemAssignment t => s!"'{t}' object does not support item assignment"
  | argumentNotText m t => s!"{m}() argument must be str, not {t}"
  | tooFewForFormat => "not enough arguments for format string"
  | tooManyForFormat => "not all arguments converted during string formatting"
  | formatNotNumber t => s!"%d format: a number is required, not {t}"
  | noLength t => s!"object of type '{t}' has no len()"
  | attributeNameNotText f => s!"{f}(): attribute name must be string"
  | startNotInt => "enumerate() start must be an integer"
  | absOperand t => s!"bad operand type for abs(): '{t}'"
  | slotBaseCalled => "_slots is a base class and cannot be instantiated"
  | notPairs => "dict() expects (str, value) pairs"
  | notInteger t => s!"'{t}' object cannot be interpreted as an integer"
  | optionNotText x t => s!"{x} must be None or a string, not {t}"
  | notNumber t => s!"int() argument must be a string or a number, not '{t}'"

/-- A value of a fitting type that is none of those allowed.  Values are given by their texts. -/
inductive Domain where
  | tooFewToUnpack (expected got : Nat)
  | tooManyToUnpack (expected : Nat)
  | negativeShift
  | incompleteFormat
  | formatCharacter (c : Char)
  | slotIndex (repr : String)
  | zeroStep
  | emptySequence (callee : String)
  | floatNotInt (text : String)
  | badInteger (repr : String)
  | emptySeparator
  | arityMismatch (className repr : String) (fields : Nat)
  | slotOutOfRange (className name : String) (index arity : Nat)
  | unknownFields (names : List String)
deriving DecidableEq, Repr

/-- The message of a domain fault. -/
def Domain.message : Domain → String
  | tooFewToUnpack n k => s!"not enough values to unpack (expected {n}, got {k})"
  | tooManyToUnpack n => s!"too many values to unpack (expected {n})"
  | negativeShift => "negative shift count"
  | incompleteFormat => "incomplete format"
  | formatCharacter c => s!"unsupported format character '{c}'"
  | slotIndex r => s!"_slot() index must be a non-negative integer, not {r}"
  | zeroStep => "range() arg 3 must not be zero"
  | emptySequence f => s!"{f}() arg is an empty sequence"
  | floatNotInt t => s!"cannot convert float {t} to integer"
  | badInteger r => s!"invalid literal for int() with base 10: {r}"
  | emptySeparator => "empty separator"
  | arityMismatch c r n => s!"{c}._arity is {r} but there are {n} fields"
  | slotOutOfRange c x i n => s!"{c}.{x} refers to slot {i} but the arity is {n}"
  | unknownFields xs => "got unexpected field names: " ++ ", ".intercalate xs

/-- The control statements that can leave what they stand in. -/
inductive Stray where
  | ret | brk | cont
deriving DecidableEq, Repr

/-- The message of a control statement that leaves nothing. -/
def Stray.message : Stray → String
  | ret => "'return' outside function"
  | brk => "'break' outside loop"
  | cont => "'continue' outside loop"

end Fault

/-- The cause of a run-time error. -/
inductive Fault where
  /-- A name without a value. -/
  | undefined (name : String)
  /-- A value of a type that does not fit. -/
  | typing (what : Fault.Typing)
  /-- An attribute that a value of this type does not have. -/
  | attr (type name : String)
  /-- An index beyond the ends of a sequence. -/
  | index (index : Int) (length : Nat)
  /-- A key that a dict does not have. -/
  | key (key : String)
  /-- The wrong number of arguments. -/
  | arity (callee : String) (expected got : Nat)
  /-- A division by zero. -/
  | divisionByZero
  /-- A result that does not fit in 64 bits. -/
  | overflow (what : Fault.Overflow)
  /-- A value of a fitting type that is none of those allowed. -/
  | domain (what : Fault.Domain)
  /-- Calls that nest too deeply. -/
  | depth (limit : Nat)
  /-- A failure that a native callable reports. -/
  | native (name message : String)
  /-- A control statement outside of the function or loop that it would leave; a program has
  none. -/
  | stray (what : Fault.Stray)
deriving DecidableEq, Repr

/-- The message of a cause. -/
def Fault.message : Fault → String
  | undefined x => s!"name '{x}' is not defined"
  | typing f => f.message
  | attr t x => s!"'{t}' object has no attribute '{x}'"
  | index i n => s!"index {i} out of range (length is {n})"
  | key k => s!"key '{k}' not found"
  | arity f n k =>
    let plural := if n = 1 then "" else "s"
    s!"{f}() expected {n} argument{plural}, got {k}"
  | divisionByZero => "division by zero"
  | overflow what => "integer overflow in " ++ what.text
  | domain f => f.message
  | depth n => s!"maximum call depth ({n}) exceeded"
  | native x m => s!"{x}: {m}"
  | stray what => what.message

/-- A run-time error: its cause and where it was raised. -/
structure RuntimeError where
  /-- The place of the innermost statement that was executed, once the error has left it. -/
  location? : Option Location
  /-- What went wrong. -/
  cause : Fault
deriving DecidableEq, Repr

namespace RuntimeError

/-- The message of an error, behind its location. -/
def message (e : RuntimeError) : String :=
  (e.location?.elim "" Location.lead) ++ e.cause.message

/-- The error as it leaves a statement at a location.  The innermost statement counts. -/
def leaving (location : Location) (e : RuntimeError) : RuntimeError :=
  { e with location? := e.location?.or (some location) }

end RuntimeError

end StagedScript
