import StagedScript.Decimal.Layout
import StagedScript.Fault.Basic
import StagedScript.Shape.Basic

/-!
# The text of a value

Every value has a text that shows what it is; for plain data it is the expression that makes the
value.  A container inside itself is shown by dots.
-/

/-!
## Percent templates

A template is a text with conversions: `%r`, `%s`, `%d` and `%i` stand for one argument each, and
`%%` for a percent sign.
-/

namespace StagedScript.Percent

/-- An argument of a template, in the forms that conversions ask for. -/
structure Argument where
  /-- The form of `%r`. -/
  repr : Unit → String
  /-- The form of `%s`. -/
  text : Unit → String
  /-- The form of `%d`, or the name of the type when the argument is no number. -/
  integer : Except String String

/-- An argument as a conversion asks for it. -/
def convert (c : Char) (a : Argument) : Except Fault String :=
  match c with
  | 'r' => .ok (a.repr ())
  | 's' => .ok (a.text ())
  | 'd' | 'i' =>
    match a.integer with
    | .ok text => .ok text
    | .error type => .error (.typing (.formatNotNumber type))
  | c => .error (.domain (.formatCharacter c))

/-- A template with its conversions replaced by the arguments, each of which is used once. -/
def fill : List Char → List Argument → Except Fault (List Char)
  | [], [] => .ok []
  | [], _ :: _ => .error (.typing .tooManyForFormat)
  | '%' :: '%' :: cs, args => (fill cs args).map ('%' :: ·)
  | ['%'], _ => .error (.domain .incompleteFormat)
  | '%' :: _ :: _, [] => .error (.typing .tooFewForFormat)
  | '%' :: c :: cs, a :: args => do
    let text ← convert c a
    let rest ← fill cs args
    return text.toList ++ rest
  | c :: cs, args => (fill cs args).map (c :: ·)

end StagedScript.Percent

namespace StagedScript

/-- Floats are shown with the fewest digits that read back, without an exponent, with a tie to the
larger digit.  Whole numbers below `10 ^ 16` have one digit behind the point. -/
def floatLayout : Decimal.Layout where
  tie := .up
  positional _ := true
  wholeTail point := if point ≤ 16 then ".0" else ""
  nan := "nan"
  infinity := "inf"

/-- The text of a float. -/
def floatText (x : Float) : String := floatLayout.text x

namespace Quote

/-- The quote around a text: the double one if the text holds a single one and no double one. -/
def choose (cs : List Char) : Char :=
  if cs.contains '\'' && !cs.contains '"' then '"' else '\''

/-- A character between quotes. -/
def escape (quote c : Char) : List Char :=
  match c with
  | '\\' => ['\\', '\\']
  | '\n' => ['\\', 'n']
  | '\r' => ['\\', 'r']
  | '\t' => ['\\', 't']
  | c => if c = quote then ['\\', c] else [c]

/-- A text as a string literal. -/
def literal (cs : List Char) : List Char :=
  let quote := choose cs
  quote :: cs.flatMap (escape quote) ++ [quote]

end Quote

/-- A text as a string literal. -/
def strLiteral (text : String) : String := String.ofList (Quote.literal text.toList)

namespace Shape

/-- The texts of several values with commas between them. -/
def commas (texts : List String) : String := ", ".intercalate texts

/-- The text of a tuple; a comma tells a tuple of one item from the item. -/
def tupleText : List String → String
  | [text] => "(" ++ text ++ ",)"
  | texts => "(" ++ commas texts ++ ")"

/-- The text of a range; a step of one is left out. -/
def rangeText (r : Range) : String :=
  let ends := toString r.start.toInt ++ ", " ++ toString r.stop.toInt
  if r.step = 1 then "range(" ++ ends ++ ")"
  else "range(" ++ ends ++ ", " ++ toString r.step.toInt ++ ")"

/-- The integer form of a value in a percent template.  A float is cut to its whole part. -/
def integer : Shape → Except String String
  | int n => .ok (toString n.toInt)
  | bool b => .ok (if b then "1" else "0")
  | float x => .ok (toString x.toInt64.toInt)
  | v => .error v.typeName

/-- A value as an argument of a percent template, given its text. -/
def argument (v : Shape) (repr : Unit → String) : Percent.Argument where
  repr := repr
  text := match v with
    | str text => fun _ => text
    | _ => repr
  integer := v.integer

/-- The text of a container inside itself. -/
def cutText (type : String) : Container → String
  | .list _ => "[...]"
  | .dict _ => "\x7b...\x7d"
  | .record _ => type ++ "(...)"

/-- The text of a record: the name of its type and its filled template.  When the template does not
fit the slots the record is shown by its type alone. -/
def recordText (type format : String) (args : List Percent.Argument) : String :=
  match Percent.fill format.toList args with
  | .ok text => type ++ String.ofList text
  | .error _ => "<" ++ type ++ " object>"

end Shape

mutual

/-- The text that shows what a value is where it stands inside the containers in `active`. -/
def Shape.reprInside (active : List Container) : Shape → String
  | .none_ => "None"
  | .bool true => "True"
  | .bool false => "False"
  | .int n => toString n.toInt
  | .float x => floatText x
  | .str text => strLiteral text
  | .tuple items => Shape.tupleText ((items ()).reprsInside active)
  | .list r items =>
    if .list r ∈ active then Shape.cutText "list" (.list r)
    else "[" ++ Shape.commas ((items ()).reprsInside (.list r :: active)) ++ "]"
  | .dict r entries =>
    if .dict r ∈ active then Shape.cutText "dict" (.dict r)
    else "\x7b" ++ Shape.commas ((entries ()).reprsInside (.dict r :: active)) ++ "\x7d"
  | .range r => Shape.rangeText r
  | .record r type format items =>
    if .record r ∈ active then Shape.cutText type (.record r)
    else Shape.recordText type format ((items ()).argumentsInside (.record r :: active))
  | .function _ name => "<function " ++ name ++ ">"
  | .builtin b => "<built-in function " ++ b.name ++ ">"
  | .native _ name => "<built-in function " ++ name ++ ">"
  | .method _ name receiver => "<bound method " ++ name ++ " of " ++ receiver ++ ">"
  | .slot i => "<slot " ++ toString i ++ ">"
  | .recordType _ name => "<class '" ++ name ++ "'>"
  | .cut c type => Shape.cutText type c

/-- The texts of several values inside containers. -/
def Shapes.reprsInside (active : List Container) : Shapes → List String
  | .nil => []
  | .cons v vs => v.reprInside active :: vs.reprsInside active

/-- The texts of the entries of a dict inside containers. -/
def NamedShapes.reprsInside (active : List Container) : NamedShapes → List String
  | .nil => []
  | .cons k v es => (strLiteral k ++ ": " ++ v.reprInside active) :: es.reprsInside active

/-- Several values inside containers as arguments of a percent template. -/
def Shapes.argumentsInside (active : List Container) : Shapes → List Percent.Argument
  | .nil => []
  | .cons v vs => v.argument (fun _ => v.reprInside active) :: vs.argumentsInside active

end

namespace Shape

/-- The text that shows what a value is. -/
def repr (v : Shape) : String := v.reprInside []

/-- The text of a value as it is printed: a text is its own. -/
def text : Shape → String
  | str text => text
  | v => v.repr

end Shape

namespace Store

/-- The text that shows what a value is. -/
def repr (s : Store) (v : Value) : String := (s.shape v).repr

/-- The text of a value as it is printed. -/
def text (s : Store) (v : Value) : String := (s.shape v).text

end Store

end StagedScript
