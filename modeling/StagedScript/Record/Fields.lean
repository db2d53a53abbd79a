import StagedScript.Text.Blank
import StagedScript.Token.Word

/-!
# The names of fields

The name of a record type and those of its fields have to be names of the language, the fields'
names distinct and without an underscore in front.  Names that are not can be replaced by ones that
number the fields.
-/

namespace StagedScript

/-- Why names do not make a record type. -/
inductive NamingFault where
  /-- A text that is no word. -/
  | notWord (name : String)
  /-- A word that is reserved. -/
  | isReserved (name : String)
  /-- A field's name with an underscore in front. -/
  | underscore (name : String)
  /-- A field's name that another field has. -/
  | repeated (name : String)
deriving DecidableEq, Repr

/-- The message of a fault. -/
def NamingFault.message : NamingFault → String
  | notWord x => s!"type names and field names must be valid identifiers: '{x}'"
  | isReserved x => s!"type names and field names cannot be a keyword: '{x}'"
  | underscore x => s!"field names cannot start with an underscore: '{x}'"
  | repeated x => s!"encountered duplicate field name: '{x}'"

namespace Fields

/-- The names that a text lists, with commas or white space between them. -/
def ofText (text : String) : List String :=
  (Text.words (text.toList.map fun c => if c = ',' then ' ' else c)).map String.ofList

/-- Whether a name has an underscore in front. -/
def underscored (name : String) : Bool := name.toList.head? == some '_'

/-- Whether a name can be that of a field. -/
def isValid (name : String) : Bool := Word.isName name && !underscored name

/-- The name of a field by its number. -/
def numbered (index : Nat) : String := "_" ++ toString index

/-- Names from an index on, those replaced that are not valid or among the names before them. -/
def renameFrom (index : Nat) (before : List String) : List String → List String
  | [] => []
  | x :: xs =>
    (if isValid x && !before.contains x then x else numbered index)
      :: renameFrom (index + 1) (x :: before) xs

/-- Names with those replaced that are not valid or repeat an earlier one. -/
def rename (names : List String) : List String := renameFrom 0 [] names

/-- The first fault among names as words. -/
def wordFault? : List String → Option NamingFault
  | [] => none
  | x :: xs =>
    if !Word.isIdentifier x then some (.notWord x)
    else if Word.isReserved x then some (.isReserved x)
    else wordFault? xs

/-- The first fault among names as those of fields; `renamed` permits underscores. -/
def fieldFault? (renamed : Bool) (before : List String) : List String → Option NamingFault
  | [] => none
  | x :: xs =>
    if underscored x && !renamed then some (.underscore x)
    else if before.contains x then some (.repeated x)
    else fieldFault? renamed (x :: before) xs

/-- The first fault of the name of a type and those of its fields. -/
def fault? (typeName : String) (fields : List String) (renamed : Bool) : Option NamingFault :=
  (wordFault? (typeName :: fields)).or (fieldFault? renamed [] fields)

end Fields

end StagedScript
