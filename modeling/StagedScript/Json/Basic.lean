import StagedScript.Decimal.Layout

/-!
# JSON

The data that JSON texts write.  Numbers written without fraction and exponent are integers, all
others are floats, and the fields of an object keep their order.
-/

namespace StagedScript

/-- A JSON value. -/
inductive Json where
  /-- The value `null`. -/
  | null
  /-- A truth value. -/
  | bool (b : Bool)
  /-- An integer. -/
  | int (n : Int)
  /-- A float. -/
  | float (x : Float)
  /-- A text. -/
  | str (s : String)
  /-- An array. -/
  | arr (items : List Json)
  /-- An object; its fields are in the order in which they are written. -/
  | obj (fields : List (String × Json))
deriving Inhabited

end StagedScript

/-!
## Writing JSON

The compact text of a JSON value, without blanks.
-/

namespace StagedScript.Json

/-- Floats are written with the fewest digits that read back: positionally from `10 ^ -5` up to
`10 ^ 16`, with a tie to the even digit, and with at least one digit behind the point. -/
def floatLayout : Decimal.Layout where
  tie := .even
  positional point := -4 ≤ point ∧ point ≤ 16
  wholeTail _ := ".0"
  nan := "null"
  infinity := "null"

/-- The text of a float; JSON has no word for what is not finite. -/
def floatText (x : Float) : String := if x.isFinite then floatLayout.text x else "null"

/-- The last `width` hexadecimal digits of a number. -/
def hexDigits : Nat → Nat → List Char
  | 0, _ => []
  | width + 1, n => hexDigits width (n / 16) ++ [Nat.digitChar (n % 16)]

/-- The escape of a 16-bit unit. -/
def unitEscape (u : Nat) : List Char := '\\' :: 'u' :: hexDigits 4 u

/-- A character in a JSON string.  Quotes, backslashes and control characters are always escaped,
the characters that are not `plain` too. -/
def escape (plain : Char → Bool) (c : Char) : List Char :=
  match c with
  | '"' => ['\\', '"']
  | '\\' => ['\\', '\\']
  | '\x08' => ['\\', 'b']
  | '\x0c' => ['\\', 'f']
  | '\n' => ['\\', 'n']
  | '\r' => ['\\', 'r']
  | '\t' => ['\\', 't']
  | c =>
    let n := c.toNat
    if n < 32 then unitEscape n
    else if plain c then [c]
    else if n < 0x10000 then unitEscape n
    else unitEscape (0xD800 + (n - 0x10000) / 0x400) ++ unitEscape (0xDC00 + (n - 0x10000) % 0x400)

/-- A text as a JSON string. -/
def quote (plain : Char → Bool) (s : String) : String :=
  String.ofList ('"' :: s.toList.flatMap (escape plain) ++ ['"'])

mutual

/-- The text of a value; characters that are not `plain` are escaped. -/
def render (plain : Char → Bool) : Json → String
  | .null => "null"
  | .bool true => "true"
  | .bool false => "false"
  | .int n => toString n
  | .float x => floatText x
  | .str s => quote plain s
  | .arr items => "[" ++ ",".intercalate (renderItems plain items) ++ "]"
  | .obj fields => "\x7b" ++ ",".intercalate (renderFields plain fields) ++ "\x7d"

/-- The texts of the items of an array. -/
def renderItems (plain : Char → Bool) : List Json → List String
  | [] => []
  | j :: js => render plain j :: renderItems plain js

/-- The texts of the fields of an object. -/
def renderFields (plain : Char → Bool) : List (String × Json) → List String
  | [] => []
  | (k, j) :: fs => (quote plain k ++ ":" ++ render plain j) :: renderFields plain fs

end

/-- The text of a value with every printable character as it is. -/
def text (j : Json) : String := render (fun _ => true) j

/-- The text of a value in ASCII alone. -/
def asciiText (j : Json) : String := render (fun c => c.toNat < 127) j

end StagedScript.Json
