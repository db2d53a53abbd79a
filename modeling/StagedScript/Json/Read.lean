import StagedScript.Decimal.Read
import StagedScript.Json.Basic

/-!
# Reading JSON

The JSON value that a text writes.  An integer that fits in no 64 bits, signed or unsigned, is
read as a float, and so is minus zero.
-/

namespace StagedScript.Json

/-- The blanks of JSON. -/
def isBlank (c : Char) : Bool := c == ' ' || c == '\t' || c == '\n' || c == '\r'

/-- A text without the blanks at its start. -/
def skipBlanks (cs : List Char) : List Char := cs.dropWhile isBlank

/-- The value of a hexadecimal digit. -/
def hexValue? (c : Char) : Option Nat :=
  if '0' ≤ c ∧ c ≤ '9' then some (c.toNat - '0'.toNat)
  else if 'a' ≤ c ∧ c ≤ 'f' then some (c.toNat - 'a'.toNat + 10)
  else if 'A' ≤ c ∧ c ≤ 'F' then some (c.toNat - 'A'.toNat + 10)
  else none

/-- The 16-bit unit that four digits write. -/
def unit? (a b c d : Char) : Option Nat := do
  return (((← hexValue? a) * 16 + (← hexValue? b)) * 16 + (← hexValue? c)) * 16 + (← hexValue? d)

/-- The character of an escape with one letter. -/
def unescape? : Char → Option Char
  | '"' => some '"'
  | '\\' => some '\\'
  | '/' => some '/'
  | 'b' => some '\x08'
  | 'f' => some '\x0c'
  | 'n' => some '\n'
  | 'r' => some '\r'
  | 't' => some '\t'
  | _ => none

/-- The rest of a string behind its opening quote, and what follows its closing one.  A unit of
the upper half of a pair waits in `high` for its lower half. -/
def readString (high : Option Nat) : List Char → Option (List Char × List Char)
  | [] => none
  | '"' :: cs => if high.isSome then none else some ([], cs)
  | '\\' :: 'u' :: a :: b :: c :: d :: cs => do
    let u ← unit? a b c d
    match high with
    | some h =>
      if 0xDC00 ≤ u ∧ u < 0xE000 then
        let (text, rest) ← readString none cs
        some (Char.ofNat (0x10000 + (h - 0xD800) * 0x400 + (u - 0xDC00)) :: text, rest)
      else none
    | none =>
      if 0xD800 ≤ u ∧ u < 0xDC00 then readString (some u) cs
      else if 0xDC00 ≤ u ∧ u < 0xE000 then none
      else
        let (text, rest) ← readString none cs
        some (Char.ofNat u :: text, rest)
  | '\\' :: e :: cs => do
    if high.isSome then none
    let c ← unescape? e
    let (text, rest) ← readString none cs
    some (c :: text, rest)
  | c :: cs => do
    if high.isSome || c.toNat < 32 then none
    let (text, rest) ← readString none cs
    some (c :: text, rest)

/-- The number at the start of a text. -/
def readNumber (cs : List Char) : Option (Json × List Char) :=
  let (negative, cs) := match cs with
    | '-' :: r => (true, r)
    | r => (false, r)
  let whole := cs.takeWhile Char.isDigit
  let rest := cs.drop whole.length
  let (fraction, rest) := match rest with
    | '.' :: r => let ds := r.takeWhile Char.isDigit; (some ds, r.drop ds.length)
    | r => (none, r)
  let (exponent, rest) := match rest with
    | e :: r =>
      if e == 'e' || e == 'E' then
        let (sign, r) := match r with
          | '+' :: t => ((1 : Int), t)
          | '-' :: t => (-1, t)
          | t => (1, t)
        let ds := r.takeWhile Char.isDigit
        (some (sign, ds), r.drop ds.length)
      else (none, e :: r)
    | [] => (none, [])
  let signed (x : Float) : Float := if negative then -x else x
  if whole.isEmpty || fraction == some [] || exponent.any (·.2.isEmpty) then none
  else if whole.length > 1 && whole.headD '1' == '0' then none
  else match fraction, exponent with
    | none, none =>
      let n := Decimal.ofDigits whole
      if negative then
        if n = 0 then some (.float (-0.0), rest)
        else if n ≤ Nat.pow 2 63 then some (.int (-n), rest)
        else some (.float (signed (Decimal.nearestFloat n 0)), rest)
      else if n < Nat.pow 2 64 then some (.int n, rest)
      else some (.float (Decimal.nearestFloat n 0), rest)
    | _, _ =>
      let power := exponent.elim 0 fun (sign, ds) => sign * (Decimal.ofDigits ds : Int)
      some (.float (signed (Decimal.Parts.toFloat ⟨whole, fraction.getD [], power⟩)), rest)

/-- A text behind a word that it starts with. -/
def behind? (word : String) (cs : List Char) : Option (List Char) :=
  if word.toList.isPrefixOf cs then some (cs.drop word.length) else none

mutual

/-- The value at the start of a text, and what follows it.  Every value takes a character, so a
text as long as the fuel is always read to the end. -/
def readValue : Nat → List Char → Option (Json × List Char)
  | 0, _ => none
  | fuel + 1, cs =>
    match skipBlanks cs with
    | [] => none
    | '"' :: r => (readString none r).map fun (s, r) => (.str (String.ofList s), r)
    | '[' :: r =>
      match skipBlanks r with
      | ']' :: r => some (.arr [], r)
      | r => (readItems fuel r).map fun (js, r) => (.arr js, r)
    | '\x7b' :: r =>
      match skipBlanks r with
      | '\x7d' :: r => some (.obj [], r)
      | r => (readFields fuel r).map fun (fs, r) => (.obj fs, r)
    | c :: r =>
      if c = 't' then (behind? "rue" r).map (.bool true, ·)
      else if c = 'f' then (behind? "alse" r).map (.bool false, ·)
      else if c = 'n' then (behind? "ull" r).map (.null, ·)
      else readNumber (c :: r)

/-- The items of an array up to its closing bracket. -/
def readItems : Nat → List Char → Option (List Json × List Char)
  | 0, _ => none
  | fuel + 1, cs => do
    let (j, r) ← readValue fuel cs
    match skipBlanks r with
    | ',' :: r =>
      let (js, r) ← readItems fuel r
      some (j :: js, r)
    | ']' :: r => some ([j], r)
    | _ => none

/-- The fields of an object up to its closing brace. -/
def readFields : Nat → List Char → Option (List (String × Json) × List Char)
  | 0, _ => none
  | fuel + 1, cs =>
    match skipBlanks cs with
    | '"' :: r => do
      let (k, r) ← readString none r
      match skipBlanks r with
      | ':' :: r =>
        let (j, r) ← readValue fuel r
        match skipBlanks r with
        | ',' :: r =>
          let (fs, r) ← readFields fuel r
          some ((String.ofList k, j) :: fs, r)
        | '\x7d' :: r => some ([(String.ofList k, j)], r)
        | _ => none
      | _ => none
    | _ => none

end

/-- The value that a text writes. -/
def ofText? (text : String) : Option Json :=
  let cs := text.toList
  match readValue (cs.length + 1) cs with
  | some (j, rest) => if (skipBlanks rest).isEmpty then some j else none
  | none => none

end StagedScript.Json
