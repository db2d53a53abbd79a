import StagedScript.Decimal.Read
import StagedScript.Token.Basic
import StagedScript.Width

/-!
# Number literals

Integers in base ten, sixteen, eight and two, and floats.  Underscores may stand among the
digits, and a number ends where its longest form does: `1.` is the integer `1` and a point, and
`0xg` is the integer `0` and a name.
-/

namespace StagedScript.Numeral

/-- The digits of a base and their values; an underscore is among the characters but has none. -/
structure Base where
  /-- How many digits there are. -/
  radix : Nat
  /-- The letters that announce the base behind a leading zero. -/
  marks : List Char
deriving DecidableEq, Repr

/-- The bases that are announced by a letter. -/
def bases : List Base := [⟨16, ['x', 'X']⟩, ⟨8, ['o', 'O']⟩, ⟨2, ['b', 'B']⟩]

/-- The value of a digit in any base up to sixteen. -/
def digit? (c : Char) : Option Nat :=
  if '0' ≤ c ∧ c ≤ '9' then some (c.toNat - '0'.toNat)
  else if 'a' ≤ c ∧ c ≤ 'f' then some (c.toNat - 'a'.toNat + 10)
  else if 'A' ≤ c ∧ c ≤ 'F' then some (c.toNat - 'A'.toNat + 10)
  else none

/-- Whether a character is a digit of a base. -/
def isDigit (radix : Nat) (c : Char) : Bool :=
  match digit? c with
  | some d => d < radix
  | none => false

/-- Whether a character may stand among the digits of a base. -/
def isPart (radix : Nat) (c : Char) : Bool := isDigit radix c || c == '_'

/-- The number that digits write in a base, underscores left aside. -/
def value (radix : Nat) (cs : List Char) : Nat :=
  (cs.filterMap digit?).foldl (fun n d => radix * n + d) 0

/-- The integer that digits write, if there are any and it fits. -/
def int? (radix : Nat) (cs : List Char) : Option Int64 :=
  if (cs.filterMap digit?).isEmpty then none
  else
    let n := value radix cs
    if fits n then some (Int64.ofNat n) else none

/-- A number literal. -/
inductive Literal where
  /-- The digits of an integer and their base. -/
  | int (radix : Nat) (digits : List Char)
  /-- The parts of a float. -/
  | float (parts : Decimal.Parts)

/-- The exponent at the start of a text, and how many characters it takes. -/
def exponent? : List Char → Option (Int × Nat)
  | e :: cs =>
    if e == 'e' || e == 'E' then
      let (sign, signs, ds) := match cs with
        | '+' :: r => ((1 : Int), 1, r)
        | '-' :: r => (-1, 1, r)
        | r => (1, 0, r)
      let digits := ds.takeWhile (isDigit 10)
      if digits.isEmpty then none
      else some (sign * Decimal.ofDigits digits, 1 + signs + digits.length)
    else none
  | [] => none

/-- The decimal literal at the start of a text, and how many characters it takes. -/
def decimal (cs : List Char) : Literal × Nat :=
  let clean := List.filter (· != '_')
  let whole := cs.takeWhile (isPart 10)
  match cs.drop whole.length with
  | '.' :: d :: r =>
    if isDigit 10 d then
      let fraction := (d :: r).takeWhile (isPart 10)
      let taken := whole.length + 1 + fraction.length
      match exponent? ((d :: r).drop fraction.length) with
      | some (e, n) => (.float ⟨clean whole, clean fraction, e⟩, taken + n)
      | none => (.float ⟨clean whole, clean fraction, 0⟩, taken)
    else (.int 10 whole, whole.length)
  | r =>
    match exponent? r with
    | some (e, n) => (.float ⟨clean whole, [], e⟩, whole.length + n)
    | none => (.int 10 whole, whole.length)

/-- The number literal at the start of a text that begins with a digit, and how many characters
it takes. -/
def literal (cs : List Char) : Literal × Nat :=
  match cs with
  | '0' :: m :: r =>
    match bases.find? (·.marks.contains m) with
    | some base =>
      let digits := r.takeWhile (isPart base.radix)
      if digits.isEmpty then decimal cs else (.int base.radix digits, 2 + digits.length)
    | none => decimal cs
  | _ => decimal cs

/-- The token of a literal; an integer must have digits and fit. -/
def Literal.kind? : Literal → Option Token.Kind
  | .int radix digits => (int? radix digits).map .int
  | .float parts => some (.float parts.toFloat)

end StagedScript.Numeral
