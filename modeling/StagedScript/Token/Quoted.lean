/-!
# String literals

A string literal stands between two quotes, or between two runs of three quotes, and its body is a
sequence of items.  In a short literal an item is a character other than the quote, a backslash
and a newline, or a backslash with a character that is no newline.  In a long literal it is a
character other than the quote and a backslash, or a backslash with a character that is no
newline, or one or two quotes with any other character behind them.
-/

namespace StagedScript.Quoted

/-- How far a literal reaches. -/
inductive Extent where
  /-- It is closed behind a body of this many characters. -/
  | closed (body : Nat)
  /-- It is not closed, and has this many characters of complete items. -/
  | unclosed (items : Nat)
deriving DecidableEq, Repr

namespace Extent

/-- The extent with `n` more characters in front. -/
def after (n : Nat) : Extent → Extent
  | closed k => closed (k + n)
  | unclosed k => unclosed (k + n)

end Extent

/-- The extent of a short literal, behind its opening quote. -/
def short (quote : Char) : List Char → Extent
  | [] => .unclosed 0
  | [c] => if c = quote then .closed 0 else if c = '\\' ∨ c = '\n' then .unclosed 0 else .unclosed 1
  | c :: d :: cs =>
    if c = quote then .closed 0
    else if c = '\\' then if d = '\n' then .unclosed 0 else (short quote cs).after 2
    else if c = '\n' then .unclosed 0
    else (short quote (d :: cs)).after 1

/-- The number of characters of the item of a long literal that a text starts with; none where
the literal ends or no item is complete. -/
def item? (quote : Char) : List Char → Option Nat
  | [] => none
  | c :: cs =>
    if c = '\\' then match cs with
      | d :: _ => if d = '\n' then none else some 2
      | [] => none
    else if c = quote then match cs with
      | d :: e :: _ => if d ≠ quote then some 2 else if e ≠ quote then some 3 else none
      | [d] => if d ≠ quote then some 2 else none
      | [] => none
    else some 1

/-- The extent of a long literal, behind its opening quotes. -/
def long (quote : Char) (cs : List Char) : Extent :=
  match item? quote cs with
  | some (n + 1) =>
    if n < cs.length then (long quote (cs.drop (n + 1))).after (n + 1) else .unclosed 0
  | _ => if [quote, quote, quote].isPrefixOf cs then .closed 0 else .unclosed 0
termination_by cs.length
decreasing_by simp only [List.length_drop]; omega

/-- The character that an escape stands for. -/
def escape? : Char → Option Char
  | 'n' => some '\n'
  | 'r' => some '\r'
  | 't' => some '\t'
  | '0' => some '\x00'
  | '\\' => some '\\'
  | '\'' => some '\''
  | '"' => some '"'
  | _ => none

/-- The text that the body of a literal stands for.  An escaped newline is dropped, and an unknown
escape stands for itself, backslash included. -/
def decode : List Char → List Char
  | [] => []
  | '\\' :: d :: cs =>
    match escape? d with
    | some e => e :: decode cs
    | none => if d = '\n' then decode cs else '\\' :: d :: decode cs
  | c :: cs => c :: decode cs

/-- A literal as it stands in a text: its text and how many characters it takes, or how many
characters of it are skipped when it is not closed. -/
inductive Literal where
  /-- A closed literal. -/
  | whole (text : List Char) (taken : Nat)
  /-- A literal that is not closed. -/
  | broken (skipped : Nat)

/-- The literal at the start of a text that begins with a quote.  Three quotes always open a long
literal. -/
def literal (quote : Char) (cs : List Char) : Literal :=
  if [quote, quote, quote].isPrefixOf cs then
    let body := cs.drop 3
    match long quote body with
    | .closed n => .whole (decode (body.take n)) (n + 6)
    | .unclosed n => .broken (n + 3)
  else
    let body := cs.drop 1
    match short quote body with
    | .closed n => .whole (decode (body.take n)) (n + 2)
    | .unclosed n => .broken (n + 1)

end StagedScript.Quoted
