import StagedScript.Source.Basic
import StagedScript.Text.Slice
import StagedScript.Token.Numeral
import StagedScript.Token.Quoted
import StagedScript.Token.Word

/-!
# Lexemes

A text that is not empty starts with a lexeme: a gap that is skipped, a token, or characters that
no token starts with.  A lexeme takes the first character and as many more as its longest form
has, so that reading lexeme after lexeme takes the text apart without losing any of it.
-/

/-!
## Lexical errors

What can be wrong with a text before it is read as a sequence of tokens.
-/

namespace StagedScript

namespace LexError

/-- What is wrong. -/
inductive Cause where
  /-- No token starts with this character. -/
  | unexpected (c : Char)
  /-- A string that is opened by this quote has no end. -/
  | unterminated (quote : Char)
  /-- A number without digits, or an integer that does not fit. -/
  | badNumber
  /-- A line that is indented less than the one before it and like no line around it. -/
  | badUnindent
  /-- A closing bracket without an opening one. -/
  | unmatched (c : Char)
deriving DecidableEq, Repr

/-- The message of a cause. -/
def Cause.message : Cause → String
  | unexpected c => s!"unexpected character '{c}'"
  | unterminated _ => "unterminated string"
  | badNumber => "invalid number"
  | badUnindent => "unindent does not match any outer indentation level"
  | unmatched c => s!"unmatched '{c}'"

/-- What may help against it. -/
def Cause.hint? : Cause → Option String
  | unterminated quote => some s!"add a closing {quote}"
  | badNumber => some "integers must fit in 64 bits"
  | _ => none

end LexError

/-- A lexical error and where it is. -/
structure LexError where
  /-- Where it is. -/
  span : Span
  /-- What is wrong. -/
  cause : LexError.Cause
deriving DecidableEq, Repr

/-- What the start of a text is read as. -/
inductive Lexeme where
  /-- Blanks, a comment, or a backslash that joins two lines. -/
  | gap
  /-- A token. -/
  | token (kind : Token.Kind)
  /-- No token; the error is reported for the lexeme's first character. -/
  | bad (cause : LexError.Cause)
  /-- A number that has no value; the error is reported for all of it. -/
  | badNumber

namespace Lexeme

/-- The blanks that separate tokens within a line. -/
def isBlank (c : Char) : Bool := c == ' ' || c == '\t' || c == '\x0c'

/-- The symbol that starts with a character, if one does. -/
def symbol (c : Char) (cs : List Char) : Lexeme × Nat :=
  match Symbol.atStart? (c :: cs) with
  | some s => (.token (.symbol s), s.chars.length - 1)
  | none => (.bad (.unexpected c), 0)

/-- The number that starts with a digit. -/
def number (c : Char) (cs : List Char) : Lexeme × Nat :=
  let (l, n) := Numeral.literal (c :: cs)
  match l.kind? with
  | some k => (.token k, n - 1)
  | none => (.badNumber, n - 1)

/-- The string that starts with a quote. -/
def quoted (quote : Char) (cs : List Char) : Lexeme × Nat :=
  match Quoted.literal quote (quote :: cs) with
  | .whole text n => (.token (.str (String.ofList text)), n - 1)
  | .broken n => (.bad (.unterminated quote), n - 1)

/-- The word that starts with a letter or underscore. -/
def word (c : Char) (cs : List Char) : Lexeme × Nat :=
  let more := cs.takeWhile Word.isPart
  (.token (Word.kind (String.ofList (c :: more))), more.length)

/-- What a backslash outside a string is: it joins lines if a newline follows. -/
def backslash : List Char → Lexeme × Nat
  | '\n' :: _ => (.gap, 1)
  | '\r' :: '\n' :: _ => (.gap, 2)
  | _ => (.bad (.unexpected '\\'), 0)

/-- The lexeme that starts with `c`, and how many characters behind `c` belong to it. -/
def read (c : Char) (cs : List Char) : Lexeme × Nat :=
  if isBlank c then (.gap, (cs.takeWhile isBlank).length)
  else if c = '#' then (.gap, (cs.takeWhile (· != '\n')).length)
  else if c = '\\' then backslash cs
  else if c = '\n' then (.token .newline, 0)
  else if c = '\r' then
    match cs with
    | '\n' :: _ => (.token .newline, 1)
    | _ => (.bad (.unexpected c), 0)
  else if Word.isStart c then word c cs
  else if c.isDigit then number c cs
  else if c = '"' ∨ c = '\'' then quoted c cs
  else symbol c cs

/-- The error of a lexeme of `taken` bytes that starts at a position with a character. -/
def error? (start : Nat) (c : Char) (taken : Nat) : Lexeme → Option LexError
  | gap | token _ => none
  | badNumber => some ⟨⟨start, start + taken⟩, .badNumber⟩
  | bad cause => some ⟨⟨start, start + c.utf8Size⟩, cause⟩

end Lexeme

namespace Token

/-- How many lexical errors are collected before the rest of the text is given up. -/
def errorLimit : Nat := 20

/-- The tokens of a text that starts at a position, and its errors, of which at most `room` are
collected. -/
def scanFrom (start room : Nat) : List Char → List Token × List LexError
  | [] => ([], [])
  | c :: cs =>
    match room with
    | 0 => ([], [])
    | room + 1 =>
      let (lexeme, n) := Lexeme.read c cs
      let stop := start + Text.byteLength (c :: cs.take n)
      match lexeme, lexeme.error? start c (stop - start) with
      | .token kind, _ =>
        let (tokens, errors) := scanFrom stop (room + 1) (cs.drop n)
        (⟨kind, ⟨start, stop⟩⟩ :: tokens, errors)
      | _, none => scanFrom stop (room + 1) (cs.drop n)
      | _, some error =>
        let (tokens, errors) := scanFrom stop room (cs.drop n)
        (tokens, error :: errors)
termination_by cs => cs.length
decreasing_by all_goals simp only [List.length_drop, List.length_cons]; omega

/-- The tokens of a text, newlines included, without the tokens of its layout. -/
def scan (text : List Char) : List Token × List LexError := scanFrom 0 errorLimit text

end Token

end StagedScript
