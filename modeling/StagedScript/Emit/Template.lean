import StagedScript.Table
import StagedScript.Text.Printable
import StagedScript.Text.Slice

/-!
# Templates

A template is a text with names in braces, which stand for the texts that the names are bound to. A
brace that is meant as such is written twice.
-/

/-!
## Errors of templates
-/

namespace StagedScript

/-- What keeps a text from being a template. -/
inductive TemplateFlaw where
  /-- A brace is opened within a name. -/
  | nestedOpen
  /-- A brace is opened and not closed. -/
  | loneOpen
  /-- There is nothing between the braces. -/
  | emptyName
  /-- A brace is closed that was not opened. -/
  | loneClose
deriving DecidableEq, Repr

/-- The message of a flaw. -/
def TemplateFlaw.message : TemplateFlaw → String
  | nestedOpen => "unexpected '\x7b' in field name"
  | loneOpen => "single '\x7b' encountered"
  | emptyName => "empty field name"
  | loneClose => "single '\x7d' encountered"

/-- Why a line could not be written. -/
inductive EmitError where
  /-- A name of the template is not bound. -/
  | missing (name template : String)
  /-- The text is no template from a byte on. -/
  | malformed (template : String) (position : Nat) (flaw : TemplateFlaw)
deriving DecidableEq, Repr

/-- The message of an error. -/
def EmitError.message : EmitError → String
  | missing name template =>
    "no substitution for '\x7b" ++ name ++ "\x7d' in " ++ Text.quoted template
  | malformed template position flaw =>
    "malformed template " ++ Text.quoted template ++ " at byte " ++ toString position ++ ": "
      ++ flaw.message

/-- The texts that names are bound to. -/
abbrev Bindings := Table String

namespace Template

/-- A piece of a template. -/
inductive Piece where
  /-- A character that stands for itself. -/
  | char (c : Char)
  /-- A name in braces. -/
  | name (x : String)
deriving DecidableEq, Repr

/-- Where a text ceases to be a template, and why. -/
structure Flaw where
  /-- The byte. -/
  position : Nat
  /-- The reason. -/
  what : TemplateFlaw
deriving DecidableEq, Repr

/-- Whether a character is a brace. -/
def isBrace (c : Char) : Bool := c == '\x7b' || c == '\x7d'

/-- The pieces of a text that starts at a byte, up to its first flaw. -/
def read (position : Nat) : List Char → List Piece × Option Flaw
  | [] => ([], none)
  | '\x7b' :: '\x7b' :: cs =>
    let (pieces, flaw) := read (position + 2) cs
    (.char '\x7b' :: pieces, flaw)
  | '\x7d' :: '\x7d' :: cs =>
    let (pieces, flaw) := read (position + 2) cs
    (.char '\x7d' :: pieces, flaw)
  | '\x7d' :: _ => ([], some ⟨position, .loneClose⟩)
  | '\x7b' :: cs =>
    let name := cs.takeWhile fun c => !isBrace c
    let stop := position + 1 + Text.byteLength name
    match h : cs.dropWhile fun c => !isBrace c with
    | [] => ([], some ⟨position, .loneOpen⟩)
    | c :: rest =>
      if c = '\x7b' then ([], some ⟨stop, .nestedOpen⟩)
      else if name.isEmpty then ([], some ⟨position, .emptyName⟩)
      else
        have : rest.length < cs.length := by
          have := (List.dropWhile_sublist (fun c => !isBrace c) (l := cs)).length_le
          rw [h] at this
          exact this
        let (pieces, flaw) := read (stop + 1) rest
        (.name (String.ofList name) :: pieces, flaw)
  | c :: cs =>
    let (pieces, flaw) := read (position + c.utf8Size) cs
    (.char c :: pieces, flaw)
termination_by cs => cs.length

/-- The text that pieces of a template stand for. -/
def fillPieces (template : String) (bindings : Bindings) : List Piece → Except EmitError (List Char)
  | [] => .ok []
  | .char c :: ps => (c :: ·) <$> fillPieces template bindings ps
  | .name x :: ps =>
    match bindings.get? x with
    | none => .error (.missing x template)
    | some text => (text.toList ++ ·) <$> fillPieces template bindings ps

/-- A template with its names replaced.  Of several errors the first in the text is reported. -/
def substitute (template : String) (bindings : Bindings) : Except EmitError String := do
  let (pieces, flaw?) := read 0 template.toList
  let text ← fillPieces template bindings pieces
  match flaw? with
  | none => return String.ofList text
  | some flaw => .error (.malformed template flaw.position flaw.what)

end Template

end StagedScript
