import StagedScript.Text.Blank

/-!
# Margins

A block of text loses the margin that all of its lines have in common.  Lines of white space alone
do not count for the margin, and come out empty.
-/

namespace StagedScript.Text

/-- The lines of a text that are ended by a line feed, without it, and what follows the last. -/
def endedLines : List Char → List (List Char) × List Char
  | [] => ([], [])
  | c :: cs =>
    let (lines, rest) := endedLines cs
    if c = '\n' then ([] :: lines, rest)
    else
      match lines with
      | [] => ([], c :: rest)
      | line :: lines => ((c :: line) :: lines, rest)

/-- A line without the carriage return at its end. -/
def dropReturn (line : List Char) : List Char :=
  if line.getLast? = some '\r' then line.dropLast else line

/-- The lines of a block.  A carriage return in front of a line feed belongs to the line's end, and
what follows the last line feed is a line unless it is white space alone. -/
def blockLines (cs : List Char) : List (List Char) :=
  let (lines, rest) := endedLines cs
  let last := if rest.isEmpty || (!lines.isEmpty && rest.all isBlank) then [] else [rest]
  lines.map dropReturn ++ last

/-- The longest text that two texts start with. -/
def commonPrefix : List Char → List Char → List Char
  | a :: as, b :: bs => if a = b then a :: commonPrefix as bs else []
  | _, _ => []

/-- The white space that a line starts with. -/
def indentOf (line : List Char) : List Char := line.takeWhile isBlank

/-- The white space that all lines start with, those of white space alone aside. -/
def margin (lines : List (List Char)) : List Char :=
  match (lines.filter fun line => !line.all isBlank).map indentOf with
  | [] => []
  | m :: ms => ms.foldl commonPrefix m

/-- The lines of a block without their margin. -/
def dedent (cs : List Char) : List (List Char) :=
  let lines := blockLines cs
  let cut := (margin lines).length
  lines.map fun line => if line.all isBlank then [] else line.drop cut

end StagedScript.Text
