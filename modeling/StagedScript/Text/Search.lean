import StagedScript.Text.Blank

/-!
# Searching and replacing in texts

Cutting a text at the occurrences of another, from the left and without overlap.
-/

namespace StagedScript.Text

/-- The text in front of the first occurrence of a pattern and the text behind it. -/
def cut? (pattern : List Char) : List Char → Option (List Char × List Char)
  | [] => if pattern.isEmpty then some ([], []) else none
  | c :: cs =>
    if pattern.isPrefixOf (c :: cs) then some ([], (c :: cs).drop pattern.length)
    else (cut? pattern cs).map fun (front, back) => (c :: front, back)

/-- Whether a pattern occurs in a text. -/
def contains (pattern cs : List Char) : Bool := (cut? pattern cs).isSome

/-- The pieces of a text between the occurrences of a pattern, with at most `n` cuts. -/
def splitWithin (pattern : List Char) : Nat → List Char → List (List Char)
  | 0, cs => [cs]
  | n + 1, cs =>
    match cut? pattern cs with
    | some (front, back) => front :: splitWithin pattern n back
    | none => [cs]

/-- The pieces of a text between the occurrences of a pattern that is not empty. -/
def split (pattern cs : List Char) : List (List Char) := splitWithin pattern cs.length cs

/-- A text with a pattern replaced wherever it occurs.  The empty pattern occurs in front of every
character and at the end. -/
def replace (pattern replacement cs : List Char) : List Char :=
  if pattern.isEmpty then replacement ++ cs.flatMap fun c => c :: replacement
  else replacement.intercalate (split pattern cs)

end StagedScript.Text
