import StagedScript.Text.Slice

/-!
# Lines of a text

A line map holds the positions at which the lines of a text begin.  It answers which line a
position is on and how far into it, both counted from one.  Positions, lines and columns are
32-bit words: they are computed modulo the number of positions.
-/

namespace StagedScript

/-- The positions at which the lines of a text begin. -/
structure LineMap where
  /-- Where the lines after the first begin, in order.  The first begins at 0. -/
  later : List Nat
deriving DecidableEq, Repr, Inhabited

namespace LineMap

/-- The positions just past the newlines of a text that starts at `position`. -/
def newlineEnds (position : Nat) : List Char → List Nat
  | [] => []
  | c :: cs =>
    let next := position + c.utf8Size
    if c = '\n' then next :: newlineEnds next cs else newlineEnds next cs

/-- The lines of a text. -/
def ofText (text : List Char) : LineMap := ⟨newlineEnds 0 text⟩

/-- Where every line begins. -/
def starts (m : LineMap) : List Nat := 0 :: m.later

/-- The number of positions. -/
def positions : Nat := Nat.pow 2 32

/-- How many lines there are: one more than there are newlines. -/
def count (m : LineMap) : Nat := (m.later.length + 1) % positions

/-- The number `n` of lines so far and those of `starts` that begin at or before a position. -/
def lineFrom (position n : Nat) : List Nat → Nat
  | [] => n
  | start :: starts => if start ≤ position then lineFrom position (n + 1) starts else n

/-- The start of the last line that begins at or before a position: one of `starts`, or else
`last`. -/
def startFrom (position last : Nat) : List Nat → Nat
  | [] => last
  | start :: starts => if start ≤ position then startFrom position start starts else last

/-- The line of a position, counted from one. -/
def line (m : LineMap) (offset : Nat) : Nat :=
  lineFrom (offset % positions) 1 m.later % positions

/-- Where the line of a position begins. -/
def lineStart (m : LineMap) (offset : Nat) : Nat := startFrom (offset % positions) 0 m.later

theorem lineFrom_eq_length_takeWhile (position n : Nat) (starts : List Nat) :
    lineFrom position n starts = (starts.takeWhile (· ≤ position)).length + n := by
  induction starts generalizing n with
  | nil => simp [lineFrom]
  | cons s ss ih =>
    by_cases h : s ≤ position
    · simp [lineFrom, h, ih, Nat.add_assoc, Nat.add_comm 1 n]
    · simp [lineFrom, h]

theorem startFrom_eq_getLast_takeWhile (position last : Nat) (starts : List Nat) :
    startFrom position last starts = (starts.takeWhile (· ≤ position)).getLast?.getD last := by
  induction starts generalizing last with
  | nil => simp [startFrom]
  | cons s ss ih =>
    by_cases h : s ≤ position
    · simp [startFrom, h, ih, List.getLast?_cons]
    · simp [startFrom, h]

/-- How far into its line a position is, counted from one. -/
def column (m : LineMap) (offset : Nat) : Nat :=
  (offset % positions - m.lineStart offset + 1) % positions

/-- The text of a line, counted from one, without its newline. -/
def lineText? (m : LineMap) (text : List Char) : Nat → Option (List Char)
  | 0 => none
  | i + 1 => do
    let start ← m.starts[i]?
    let stop := match m.later[i]? with
      | some next => next - 1
      | none => Text.byteLength text
    Text.slice? start stop text

end LineMap

end StagedScript
