import StagedScript.Source.LineMap

/-!
# Sources and locations

A source is a labelled text.  Spans point into it, and a location is what a reader is told about
a span: the label, the line and the column where it starts.
-/

/-!
## Spans

A span is a stretch of a source text, given by the byte positions at which it starts and stops.
-/

namespace StagedScript

/-- A stretch of a text. -/
structure Span where
  /-- The position of its first byte. -/
  start : Nat
  /-- The position just past its last byte. -/
  stop : Nat
deriving DecidableEq, Repr, Inhabited

namespace Span

/-- The empty span at a position. -/
def point (position : Nat) : Span := ⟨position, position⟩

/-- The smallest span that covers both. -/
def cover (a b : Span) : Span := ⟨min a.start b.start, max a.stop b.stop⟩

/-- The span moved on by `n` bytes. -/
def shift (n : Nat) (s : Span) : Span := ⟨s.start + n, s.stop + n⟩

end Span

/-- A labelled text, from which a unit was read. -/
structure Source where
  /-- What diagnostics print in front of the line. -/
  label : String
  /-- The text itself. -/
  text : String
deriving DecidableEq, Repr, Inhabited

namespace Source

/-- The characters of the text. -/
def chars (s : Source) : List Char := s.text.toList

/-- Where its lines begin. -/
def lines (s : Source) : LineMap := LineMap.ofText s.chars

/-- The text of a span, widened to the start of its first line so that the indentation is kept.
A span that cuts a character, or whose first line begins after its end, has no text. -/
def linesOf (s : Source) (span : Span) : String :=
  let stop := min span.stop (Text.byteLength s.chars)
  String.ofList ((Text.slice? (s.lines.lineStart span.start) stop s.chars).getD [])

end Source

/-- A place in a source, as it is reported. -/
structure Location where
  /-- The label of the source. -/
  label : String
  /-- The line, counted from one and shifted by the tree's line offset. -/
  line : Int
  /-- The column in bytes, counted from one. -/
  column : Nat
deriving DecidableEq, Repr, Inhabited

namespace Location

/-- Where a span starts in a text with these lines, its line shifted by `lineOffset`. -/
def ofLines (label : String) (lines : LineMap) (lineOffset : Int) (span : Span) : Location where
  label := label
  line := lines.line span.start + lineOffset
  column := lines.column span.start

/-- Where a span starts, its line shifted by `lineOffset`. -/
def ofSpan (source : Source) (lineOffset : Int) (span : Span) : Location :=
  ofLines source.label source.lines lineOffset span

/-- The form `label:line:column`. -/
def text (l : Location) : String := s!"{l.label}:{l.line}:{l.column}"

/-- The form in front of a message. -/
def lead (l : Location) : String := l.text ++ ": "

end Location

end StagedScript
