import StagedScript.Token.Lexeme

/-!
# Layout

Indentation stands for blocks.  The layout of a sequence of tokens marks where blocks start and
end: a logical line that is indented more than the one before opens a block, and one that is
indented less closes blocks until its own level is reached.  Newlines inside brackets and of
blank lines are dropped.  The sequence ends with a newline unless it is at the start of a line,
the ends of the blocks that are still open, and the end of the text.
-/

namespace StagedScript.Layout

/-- A tab moves on to the next multiple of this. -/
def tabStop : Nat := 8

/-- The width of the characters in front of the first token of a line. -/
def width (cs : List Char) : Nat :=
  cs.foldl (fun w c => if c = '\t' then (w / tabStop + 1) * tabStop else w + 1) 0

/-- What stands behind the last newline of a text. -/
def lineHead (cs : List Char) : List Char := (cs.reverse.takeWhile (· != '\n')).reverse

/-- How far the first token of a logical line is indented, given the characters between it and the
token in front of it.  That one is a newline if there is one, so that the physical line of the first
token starts within these characters or in front of them. -/
def indentation (gap : List Char) : Nat := width (lineHead gap)

/-- Where the layout stands between two tokens. -/
structure State where
  /-- The indentations of the open blocks, the innermost first. -/
  levels : List Nat
  /-- How many brackets are open. -/
  brackets : Nat
  /-- Whether no token of the logical line has been met. -/
  fresh : Bool
deriving DecidableEq, Repr, Inhabited

namespace State

/-- The start of a text. -/
def start : State := ⟨[], 0, true⟩

/-- The indentation of the innermost open block. -/
def level (s : State) : Nat := s.levels.headD 0

end State

/-- What one token contributes. -/
structure Step where
  /-- The state behind it. -/
  state : State
  /-- The tokens that it is replaced by. -/
  tokens : List Token
  /-- The errors found. -/
  errors : List LexError

/-- A token that the layout adds at a position. -/
def mark (kind : Token.Kind) (position : Nat) : Token := ⟨kind, Span.point position⟩

/-- Opens or closes blocks in front of the first token of a logical line, which is indented by
`w` and stands at `position`. -/
def indent (w position : Nat) (s : State) : Step :=
  if s.level < w then
    ⟨{ s with levels := w :: s.levels, fresh := false }, [mark .indent position], []⟩
  else
    let closed := s.levels.takeWhile (w < ·)
    let levels := s.levels.drop closed.length
    ⟨{ s with levels, fresh := false }, closed.map fun _ => mark .dedent position,
      if w = levels.headD 0 then [] else [⟨⟨position, position + 1⟩, .badUnindent⟩]⟩

/-- Counts the brackets that a token opens or closes. -/
def bracket (t : Token) (s : State) : Step :=
  match t.kind with
  | .symbol c =>
    if c.opens then ⟨{ s with brackets := s.brackets + 1 }, [t], []⟩
    else if c.closes then
      match s.brackets with
      | 0 => ⟨s, [t], [⟨⟨t.span.start, t.span.start + 1⟩, .unmatched (c.chars.headD ')')⟩]⟩
      | n + 1 => ⟨{ s with brackets := n }, [t], []⟩
    else ⟨s, [t], []⟩
  | _ => ⟨s, [t], []⟩

/-- What a newline contributes: nothing inside brackets and on a blank line. -/
def newline (t : Token) (s : State) : Step :=
  if s.brackets = 0 && !s.fresh then ⟨{ s with fresh := true }, [t], []⟩ else ⟨s, [], []⟩

/-- What a token contributes; `gap` are the characters between it and the token in front of it. -/
def step (gap : List Char) (t : Token) (s : State) : Step :=
  match t.kind with
  | .newline => newline t s
  | _ =>
    let first := if s.fresh && s.brackets = 0
      then indent (indentation gap) t.span.start s else ⟨s, [], []⟩
    let last := bracket t first.state
    ⟨last.state, first.tokens ++ last.tokens, first.errors ++ last.errors⟩

/-- The tokens that end the sequence. -/
def finish (stop : Nat) (s : State) : List Token :=
  (if s.fresh then [] else [mark .newline stop])
    ++ s.levels.map (fun _ => mark .dedent stop) ++ [mark .eof stop]

/-- The layout of the tokens from a state on.  `text` is what stands at the position `start` and
behind it. -/
def resolveFrom (start : Nat) (text : List Char) (s : State) :
    List Token → List Token × List LexError
  | [] => (finish (start + Text.byteLength text) s, [])
  | t :: ts =>
    let gap := (Text.takeBytes? (t.span.start - start) text).getD []
    let rest := (Text.dropBytes? (t.span.stop - start) text).getD []
    let here := step gap t s
    let (tokens, errors) := resolveFrom t.span.stop rest here.state ts
    (here.tokens ++ tokens, here.errors ++ errors)

/-- The tokens of a text with its layout marked. -/
def resolve (text : List Char) (tokens : List Token) : List Token × List LexError :=
  resolveFrom 0 text .start tokens

end StagedScript.Layout

namespace StagedScript

/-- A text as a sequence of tokens with its layout marked. -/
structure Lexed where
  /-- The tokens; the last one is the end of the text. -/
  tokens : List Token
  /-- The errors of the text, and behind them those of its layout. -/
  errors : List LexError

/-- Reads a text as tokens. -/
def Lexed.ofText (text : List Char) : Lexed :=
  let (raw, errors) := Token.scan text
  let (tokens, layoutErrors) := Layout.resolve text raw
  ⟨tokens, errors ++ layoutErrors⟩

end StagedScript
