import Mathlib.Data.List.Chain
import StagedScript.Proofs.Reading.Hanging

/-!
# What the layout adds to the tokens

The layout of a text adds marks to its tokens and drops newlines, and does nothing else.  It opens
and closes blocks in pairs and at the starts of lines.  Which blocks these are follows from the
columns in which the logical lines of the text start, one line after the other.  Those lines are
reported whose indentation is less than that of the block around them and that of no block further
out.  This holds of every text, also of one with lexical errors and with brackets that are opened or
closed too often.
-/

namespace StagedScript

/-!
## Tokens and what stands between them

Any text, with lexical errors or without, is taken apart into its tokens and what is skipped in
front of each: blanks, comments, joined lines, and the characters that no token starts with.
-/

/-- The token is no mark of the layout but a newline, and a newline ends a line of the text. -/
def Piece.Solid (p : Piece) : Prop :=
  p.kind.Inner ∨ p.kind = .newline ∧ ∃ cs, p.chars = cs ++ ['\n']

namespace Piece

/-- Pieces with more characters in front, which are skipped. -/
theorem exists_skip (skipped : List Char) {ps : List Piece} (hps : ∀ p ∈ ps, p.Solid)
    (tail : List Char) (start : Nat) :
    ∃ qs tail', skipped ++ (text ps ++ tail) = text qs ++ tail' ∧
      place (start + Text.byteLength skipped) ps = place start qs ∧ ∀ q ∈ qs, q.Solid := by
  cases ps with
  | nil => exact ⟨[], skipped ++ tail, rfl, rfl, by simp⟩
  | cons p ps =>
    refine ⟨⟨skipped ++ p.gap, p.kind, p.chars⟩ :: ps, tail, ?_, ?_, ?_⟩
    · simp [text]
    · simp [place, Nat.add_assoc]
    · obtain ⟨hp, hps⟩ := List.forall_mem_cons.1 hps
      exact List.forall_mem_cons.2 ⟨hp, hps⟩

/-- A token that a text starts with is solid. -/
theorem solid_of_read {c : Char} {cs : List Char} {kind : Token.Kind} {n : Nat}
    (h : Lexeme.read c cs = (.token kind, n)) : (⟨[], kind, c :: cs.take n⟩ : Piece).Solid := by
  rcases (Lexeme.read_token h).2 with hinner | ⟨hkind, ⟨rfl, rfl⟩ | ⟨rfl, rfl, rest, rfl⟩⟩
  · exact .inl hinner
  · exact .inr ⟨hkind, [], rfl⟩
  · exact .inr ⟨hkind, ['\r'], rfl⟩

end Piece

/-- What a text is scanned as are tokens that stand in it one after the other. -/
theorem Token.pieces_of_scan (start room : Nat) (cs : List Char) :
    ∃ ps tail, cs = Piece.text ps ++ tail ∧ (scanFrom start room cs).1 = Piece.place start ps ∧
      ∀ p ∈ ps, p.Solid := by
  -- A lexeme takes at least one character, so what is left is shorter.
  induction hn : cs.length using Nat.strongRecOn generalizing cs start room with
  | ind n ih =>
    cases cs with
    | nil => exact ⟨[], [], rfl, by rw [scanFrom]; rfl, by simp⟩
    | cons c cs =>
      cases room with
      | zero => exact ⟨[], c :: cs, rfl, by rw [scanFrom]; rfl, by simp⟩
      | succ room =>
        cases hread : Lexeme.read c cs with
        | mk lexeme k =>
        have hlt : (cs.drop k).length < n := by
          rw [← hn, List.length_drop, List.length_cons]
          omega
        have hcs : c :: cs = (c :: cs.take k) ++ cs.drop k := by
          rw [List.cons_append, List.take_append_drop]
        -- Whatever is no token is skipped, whether it is an error or not.
        have hskip (room' : Nat) (h : (scanFrom start (room + 1) (c :: cs)).1 =
            (scanFrom (start + Text.byteLength (c :: cs.take k)) room' (cs.drop k)).1) :
            ∃ ps tail, c :: cs = Piece.text ps ++ tail ∧
              (scanFrom start (room + 1) (c :: cs)).1 = Piece.place start ps ∧
              ∀ p ∈ ps, p.Solid := by
          obtain ⟨ps, tail, hrest, hplace, hps⟩ :=
            ih _ hlt (start + Text.byteLength (c :: cs.take k)) room' _ rfl
          obtain ⟨qs, tail', htext, hplace', hqs⟩ :=
            Piece.exists_skip (c :: cs.take k) hps tail start
          refine ⟨qs, tail', ?_, ?_, hqs⟩
          · rw [← htext, ← hrest, ← hcs]
          · rw [h, hplace, hplace']
        cases lexeme with
        | gap => exact hskip (room + 1) (by rw [scanFrom_gap hread])
        | token kind =>
          obtain ⟨ps, tail, hrest, hplace, hps⟩ :=
            ih _ hlt (start + Text.byteLength (c :: cs.take k)) (room + 1) _ rfl
          refine ⟨⟨[], kind, c :: cs.take k⟩ :: ps, tail, ?_, ?_, ?_⟩
          · conv_lhs => rw [hcs, hrest]
            simp [Piece.text]
          · rw [scanFrom_token hread, hplace]
            simp [Piece.place, Text.byteLength]
          · exact List.forall_mem_cons.2 ⟨Piece.solid_of_read hread, hps⟩
        | bad cause => exact hskip room (by rw [scanFrom, hread]; simp [Lexeme.error?])
        | badNumber => exact hskip room (by rw [scanFrom, hread]; simp [Lexeme.error?])

namespace Layout

open Token (Kind depthAfter)

/-! ## Lines and their indentation -/

/-- The indentation of a position: the width of what is in front of it on its line. -/
def column (text : List Char) (position : Nat) : Nat :=
  indentation ((Text.takeBytes? position text).getD [])

/-- Whether a token stands for characters of a text and ends no line. -/
def isInner (t : Token) : Bool :=
  match t.kind with
  | .newline | .indent | .dedent | .eof => false
  | _ => true

/-- How many brackets are open behind a token, if `n` are open in front of it. -/
def bracketsAfter (n : Nat) (t : Token) : Nat :=
  match t.kind with
  | .symbol c => if c.opens then n + 1 else if c.closes then n - 1 else n
  | _ => n

/-- A logical line of a text. -/
structure LogicalLine where
  /-- The first token. -/
  first : Token
  /-- The tokens behind it, without the newlines among them. -/
  more : List Token
  /-- The newline that ends the line, if the text does not. -/
  stop? : Option Token

/-- The line that has been read where one ends.  Without tokens it is blank, which is no line. -/
def endLine : List Token → Option Token → List LogicalLine
  | [], _ => []
  | first :: more, stop? => [⟨first, more, stop?⟩]

/-- The logical lines of tokens.  A newline outside of brackets ends a line.  `line` has been read
of the line that the tokens start in, and `n` brackets are open there. -/
def linesFrom (line : List Token) (n : Nat) : List Token → List LogicalLine
  | [] => endLine line none
  | t :: ts =>
    match t.kind with
    | .newline => if n = 0 then endLine line (some t) ++ linesFrom [] 0 ts else linesFrom line n ts
    | _ => linesFrom (line ++ [t]) (bracketsAfter n t) ts

/-- The logical lines of the tokens of a text. -/
def lines (raw : List Token) : List LogicalLine := linesFrom [] 0 raw

/-- The indentations of the blocks that are open behind the start of a line, the innermost first.  A
line that is indented by `w`, more than the innermost block, opens a block.  Any other line closes
the blocks that are indented more than it is. -/
def levelsBehind (w : Nat) (levels : List Nat) : List Nat :=
  if levels.headD 0 < w then w :: levels else levels.filter (· ≤ w)

/-- The marks in front of a line that is indented by `w`: one for the block that it opens, or one
for each that it closes. -/
def marksBefore (w position : Nat) (levels : List Nat) : List Token :=
  if levels.headD 0 < w then [mark .indent position]
  else (levels.filter (w < ·)).map fun _ => mark .dedent position

/-- The marks behind the last line of a text, which close the open blocks. -/
def closing (levels : List Nat) (stop : Nat) : List Token :=
  levels.map (fun _ => mark .dedent stop) ++ [mark .eof stop]

/-- The logical lines of a text with the marks in front of each.  `levels` are the indentations of
the blocks that are open in front of the first one. -/
def laidOut (text : List Char) (levels : List Nat) : List LogicalLine → List Token
  | [] => closing levels (Text.byteLength text)
  | line :: lines =>
    let position := line.first.span.start
    let w := column text position
    marksBefore w position levels ++ line.first :: line.more ++
      line.stop?.getD (mark .newline (Text.byteLength text)) ::
        laidOut text (levelsBehind w levels) lines

/-- A line that is indented by `w` is indented less than the innermost block, and like no open
block.  Outside of all blocks the indentation is zero. -/
def misfits (w : Nat) (levels : List Nat) : Bool :=
  w < levels.headD 0 && !(levels ++ [0]).contains w

/-- The error for a line that fits nowhere. -/
def unindentError (position : Nat) : LexError := ⟨⟨position, position + 1⟩, .badUnindent⟩

/-- The errors for a line. -/
def lineErrors (w position : Nat) (levels : List Nat) : List LexError :=
  if misfits w levels then [unindentError position] else []

/-- The errors for the logical lines of a text that fit nowhere. -/
def unindentErrors (text : List Char) (levels : List Nat) : List LogicalLine → List LexError
  | [] => []
  | line :: lines =>
    let position := line.first.span.start
    let w := column text position
    lineErrors w position levels ++ unindentErrors text (levelsBehind w levels) lines

/-- The errors about unindents. -/
def unindents (errors : List LexError) : List LexError :=
  errors.filter (·.cause = .badUnindent)

/-- The second kind may stand directly behind the first: blocks are opened and closed at the starts
of lines, and a line is not empty. -/
structure Adjacent (a b : Kind) : Prop where
  indent : b = .indent → a = .newline
  dedent : b = .dedent → a = .newline ∨ a = .dedent
  newline : b = .newline → a ≠ .newline

/-- The tokens `out` are the tokens `raw` in a frame of marks. -/
structure Framed (raw out : List Token) : Prop where
  /-- The sequence ends with the end of the text, which stands nowhere else. -/
  eof : ∃ front last, out = front ++ [last] ∧ last.kind = .eof ∧ ∀ t ∈ front, t.kind ≠ .eof
  /-- No block is closed that is not open. -/
  nested : ∀ front, front <+: out →
    front.countP (·.kind.alike .dedent) ≤ front.countP (·.kind.alike .indent)
  /-- Every block is closed. -/
  paired : out.countP (·.kind.alike .dedent) = out.countP (·.kind.alike .indent)
  /-- The first token closes no block. -/
  head : ∀ t, out.head? = some t → t.kind ≠ .dedent
  /-- Marks stand where lines start. -/
  adjacent : (out.map Token.kind).IsChain Adjacent
  /-- All tokens are kept in their order. -/
  words : out.filter isInner = raw.filter (!·.kind.alike .newline)

/-- The tokens `out` are the tokens `raw` of a text with its layout marked, and `errors` are those
of the layout. -/
structure Marked (text : List Char) (raw out : List Token) (errors : List LexError) : Prop
    extends Framed raw out where
  /-- The marks follow from the indentation of the lines of the text. -/
  blocks : out = laidOut text [] (lines raw)
  /-- The lines that fit nowhere are reported, each once, and no others. -/
  unindents : unindents errors = unindentErrors text [] (lines raw)

/-! ## Kinds -/

theorem isInner_of_inner {t : Token} (h : t.kind.Inner) : isInner t = true := by
  unfold isInner
  obtain ⟨⟨hindent, hdedent⟩, hnewline, heof⟩ := h
  split <;> simp_all

theorem adjacent_inner (a : Kind) {b : Kind} (hb : b.Inner) : Adjacent a b :=
  ⟨fun h => absurd h hb.1.1, fun h => absurd h hb.1.2, fun h => absurd h hb.2.1⟩

theorem adjacent_indent : Adjacent .newline .indent := ⟨fun _ => rfl, by simp, by simp⟩

theorem adjacent_dedent {a : Kind} (ha : a = .newline ∨ a = .dedent) : Adjacent a .dedent :=
  ⟨by simp, fun _ => ha, by simp⟩

theorem adjacent_newline {a : Kind} (ha : a ≠ .newline) : Adjacent a .newline :=
  ⟨by simp, by simp, fun _ => ha⟩

theorem adjacent_eof (a : Kind) : Adjacent a .eof := ⟨by simp, by simp, by simp⟩

/-! ## Depth -/

/-- The blocks that are open behind tokens are those that are opened and not closed. -/
theorem countP_of_depthAfter {ts : List Token} {d e : Nat}
    (h : depthAfter d (ts.map Token.kind) = some e) :
    d + ts.countP (·.kind.alike .indent) = e + ts.countP (·.kind.alike .dedent) := by
  induction ts generalizing d with
  | nil =>
    cases h
    rfl
  | cons t ts ih =>
    rw [List.map_cons] at h
    rw [List.countP_cons, List.countP_cons]
    by_cases hflat : t.kind.Flat
    · rw [Token.depthAfter_flat hflat] at h
      have hindent : ¬ t.kind.alike .indent = true := fun ht =>
        hflat.1 ((Kind.alike_iff (by trivial)).1 ht)
      have hdedent : ¬ t.kind.alike .dedent = true := fun ht =>
        hflat.2 ((Kind.alike_iff (by trivial)).1 ht)
      rw [if_neg hindent, if_neg hdedent]
      exact ih h
    · rcases Token.Kind.eq_of_not_flat hflat with hkind | hkind
      · rw [hkind, Token.depthAfter_indent] at h
        have hcount := ih h
        rw [if_pos ((Kind.alike_iff (by trivial)).2 hkind), if_neg (by rw [hkind]; decide)]
        omega
      · rw [hkind] at h
        cases d with
        | zero => cases h
        | succ d =>
          have hcount := ih (d := d) h
          rw [if_pos ((Kind.alike_iff (by trivial)).2 hkind), if_neg (by rw [hkind]; decide)]
          omega

theorem nested_of_depthAfter {ts front : List Token} {e : Nat}
    (h : depthAfter 0 (ts.map Token.kind) = some e) (hfront : front <+: ts) :
    front.countP (·.kind.alike .dedent) ≤ front.countP (·.kind.alike .indent) := by
  obtain ⟨back, rfl⟩ := hfront
  rw [List.map_append, Token.depthAfter_append] at h
  obtain ⟨d, hd, -⟩ := Option.bind_eq_some_iff.1 h
  have := countP_of_depthAfter hd
  omega

end Layout

end StagedScript
