import StagedScript.Proofs.Parsing.Sites
import StagedScript.Proofs.Reading.Margins
import StagedScript.Proofs.Specializing.Origins

/-!
# The lines that are reported for functions made anew

The lines of a function stand in the maker that is written around it one line further down.  What is
reported for them are the lines at which they stand in the text of the function.
-/

namespace StagedScript

/-! ## Lines of a text -/

namespace Text

/-- The lines of a text.  What follows the last line feed is one as well. -/
def allLines (cs : List Char) : List (List Char) := (endedLines cs).1 ++ [(endedLines cs).2]

/-- Where a line of a text starts: behind those in front of it and their ends. -/
def offsetOfLine (cs : List Char) (i : Nat) : Nat := byteLength (ended ((allLines cs).take i) [])

theorem newline_not_mem_allLines {cs line : List Char} (h : line ∈ allLines cs) : '\n' ∉ line := by
  obtain ⟨hlines, hrest⟩ := newline_not_mem_endedLines cs
  rcases List.mem_append.1 h with h | h
  · exact hlines line h
  · rwa [List.mem_singleton.1 h]

theorem ended_append (xs ys : List (List Char)) (rest : List Char) :
    ended (xs ++ ys) rest = ended xs (ended ys rest) := by
  simp [ended]

/-- A text is made of the lines in front of one of its lines, the line and the text behind it. -/
theorem exists_of_allLines {cs line : List Char} {i : Nat} (h : (allLines cs)[i]? = some line) :
    ∃ back, cs = ended ((allLines cs).take i) (line ++ back) := by
  cases hended : endedLines cs with
  | mk lines rest =>
  obtain ⟨rfl, -, -⟩ := endedLines_eq_iff.1 hended
  rw [allLines, hended] at h ⊢
  obtain ⟨hi, hline⟩ := List.getElem?_eq_some_iff.1 h
  rw [List.length_append, List.length_singleton] at hi
  rw [List.take_append_of_le_length (Nat.le_of_lt_succ hi)]
  rcases Nat.lt_succ_iff_lt_or_eq.1 hi with hlt | rfl
  · refine ⟨'\n' :: ended (lines.drop (i + 1)) rest, ?_⟩
    rw [List.getElem_append_left hlt] at hline
    rw [← hline, ← ended_cons, ← ended_append, ← List.drop_eq_getElem_cons hlt,
      List.take_append_drop]
  · rw [List.getElem_append_right (Nat.le_refl _)] at hline
    refine ⟨[], ?_⟩
    rw [List.take_length, List.append_nil, ← hline]
    simp

/-- The first line of a text is not empty if the text does not start with its end. -/
theorem exists_ne_nil_of_allLines {cs line : List Char} {i : Nat}
    (h : (allLines cs)[i + 1]? = some line) (hfirst : ∀ rest, cs ≠ '\n' :: rest) :
    ∃ full ∈ (allLines cs).take (i + 1), full ≠ [] := by
  obtain ⟨back, hback⟩ := exists_of_allLines h
  cases hlines : allLines cs with
  | nil =>
    rw [hlines] at h
    cases h
  | cons first lines =>
    refine ⟨first, by simp, ?_⟩
    rintro rfl
    rw [hlines, List.take_succ_cons, ended_cons] at hback
    exact hfirst _ hback

/-- A text that ends with a line is that of lines. -/
theorem exists_ended {done : List Char} (h : done = [] ∨ ∃ front, done = front ++ ['\n']) :
    ∃ lines, (∀ line ∈ lines, '\n' ∉ line) ∧ done = ended lines [] := by
  rcases h with rfl | ⟨front, rfl⟩
  · exact ⟨[], by simp, rfl⟩
  · cases hended : endedLines front with
    | mk lines rest =>
    obtain ⟨rfl, hlines, hrest⟩ := endedLines_eq_iff.1 hended
    exact ⟨lines ++ [rest], List.forall_mem_append.2 ⟨hlines, by simpa using hrest⟩,
      by simp [ended]⟩

/-- Lines with a margin below another line are lines of the text. -/
theorem allLines_below {width : Nat} {header : List Char} {lines : List (List Char)}
    (hheader : '\n' ∉ header) (hlines : ∀ line ∈ lines, '\n' ∉ line) :
    allLines (header ++ below width lines) =
      header :: lines.map (List.replicate width ' ' ++ ·) := by
  induction lines generalizing header with
  | nil => simp [allLines, below, endedLines_of_not_mem hheader]
  | cons line lines ih =>
    obtain ⟨hline, hlines⟩ := List.forall_mem_cons.1 hlines
    have hmargin : '\n' ∉ List.replicate width ' ' ++ line := by
      rw [List.mem_append, not_or]
      exact ⟨fun hmem => absurd (List.eq_of_mem_replicate hmem) (by decide), hline⟩
    have hrest := ih hmargin hlines
    rw [below_cons, allLines, endedLines_line hheader, ← List.append_assoc,
      List.cons_append, ← allLines, hrest, List.map_cons]

/-- The lines of a block that ends with no white space. -/
theorem blockLines_eq {cs : List Char} (hlast : ∃ front d, cs = front ++ [d] ∧ isBlank d = false) :
    blockLines cs = (allLines cs).map dropReturn := by
  cases hended : endedLines cs with
  | mk lines rest =>
  obtain ⟨htext, hlines, hrest⟩ := endedLines_eq_iff.1 hended
  obtain ⟨front, d, hfront, hd⟩ := hlast
  obtain ⟨hreturn, hblank⟩ := last_of_ended (hfront.symm.trans htext) hd
  have hwhole : dropReturn rest = rest := if_neg hreturn
  rw [allLines, hended, List.map_append, List.map_singleton, hwhole, htext,
    blockLines_ended hlines hrest hblank]

end Text

/-! ## Positions on lines -/

namespace LineMap

open Text (ended)

/-- No line starts between the start of a line and its end. -/
theorem lineFrom_ended {position n start : Nat} {lines : List (List Char)} {line back : List Char}
    (hlines : ∀ line ∈ lines, '\n' ∉ line) (hline : '\n' ∉ line)
    (hfirst : start + Text.byteLength (ended lines []) ≤ position)
    (hlast : position ≤ start + Text.byteLength (ended lines []) + Text.byteLength line) :
    lineFrom position n (newlineEnds start (ended lines (line ++ back))) = n + lines.length := by
  induction lines generalizing n start with
  | nil =>
    have hbehind : (newlineEnds (start + Text.byteLength line) back).takeWhile (· ≤ position) =
        [] := by
      rw [List.takeWhile_eq_nil_iff]
      intro hpos h
      have hlt := (lt_of_mem_newlineEnds (List.get_mem _ ⟨0, hpos⟩)).1
      exact Nat.not_le.2 (Nat.lt_of_le_of_lt hlast hlt) (of_decide_eq_true h)
    change lineFrom position n (newlineEnds start (line ++ back)) = n
    rw [newlineEnds_append, newlineEnds_of_not_mem hline, List.nil_append,
      lineFrom_eq_length_takeWhile, hbehind, List.length_nil, Nat.zero_add]
  | cons first lines ih =>
    obtain ⟨hnewline, hlines⟩ := List.forall_mem_cons.1 hlines
    rw [Text.ended_cons, Text.byteLength_append, Text.byteLength, ← Nat.add_assoc, ← Nat.add_assoc]
      at hfirst hlast
    rw [Text.ended_cons, newlineEnds_append, newlineEnds_of_not_mem hnewline, List.nil_append,
      newlineEnds, if_pos rfl, lineFrom, if_pos (by omega), ih hlines hfirst hlast,
      List.length_cons, Nat.add_assoc, Nat.add_comm 1]

/-- The line of a position. -/
theorem line_ended {offset : Nat} {lines : List (List Char)} {line back : List Char}
    (hlines : ∀ line ∈ lines, '\n' ∉ line) (hline : '\n' ∉ line) (hoffset : offset < positions)
    (hfirst : Text.byteLength (ended lines []) ≤ offset)
    (hlast : offset ≤ Text.byteLength (ended lines []) + Text.byteLength line) :
    (ofText (ended lines (line ++ back))).line offset = (lines.length + 1) % positions := by
  rw [LineMap.line, ofText, Nat.mod_eq_of_lt hoffset,
    lineFrom_ended hlines hline (by omega) (by omega), Nat.add_comm]

end LineMap

/-- What is reported for all positions from one on up to the end of a line, or of a part of one. -/
def Source.Reports (source : Source) (lineOffset : Int) (start : Nat) (line : List Char)
    (label : String) (n : Int) : Prop :=
  ∀ span : Span, start ≤ span.start → span.start ≤ start + Text.byteLength line →
    span.start < LineMap.positions → (Location.ofSpan source lineOffset span).label = label ∧
      (Location.ofSpan source lineOffset span).line = n

/-- Lines that are not all empty have more bytes than there are lines. -/
theorem Text.length_lt_byteLength_ended {lines : List (List Char)} {line : List Char}
    (hmem : line ∈ lines) (hline : line ≠ []) : lines.length < byteLength (ended lines []) := by
  have hfeed : Char.utf8Size '\n' = 1 := rfl
  have hle (ls : List (List Char)) : ls.length ≤ byteLength (ended ls []) := by
    induction ls with
    | nil => exact Nat.le_refl 0
    | cons l ls ih =>
      rw [ended_cons, byteLength_append, byteLength, List.length_cons]
      omega
  obtain ⟨front, behind, rfl⟩ := List.append_of_mem hmem
  have hfront := hle front
  have hbehind := hle behind
  obtain ⟨c, cs, rfl⟩ := List.exists_cons_of_ne_nil hline
  have hc := c.utf8Size_pos
  have hended : ended (front ++ (c :: cs) :: behind) [] =
      ended front [] ++ ((c :: cs) ++ '\n' :: ended behind []) := by simp [ended]
  rw [hended, byteLength_append, byteLength_append, byteLength, byteLength, List.length_append,
    List.length_cons]
  omega

/-- What is reported for the line behind other lines. -/
theorem Source.reports_ended {source : Source} {lines : List (List Char)} {line back : List Char}
    (hsource : source.chars = Text.ended lines (line ++ back))
    (hlines : ∀ line ∈ lines, '\n' ∉ line) (hline : '\n' ∉ line) (lineOffset : Int) :
    source.Reports lineOffset (Text.byteLength (Text.ended lines [])) line source.label
      (((lines.length + 1) % LineMap.positions : Nat) + lineOffset) := by
  intro span hfirst hlast hsize
  refine ⟨rfl, ?_⟩
  change ((LineMap.ofText source.chars).line span.start : Int) + lineOffset = _
  rw [hsource, LineMap.line_ended hlines hline hsize hfirst hlast]

/-- The number of a line fits in a word if one of the lines in front of it is not empty. -/
theorem Source.reports_ended_of_ne_nil {source : Source} {lines : List (List Char)}
    {line back full : List Char} (hsource : source.chars = Text.ended lines (line ++ back))
    (hlines : ∀ line ∈ lines, '\n' ∉ line) (hline : '\n' ∉ line) (hmem : full ∈ lines)
    (hfull : full ≠ []) (lineOffset : Int) :
    source.Reports lineOffset (Text.byteLength (Text.ended lines [])) line source.label
      (lines.length + 1 + lineOffset) := by
  intro span hfirst hlast hsize
  have hcount := Text.length_lt_byteLength_ended hmem hfull
  have hword : (lines.length + 1) % LineMap.positions = lines.length + 1 :=
    Nat.mod_eq_of_lt (by omega)
  have hreports := Source.reports_ended hsource hlines hline lineOffset span hfirst hlast hsize
  rwa [hword] at hreports

/-! ## The lines of a definition -/

/-- How much white space a block loses in front of its lines. -/
def Text.marginWidth (cs : List Char) : Nat := (margin (blockLines cs)).length

namespace Stretch

variable {source : Source} {span : Span} {done margin chars behind : List Char}
  (h : Stretch source.chars span done margin chars behind) (hstart : span.start < LineMap.positions)
include h

theorem newline_not_mem_margin : '\n' ∉ margin := fun hmem => absurd (h.blank _ hmem) (by decide)

/-- A definition does not start with the end of a line. -/
theorem ne_newline_cons (rest : List Char) : margin ++ chars ≠ '\n' :: rest := by
  obtain ⟨d, ds, rfl, hd⟩ := h.first
  intro hrest
  cases margin with
  | nil =>
    cases hrest
    cases hd
  | cons e margin =>
    cases hrest
    exact h.newline_not_mem_margin List.mem_cons_self

include hstart

theorem toList_linesOf : (source.linesOf span).toList = margin ++ chars := by
  rw [h.linesOf hstart, String.toList_ofList]

/-- The lines that are written for a definition are those of its block. -/
theorem toList_blockOf : (Emit.blockOf (source.linesOf span)).map String.toList =
    Text.dedent (margin ++ chars) := by
  unfold Emit.blockOf
  rw [h.toList_linesOf hstart]
  split
  · next cs hcs => exact absurd hcs (h.ne_newline_cons cs)
  · simp [Function.comp_def]

/-- They are the lines of the definition without their margin. -/
theorem blockOf_linesOf : (Emit.blockOf (source.linesOf span)).map String.toList =
    (Text.allLines (source.linesOf span).toList).map fun line =>
      Text.undented (Text.marginWidth (source.linesOf span).toList) (Text.dropReturn line) := by
  have hlast : ∃ front d, margin ++ chars = front ++ [d] ∧ Text.isBlank d = false := by
    obtain ⟨front, d, rfl, hd⟩ := h.last
    exact ⟨margin ++ front, d, (List.append_assoc _ _ _).symm, hd⟩
  rw [h.toList_blockOf hstart, h.toList_linesOf hstart, Text.marginWidth, Text.dedent_eq,
    Text.blockLines_eq hlast]
  simp [Function.comp_def]

/-- What is reported for the lines of a definition are so many lines as are in front of them behind
the first one. -/
theorem reports {i : Nat} {line : List Char}
    (hline : (Text.allLines (source.linesOf span).toList)[i]? = some line) (lineOffset : Int) :
    source.Reports lineOffset (source.lines.lineStart span.start +
      Text.offsetOfLine (source.linesOf span).toList i) line source.label
        ((Location.ofSpan source lineOffset span).line + i) := by
  rw [h.toList_linesOf hstart] at hline ⊢
  obtain ⟨lines, hlines, rfl⟩ := Text.exists_ended h.line
  have hfirst : source.lines.lineStart span.start = Text.byteLength (Text.ended lines []) := by
    rw [h.start, Source.lines, h.text]
    exact LineMap.lineStart_eq h.line h.newline_not_mem_margin (h.start ▸ hstart)
  have hnumber : (Location.ofSpan source lineOffset span).line =
      ((lines.length + 1) % LineMap.positions : Nat) + lineOffset := by
    have hfront : source.chars = Text.ended lines (margin ++ (chars ++ behind)) := by
      rw [h.text]
      simp [Text.ended]
    have hmargin := Source.reports_ended hfront hlines h.newline_not_mem_margin lineOffset
    have hspan : span.start = Text.byteLength (Text.ended lines []) + Text.byteLength margin := by
      rw [h.start, Text.byteLength_append]
    exact (hmargin span (by omega) (by omega) hstart).2
  obtain ⟨back, hback⟩ := Text.exists_of_allLines hline
  obtain ⟨hi, -⟩ := List.getElem?_eq_some_iff.1 hline
  have hwhole : source.chars = Text.ended (lines ++ (Text.allLines (margin ++ chars)).take i)
      (line ++ (back ++ behind)) := by
    rw [h.text, ← List.append_assoc margin]
    conv_lhs => rw [hback]
    simp [Text.ended]
  have hnewline := Text.newline_not_mem_allLines (List.mem_of_getElem? hline)
  have hlines' : ∀ l ∈ lines ++ (Text.allLines (margin ++ chars)).take i, '\n' ∉ l :=
    List.forall_mem_append.2 ⟨hlines, fun l hl =>
      Text.newline_not_mem_allLines (List.mem_of_mem_take hl)⟩
  have hbytes : Text.byteLength (Text.ended (lines ++ (Text.allLines (margin ++ chars)).take i)
      []) = Text.byteLength (Text.ended lines []) + Text.offsetOfLine (margin ++ chars) i := by
    rw [Text.offsetOfLine, ← Text.byteLength_append]
    simp [Text.ended]
  have hlength : (lines ++ (Text.allLines (margin ++ chars)).take i).length = lines.length + i := by
    rw [List.length_append, List.length_take_of_le (Nat.le_of_lt hi)]
  cases i with
  | zero =>
    have hreports := Source.reports_ended hwhole hlines' hnewline lineOffset
    rwa [hbytes, ← hfirst, hlength, Nat.add_zero, ← hnumber, ← Int.add_zero (Location.line _)]
      at hreports
  | succ i =>
    -- The first line of the definition is not empty, so the numbers up to here fit in a word.
    obtain ⟨full, hmem, hfull⟩ := Text.exists_ne_nil_of_allLines hline h.ne_newline_cons
    have hfront := List.mem_append_right lines hmem
    have hreports := Source.reports_ended_of_ne_nil hwhole hlines' hnewline hfront hfull lineOffset
    intro p hp hstop hsize
    obtain ⟨hlabel, hreported⟩ := hreports p (by omega) (by omega) hsize
    have hcount := Text.length_lt_byteLength_ended hfront hfull
    have hword : (lines.length + 1) % LineMap.positions = lines.length + 1 :=
      Nat.mod_eq_of_lt (by omega)
    refine ⟨hlabel, ?_⟩
    rw [hreported, hlength, hnumber, hword]
    omega

end Stretch

/-- The text that a function has been defined in holds its definition. -/
theorem Function.Sourced.exists_stretch {f : Function} (hf : f.Sourced) :
    ∃ done margin chars behind,
    Stretch f.origin.source.chars f.origin.span done margin chars behind := by
  obtain ⟨label, script, hparse, hhead⟩ := hf.head
  obtain ⟨stmt, hstmt, hhead⟩ := List.mem_filterMap.1 hhead
  cases stmt with
  | define span x ds ps b =>
    cases hhead
    exact Script.exists_stretch hparse hstmt
  | _ => cases hhead

/-! ## The lines of a maker -/

namespace Closure

variable {v : Value} {given : Table Value} {s t : Store} {c : Closure}

theorem newline_not_mem_header {names : List String} (hnames : ∀ x ∈ names, Word.isName x = true) :
    '\n' ∉ Piece.text (Maker.header names) := by
  have hlist : ∀ d ∈ (", ".intercalate names).toList, d ≠ '\n' := by
    rw [String.toList_intercalate]
    refine forall_mem_intercalate (by simp) fun x hx d hd hnewline => ?_
    obtain ⟨name, hname, rfl⟩ := List.mem_map.1 hx
    exact Word.newline_not_mem_of_isName (hnames name hname) (hnewline ▸ hd)
  intro hmem
  rw [Maker.text_header] at hmem
  simp only [String.toList_append, List.mem_append] at hmem
  rcases hmem with (((hmem | hmem) | hmem) | hmem) | hmem
  · exact absurd hmem (by decide)
  · exact absurd hmem (by decide)
  · exact absurd hmem (by decide)
  · exact hlist _ hmem rfl
  · exact absurd hmem (by decide)

/-- The lines of a maker are its header and the lines that are written below it. -/
theorem allLines_of_ofFunction (hc : ofFunction v given s = .ok c t)
    (hname : Word.isName c.function.name = true)
    (hcaptured : ∀ x ∈ c.function.captured.keys, Word.isName x = true) :
    Text.allLines c.script.source.chars = Piece.text (Maker.header c.vars.keys) ::
      ((makerLines c.function).map String.toList).map (List.replicate 4 ' ' ++ ·) := by
  obtain ⟨script, text, hwritten⟩ := written_of_ofFunction hc
  obtain ⟨-, -, hscript⟩ := (Script.parse_eq_ok script).1 hwritten.parse
  have htext : c.script.source.chars = text.toList := by rw [hwritten.script, hscript]; rfl
  rw [htext, text_of_render hwritten.render]
  exact Text.allLines_below (newline_not_mem_header (isName_of_ofFunction hc hcaptured)) fun _ =>
    newline_not_mem_makerLines (Word.newline_not_mem_of_isName hname)

/-- What is reported for a line of a maker. -/
theorem reports_of_ofFunction (hc : ofFunction v given s = .ok c t) {i : Nat} {line : List Char}
    (hline : (Text.allLines c.script.source.chars)[i + 1]? = some line) :
    c.script.source.Reports c.script.lineOffset (Text.offsetOfLine c.script.source.chars (i + 1))
      line
      c.function.origin.source.label (c.function.firstLine + i) := by
  obtain ⟨script, text, hwritten⟩ := written_of_ofFunction hc
  obtain ⟨-, -, hscript⟩ := (Script.parse_eq_ok script).1 hwritten.parse
  have hlabel : c.script.source.label = c.function.origin.source.label := by
    rw [hwritten.script, hscript]
    rfl
  have hoffset : c.script.lineOffset = 0 + (c.function.firstLine - 2) := by
    rw [hwritten.script, hscript]
    rfl
  obtain ⟨back, hback⟩ := Text.exists_of_allLines hline
  obtain ⟨hi, -⟩ := List.getElem?_eq_some_iff.1 hline
  have hfirst : ∀ rest, c.script.source.chars ≠ '\n' :: rest := by
    have htext : c.script.source.chars = text.toList := by rw [hwritten.script, hscript]; rfl
    intro rest hrest
    rw [htext, text_of_render hwritten.render, Maker.text_header] at hrest
    simp only [String.toList_append, List.append_assoc] at hrest
    cases hrest
  obtain ⟨full, hmem, hfull⟩ := Text.exists_ne_nil_of_allLines hline hfirst
  have hreports := Source.reports_ended_of_ne_nil hback (fun l hl =>
    Text.newline_not_mem_allLines (List.mem_of_mem_take hl))
    (Text.newline_not_mem_allLines (List.mem_of_getElem? hline)) hmem hfull c.script.lineOffset
  have hnumber : ((i + 1 : Nat) : Int) + 1 + c.script.lineOffset = c.function.firstLine + i := by
    rw [hoffset]
    omega
  rwa [List.length_take_of_le (Nat.le_of_lt hi), hlabel, hnumber] at hreports

/-- Unrolling leaves what is reported as it is. -/
theorem location_of_unrolled {c : Closure} {script : Script} (h : c.unrolled = .ok script) :
    script.location = c.script.location := by
  have hall (knowns : List (Table Extent)) {script script' : Script}
      (h : knowns.forM Script.unroll script = .ok () script') : script'.location =
      script.location := by
    induction knowns generalizing script with
    | nil =>
      cases h
      rfl
    | cons known knowns ih =>
      obtain ⟨_, script₁, hone, hrest⟩ := EStateM.bind_eq_ok.1 h
      obtain ⟨b, -, rfl⟩ := Script.unroll_eq_ok.1 hone
      have hlocation := ih hrest
      exact hlocation
  unfold unrolled at h
  split at h
  · next script' hscript =>
    cases h
    exact hall _ hscript
  · cases h

/-- Specialized code reports original lines.  In a store that a host comes to, a function may have
been defined in a program, in one whose lines have been shifted, or by another specialization.  When
it is specialized, each of its lines stands in the text of the maker one line further down, with
another margin and without the carriage return at its end.  Positions on the line of the maker are
reported under the same label and at the same line as positions on the line of the function, as many
lines below the first line of the function as they are in its text; and unrolling leaves it so.
This is about definitions that start at a position that there is. -/
theorem reports_original_lines {host : Host} (hhost : host.Sourced) (hs : s.Reached host)
    (hc : ofFunction v given s = .ok c t)
    (hstart : c.function.origin.span.start < LineMap.positions) {i : Nat} {line : List Char}
    (hline : (Text.allLines c.function.sourceText.toList)[i]? = some line) :
    (∃ copy, (Text.allLines c.script.source.chars)[i + 1]? = some copy ∧
      copy = List.replicate 4 ' ' ++ Text.undented
        (Text.marginWidth c.function.sourceText.toList) (Text.dropReturn line) ∧
      c.script.source.Reports c.script.lineOffset (Text.offsetOfLine c.script.source.chars (i + 1))
        copy
        c.function.origin.source.label (c.function.firstLine + i)) ∧
    c.function.origin.source.Reports c.function.origin.lineOffset
      (c.function.origin.source.lines.lineStart c.function.origin.span.start +
        Text.offsetOfLine c.function.sourceText.toList i) line
      c.function.origin.source.label (c.function.firstLine + i) ∧
    ∀ unrollings script, ({ c with unrollings } : Closure).unrolled = .ok script →
      script.location = c.script.location := by
  obtain ⟨script, text, hwritten⟩ := written_of_ofFunction hc
  obtain ⟨r, -, hf⟩ := hwritten.function
  have hsourced := hs.sourced hhost r c.function hf
  obtain ⟨done, margin, chars, behind, hstretch⟩ := hsourced.exists_stretch
  have hlines := allLines_of_ofFunction hc hsourced.name hsourced.captured
  have hcopy : (Text.allLines c.script.source.chars)[i + 1]? = some (List.replicate 4 ' ' ++
      Text.undented (Text.marginWidth c.function.sourceText.toList) (Text.dropReturn line)) := by
    have hblock : (Emit.blockOf c.function.sourceText).map String.toList =
        (Text.allLines c.function.sourceText.toList).map fun line => Text.undented
          (Text.marginWidth c.function.sourceText.toList) (Text.dropReturn line) :=
      hstretch.blockOf_linesOf hstart
    have hi : i < (Text.allLines c.function.sourceText.toList).length :=
      (List.getElem?_eq_some_iff.1 hline).1
    rw [hlines, List.getElem?_cons_succ, List.getElem?_map, makerLines, List.map_append, hblock,
      List.getElem?_append_left (by rwa [List.length_map]), List.getElem?_map, hline]
    rfl
  exact ⟨⟨_, hcopy, rfl, reports_of_ofFunction hc hcopy⟩, hstretch.reports hstart hline _,
    fun _ _ => location_of_unrolled⟩

end Closure

/-! ## A function within a block -/

/-- The natives for trying things out make no functions. -/
theorem Host.sourced_probe : Host.probe.Sourced :=
  fun hcall => Host.probe_kept Run.carries_sourced.steady hcall

/-- A definition within a block, with carriage returns and an empty line, in a program whose lines
are shifted:

    if 1:
      def f():

        return x
-/
def sampleIndented : Program where
  body := [.cond ⟨0, 33⟩ (.int ⟨3, 4⟩ 1)
    [.define ⟨9, 33⟩ "f" [] [] [.ret ⟨25, 33⟩ (some (.name ⟨32, 33⟩ "x"))]] []]
  source := ⟨"sample", "if 1:\r\n  def f():\r\n\r\n    return x\n"⟩
  lineOffset := 10
  wellPlaced := by decide

theorem sampleIndented_arises : sampleIndented.toScript.Arises := by
  have hparse : Script.parse "if 1:\r\n  def f():\r\n\r\n    return x\n" "sample" =
      .ok { sampleIndented.toScript with lineOffset := 0 } := by with_unfolding_all rfl
  exact .shift 10 (.parse hparse)

/-- The store behind the program. -/
def sampleBehind : Store :=
  .after (sampleIndented.run .probe 2 .captured ⟨0⟩ none
    { Store.empty with namespaces := #[.empty] })

theorem sampleBehind_reached : sampleBehind.Reached .probe :=
  .run 2 .captured ⟨0⟩ none (.other .empty rfl) sampleIndented_arises

/-- What it defines. -/
def sampleIndentedFunction : Function where
  name := "f"
  definition := ⟨"f", [], [], [.ret ⟨25, 33⟩ (some (.name ⟨32, 33⟩ "x"))]⟩
  params := []
  globals := ⟨0⟩
  captured := .empty
  origin := ⟨sampleIndented.source, 10, ⟨9, 33⟩⟩

theorem getFunction?_sampleBehind :
    sampleBehind.getFunction? ⟨0⟩ = some sampleIndentedFunction := by
  with_unfolding_all rfl

/-- The last line of the definition is the fourth one of its maker, and both are reported as the
fourteenth one of the program. -/
theorem sampleIndented_reported : ∃ c t,
    Host.probe.Sourced ∧ sampleBehind.Reached .probe ∧
    Closure.ofFunction (.function ⟨0⟩) (.ofList [("x", .bool true)]) sampleBehind = .ok c t ∧
    c.function.origin.span.start < LineMap.positions ∧
    (Text.allLines c.function.sourceText.toList)[2]? = some "    return x".toList ∧
    (Text.allLines c.script.source.chars)[3]? = some "      return x".toList ∧
    c.script.source.Reports c.script.lineOffset (Text.offsetOfLine c.script.source.chars 3)
      "      return x".toList "sample" 14 := by
  have hmade : ((Closure.ofFunction (.function ⟨0⟩) (.ofList [("x", .bool true)])).run'
      sampleBehind).isSome = true := by decide +kernel
  cases hc : Closure.ofFunction (.function ⟨0⟩) (.ofList [("x", .bool true)]) sampleBehind with
  | error e t =>
    delta EStateM.run' EStateM.run at hmade
    rw [hc] at hmade
    cases hmade
  | ok c t =>
    have hf : c.function = sampleIndentedFunction := by
      obtain ⟨-, -, ⟨r, hr, hf⟩, -⟩ := Closure.written_of_ofFunction hc
      cases hr
      exact Option.some.inj (hf.symm.trans getFunction?_sampleBehind)
    have hstart : c.function.origin.span.start < LineMap.positions := by
      rw [hf]
      decide
    have htext : c.function.sourceText.toList = "  def f():\r\n\r\n    return x".toList := by
      rw [hf]
      with_unfolding_all rfl
    have hline : (Text.allLines c.function.sourceText.toList)[2]? = some "    return x".toList := by
      rw [htext]
      with_unfolding_all rfl
    have hcut : List.replicate 4 ' ' ++
        Text.undented (Text.marginWidth c.function.sourceText.toList)
        (Text.dropReturn "    return x".toList) = "      return x".toList := by
      rw [htext]
      with_unfolding_all rfl
    have hfirst : c.function.firstLine = 12 := by
      rw [hf]
      with_unfolding_all rfl
    have hlabel : c.function.origin.source.label = "sample" := by
      rw [hf]
      rfl
    obtain ⟨⟨copy, hcopy, rfl, hreports⟩, -⟩ :=
      Closure.reports_original_lines Host.sourced_probe sampleBehind_reached hc hstart hline
    rw [hcut] at hcopy hreports
    rw [hfirst, hlabel] at hreports
    exact ⟨c, t, Host.sourced_probe, sampleBehind_reached, rfl, hstart, hline, hcopy, hreports⟩

end StagedScript
