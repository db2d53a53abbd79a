import StagedScript.Proofs.Outline.Basic

/-!
# The nesting of what is written

What is written for outlines is a program, and its statements nest as the outlines do.
-/

namespace StagedScript

namespace Outline

/-! ## Leaves from their tokens -/

/-- A line of which the tokens are read as a statement without a block is a leaf. -/
def Leaf.ofLine (text : String) {line : List Piece} (hline : Piece.IsLine [] line) {stmt : Stmt}
    (hread : ReadsStmt (line.map Piece.kind ++ [.newline]) (·.bare = stmt))
    (hsimple : stmt.isSimple = true) (htext : text.toList = Piece.text line)
    (honeLine : '\n' ∉ text.toList) : Leaf where
  text
  stmt
  oneLine := honeLine
  isSimple := hsimple
  parses := by
    obtain ⟨s, hparse, hs⟩ := Script.parse_line hline hread htext ""
    exact ⟨"", _, s, hparse, rfl, hs⟩

theorem readsStmt_pass : ReadsStmt [.keyword .pass_, .newline] (·.bare = .pass .nowhere) where
  begins := ⟨_, _, rfl, ⟨rfl, rfl, rfl⟩, rfl, rfl⟩
  read {depth c k ks} hdepth _ hc := by
    obtain ⟨depth, rfl⟩ : ∃ n, depth = n + 1 := ⟨depth - 1, by omega⟩
    have hsimple : Yields Parse.simple c (·.bare = .pass .nowhere) (.newline :: k :: ks) := by
      unfold Parse.simple
      refine .get ?_
      dsimp only
      rw [Cursor.kind_of_ahead hc]
      exact .advance hc (by simp) fun c' hc' => .spanFrom _ fun _ => .pure rfl hc'
    have hplain : c.kind.Plain := by
      rw [Cursor.kind_of_ahead hc]
      trivial
    unfold Yields
    rw [Parse.stmtWithin_of_plain hplain]
    exact Yields.simpleLine hsimple

/-- The line of a block that is given none. -/
def Leaf.pass : Leaf :=
  have hline : Piece.IsLine [] [Piece.word [] "pass"] :=
    ⟨fun _ hrest => ⟨Piece.fits_word rfl Piece.blanks_none (hrest.without rfl), trivial⟩,
      _, _, rfl, rfl, (Layout.Inside.kind_word "pass").1, (Layout.Inside.kind_word "pass").2, .nil⟩
  .ofLine "pass" hline readsStmt_pass rfl rfl (by decide)

/-! ## Lines that stand for statements -/

/-- The lines are rows, none of them less deep than the depth, and as such they are read as the
statements. -/
def Stands (width depth : Nat) (lines : List (Nat × String)) (bodies : List Stmt) : Prop :=
  ∃ (rows : List (Nat × Row)) (words : List (List Token.Kind)), rows ≠ [] ∧
    rows.map (fun row => (row.1, row.2.text)) = lines.map (fun line => (line.1, line.2.toList)) ∧
    Layout.Lays width depth rows words.flatten ∧
    List.Forall₂ ReadsStmt words (bodies.map fun t s => s.bare = t)

namespace Stands

variable {width depth : Nat} {lines lines' : List (Nat × String)} {bodies bodies' : List Stmt}

theorem leaf (l : Leaf) : Stands width depth [(depth, l.text)] [l.stmt] := by
  obtain ⟨r, htext, hread⟩ := l.exists_row
  refine ⟨[(depth, r)], [r.kinds ++ [.newline]], by simp, by simp [htext], ?_, .cons hread .nil⟩
  rw [List.flatten_singleton]
  exact .one r

theorem append (h : Stands width depth lines bodies) (h' : Stands width depth lines' bodies') :
    Stands width depth (lines ++ lines') (bodies ++ bodies') := by
  obtain ⟨rows, words, hrows, htext, hlays, hread⟩ := h
  obtain ⟨rows', words', hrows', htext', hlays', hread'⟩ := h'
  refine ⟨rows ++ rows', words ++ words', by simp [hrows], by simp [htext, htext'], ?_, ?_⟩
  · rw [List.flatten_append]
    exact hlays.append hrows hrows' hlays'
  · rw [List.map_append]
    exact List.rel_append hread hread'

/-- A header with a block one step deeper below it. -/
theorem block (hwidth : 0 < width) (header : Header) (h : Stands width (depth + 1) lines bodies) :
    Stands width depth ((depth, header.text) :: lines) [header.stmt bodies] := by
  obtain ⟨rows, words, hrows, htext, hlays, hread⟩ := h
  obtain ⟨r, hheader, hkinds⟩ := header.exists_row
  refine ⟨(depth, r) :: rows, [header.kinds ++ .newline :: .indent :: (words.flatten ++ [.dedent])],
    by simp, by simp [htext, hheader], ?_, .cons (header.readsStmt hread) .nil⟩
  rw [List.flatten_singleton, ← hkinds]
  exact hlays.block hwidth hrows r

end Stands

variable {width : Nat}

mutual

/-- The lines of an outline stand for its statement. -/
theorem stands (hwidth : 0 < width) (depth : Nat) (o : Outline) :
    Stands width depth (o.lines "pass" depth) [o.stmt] := by
  match o with
  | leaf line => exact .leaf line
  | block header body =>
    rw [lines, stmt]
    cases body with
    | nil => exact .block hwidth header (.leaf Leaf.pass)
    | cons o os => exact .block hwidth header (stands_all hwidth (depth + 1) (o :: os) (by simp))

theorem stands_all (hwidth : 0 < width) (depth : Nat) (os : List Outline) (hos : os ≠ []) :
    Stands width depth (linesAll "pass" depth os) (stmts os) := by
  match os with
  | [] => exact absurd rfl hos
  | o :: os =>
    rw [linesAll, stmts]
    cases os with
    | nil =>
      rw [linesAll, stmts, List.append_nil]
      exact stands hwidth depth o
    | cons o' os =>
      exact (stands hwidth depth o).append (stands_all hwidth depth (o' :: os) (by simp))

end

/-! ## The text of the lines -/

/-- Lines that stand for statements at the outermost depth are a program of these. -/
theorem Stands.exists_script {lines : List (Nat × String)} {bodies : List Stmt}
    (h : Stands width 0 lines bodies) {text : String} (label : String)
    (htext : text.toList = ['\n'].intercalate
      (lines.map fun line => List.replicate (line.1 * width) ' ' ++ line.2.toList)) :
    ∃ script, Script.parse text label = .ok script ∧ script.body.map Stmt.bare = bodies := by
  obtain ⟨rows, words, hrows, hlines, hlays, hread⟩ := h
  have hplaced : rows.map (Row.placed width) =
      lines.map fun line => List.replicate (line.1 * width) ' ' ++ line.2.toList := by
    have hmap :=
      congrArg (List.map fun line => List.replicate (line.1 * width) ' ' ++ line.2) hlines
    rw [List.map_map, List.map_map] at hmap
    exact hmap
  rw [← hplaced, ← Row.text_joined hrows] at htext
  have hstart : Layout.Leads (0 * width) [] [] (Layout.blocksAt width 0) :=
    @Layout.Leads.back _ [] [] (by simp) (by simp)
  obtain ⟨ks, inner, harranges, -, hwords⟩ := hlays [] [] hstart
  obtain ⟨herrors, hkinds⟩ := Lexed.ofText_arranged (Row.read_joined rows) harranges
  have htokens : (Lexed.ofText text.toList).tokens.map Token.kind = words.flatten ++ [.eof] := by
    rw [htext, hkinds, ← hwords]
    simp [Layout.blocksAt]
  rw [← htext] at herrors
  obtain ⟨body, hbody, hbare⟩ := Parsed.ofTokens_of_stmts hread (Lexed.kind_getLast? _) htokens
  exact ⟨⟨body, ⟨label, text⟩, 0⟩, (Script.parse_eq_ok _).2 ⟨herrors, hbody, rfl⟩,
    Stmt.map_bare hbare⟩

variable {σ : Type}

/-- The text of lines that are written into an empty buffer. -/
theorem toList_placed (config : EmitConfig) (rest : σ) (lines : List (Nat × String)) :
    (Emission.placed ⟨.empty config, rest⟩ lines).buffer.text.toList = ['\n'].intercalate
      (lines.map fun line => List.replicate (line.1 * config.indentWidth) ' ' ++
        line.2.toList) := by
  simp [Buffer.text, Emission.placed, String.toList_intercalate, Buffer.indented, Buffer.empty,
    Function.comp_def]

/-- Outlines are written without errors, and what is written is a program.  Its statements are those
of the outlines, nested as these are, with a placeholder in every block that is empty. -/
theorem writeAll_reads_back {config : EmitConfig} (hwidth : 0 < config.indentWidth)
    (hplaceholder : config.placeholder = "pass") (os : List Outline) (rest : σ) (label : String) :
    ∃ e script, writeAll os ⟨.empty config, rest⟩ = .ok () e ∧
      Script.parse e.buffer.text label = .ok script ∧ script.body.map Stmt.bare = stmts os := by
  have hwritten : writeAll os (⟨.empty config, rest⟩ : Emission σ) =
      .ok () (Emission.placed ⟨.empty config, rest⟩ (linesAll "pass" 0 os)) := by
    rw [← hplaceholder]
    exact writeAll_eq os _
  cases os with
  | nil =>
    have hlexed : Lexed.ofText "".toList = ⟨[Layout.mark .eof 0], []⟩ :=
      @Lexed.ofText_text [] [] .nil
    have hempty : Script.parse "" label = .ok ⟨[], ⟨label, ""⟩, 0⟩ :=
      (Script.parse_eq_ok _).2 ⟨by rw [hlexed],
        by rw [hlexed]; exact Parsed.ofTokens_of_eof rfl, rfl⟩
    exact ⟨_, _, hwritten, hempty, rfl⟩
  | cons o os =>
    obtain ⟨script, hscript⟩ := (stands_all hwidth 0 (o :: os) (by simp)).exists_script label
      (toList_placed config rest (linesAll "pass" 0 (o :: os)))
    exact ⟨_, script, hwritten, hscript⟩

theorem readsStmt_copy (x y : String) :
    ReadsStmt [.ident x, .symbol .assign, .ident y, .newline]
      (·.bare = .assign .nowhere [.name .nowhere x] (.name .nowhere y)) := by
  have hvalue := ReadsWhole.of_expr (fun depth => ReadsExpr.name y (depth + 1)) (by simp)
  refine (ReadsLine.binding x hvalue).readsStmt.mono ?_
  rintro _ ⟨span, spanName, _, rfl, spanValue, rfl⟩
  rfl

/-- The line that binds a name to what another one stands for. -/
def sampleLeaf : Leaf :=
  have hline : Piece.IsLine [] [Piece.word [] "x", Piece.symbol [' '] .assign,
    Piece.word [' '] "y"] :=
    ⟨fun _ hrest => ⟨Piece.fits_word rfl Piece.blanks_none (.cons rfl),
        Piece.fits_symbol Piece.blanks_one rfl,
        Piece.fits_word rfl Piece.blanks_one (hrest.without rfl), trivial⟩,
      _, _, rfl, rfl, (Layout.Inside.kind_word "x").1, (Layout.Inside.kind_word "x").2,
      (Layout.Inside.symbol _ ⟨rfl, rfl⟩).append (.word _ _)⟩
  .ofLine "x = y" hline (readsStmt_copy "x" "y") rfl rfl (by decide)

/-- Blocks in blocks, of which some are empty, and lines behind several of them at once. -/
def sampleOutlines : List Outline :=
  let x : Name := ⟨"x", by decide⟩
  let y : Name := ⟨"y", by decide⟩
  [block (.cond x) [block (.loop y) [leaf sampleLeaf, block (.each x y) [block (.define y) []]],
      leaf sampleLeaf],
    leaf sampleLeaf, block (.cond y) []]

theorem sampleOutlines_read_back : 0 < EmitConfig.standard.indentWidth ∧
    EmitConfig.standard.placeholder = "pass" ∧ ∃ e script,
      writeAll sampleOutlines ⟨.empty .standard, ()⟩ = .ok () e ∧
      Script.parse e.buffer.text "outlines" = .ok script ∧
      script.body.map Stmt.bare = stmts sampleOutlines :=
  ⟨by decide, rfl, writeAll_reads_back (by decide) rfl sampleOutlines () "outlines"⟩

end Outline

end StagedScript
