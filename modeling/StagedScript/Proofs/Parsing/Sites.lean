import StagedScript.Proofs.Layout.Located
import StagedScript.Proofs.Parsing.Definitions
import StagedScript.Proofs.Reading.TokenEnds

/-!
# Where definitions stand

A definition without decorators stands on lines of its own, and what hangs off its first line is all
of it.  So its text tells where it ends, whatever is behind it.
-/

namespace StagedScript

open Token (Kind Counts)

/-! ## Pieces -/

theorem Piece.Read.split {ps qs : List Piece} {tail : List Char} (h : Read (ps ++ qs) tail) :
    Fit ps (text qs ++ tail) ∧ Read qs tail := by
  induction ps with
  | nil => exact ⟨trivial, h⟩
  | cons p ps ih =>
    obtain ⟨hp, hps⟩ := h
    have hp : p.Fits (text (ps ++ qs) ++ tail) := hp
    rw [text_append, List.append_assoc] at hp
    exact ⟨⟨hp, (ih hps).1⟩, (ih hps).2⟩

/-- What is skipped starts with a character that ends a word. -/
theorem Skips.stops {gap rest : List Char} (h : Skips gap rest) :
    gap = [] ∨ ∃ e ∈ Lexeme.stops, ∃ more, gap = e :: more := by
  cases h with
  | nil => exact .inl rfl
  | @step c cs gap _ hread _ =>
    refine .inr ⟨c, Lexeme.mem_stops.2 fun hplain => ?_, _, rfl⟩
    rcases Lexeme.read_gap hread with ⟨hc, -⟩ | ⟨rfl, -⟩ | ⟨rfl, -⟩
    · exact absurd (hplain.1.symm.trans hc) Bool.false_ne_true
    · exact absurd rfl hplain.2.1
    · exact absurd rfl hplain.2.2.1

/-- What is behind a line starts with a character that ends a word. -/
theorem Piece.Read.stops {ps : List Piece} {tail : List Char} (h : Read ps tail)
    (hps : ps = [] ∨ ∃ p more, ps = p :: more ∧ p.kind = .newline) :
    text ps ++ tail = [] ∨ ∃ e ∈ Lexeme.stops, ∃ rest, text ps ++ tail = e :: rest := by
  rcases hps with rfl | ⟨p, more, rfl, hp⟩
  · have hskips : Skips tail [] := h
    exact hskips.stops
  · refine .inr ?_
    rcases h.1.gap.stops with hgap | ⟨e, he, rest, hgap⟩
    · obtain ⟨c, cs, hchars, hread⟩ := h.1.token
      rw [hp] at hread
      refine ⟨c, ?_, cs ++ text more ++ tail, by rw [text, hgap, hchars]; simp⟩
      rcases (Lexeme.read_token hread).2 with hinner | ⟨-, ⟨rfl, -⟩ | ⟨rfl, -⟩⟩
      · exact absurd rfl hinner.2.1
      · decide
      · decide
    · exact ⟨e, he, rest ++ p.chars ++ text more ++ tail, by rw [text, hgap]; simp⟩

/-- The last word of pieces ends where they end. -/
theorem Piece.wordStop_place {ps : List Piece} (hps : ps ≠ [])
    (hlast : ∀ p ∈ ps.getLast?, p.kind.Inner) (stop start : Nat) :
    Token.wordStop stop (place start ps) = start + Text.byteLength (text ps) := by
  rcases List.eq_nil_or_concat ps with rfl | ⟨ps, p, rfl⟩
  · exact absurd rfl hps
  · rw [List.concat_eq_append] at hlast ⊢
    have hplace : place start (ps ++ [p]) =
        place start ps ++ place (start + Text.byteLength (text ps)) [p] := by
      clear hlast hps
      induction ps generalizing start with
      | nil => rfl
      | cons q ps ih => simp [place, ih, text, Nat.add_assoc]
    have hp : p.kind.Inner := hlast p (by simp)
    rw [Token.wordStop, hplace, place, place, List.filter_append, List.filter_cons,
      if_pos (Layout.isInner_of_inner hp), List.filter_nil, List.getLast?_concat, text_append]
    simp [text, Nat.add_assoc]

/-! ## Lines -/

namespace LineMap

theorem newlineEnds_append (position : Nat) (xs ys : List Char) : newlineEnds position (xs ++ ys) =
    newlineEnds position xs ++ newlineEnds (position + Text.byteLength xs) ys := by
  induction xs generalizing position with
  | nil => rfl
  | cons c xs ih =>
    rw [List.cons_append, newlineEnds, newlineEnds, ih, Text.byteLength, ← Nat.add_assoc]
    split <;> rfl

theorem newlineEnds_of_not_mem {cs : List Char} (h : '\n' ∉ cs) (position : Nat) :
    newlineEnds position cs = [] := by
  induction cs generalizing position with
  | nil => rfl
  | cons c cs ih =>
    rw [List.mem_cons, not_or] at h
    rw [newlineEnds, if_neg (Ne.symm h.1), ih h.2]

theorem lt_of_mem_newlineEnds {position stop : Nat} {cs : List Char}
    (h : stop ∈ newlineEnds position cs) :
    position < stop ∧ stop ≤ position + Text.byteLength cs := by
  induction cs generalizing position with
  | nil => cases h
  | cons c cs ih =>
    have hsize := c.utf8Size_pos
    have hrest (h : stop ∈ newlineEnds (position + c.utf8Size) cs) :
        position < stop ∧ stop ≤ position + Text.byteLength (c :: cs) := by
      have := ih h
      rw [Text.byteLength]
      omega
    rw [newlineEnds] at h
    split at h
    · rcases List.mem_cons.1 h with rfl | h
      · rw [Text.byteLength]
        omega
      · exact hrest h
    · exact hrest h

/-- A line starts behind the end of another one, or where the text does. -/
theorem lineStart_eq {done margin rest : List Char}
    (hdone : done = [] ∨ ∃ front, done = front ++ ['\n']) (hmargin : '\n' ∉ margin)
    (hsize : Text.byteLength (done ++ margin) < positions) :
    (ofText (done ++ (margin ++ rest))).lineStart (Text.byteLength (done ++ margin)) =
      Text.byteLength done := by
  have hlater : newlineEnds 0 (done ++ (margin ++ rest)) =
      newlineEnds 0 done ++ newlineEnds (Text.byteLength (done ++ margin)) rest := by
    rw [← List.append_assoc, newlineEnds_append, newlineEnds_append, newlineEnds_of_not_mem hmargin,
      List.append_nil, Nat.zero_add]
  unfold lineStart ofText
  rw [hlater, Nat.mod_eq_of_lt hsize, startFrom_eq_getLast_takeWhile, List.takeWhile_append_of_pos]
  · have hbehind : (newlineEnds (Text.byteLength (done ++ margin)) rest).takeWhile
        (· ≤ Text.byteLength (done ++ margin)) = [] := by
      rw [List.takeWhile_eq_nil_iff]
      intro hpos h
      have hlt := (lt_of_mem_newlineEnds (List.get_mem _ ⟨0, hpos⟩)).1
      exact Nat.not_le.2 hlt (of_decide_eq_true h)
    rw [hbehind, List.append_nil]
    rcases hdone with rfl | ⟨front, rfl⟩
    · rfl
    · have hlast : newlineEnds 0 (front ++ ['\n']) =
          newlineEnds 0 front ++ [Text.byteLength (front ++ ['\n'])] := by
        rw [newlineEnds_append, Text.byteLength_append, Nat.zero_add]
        rfl
      rw [hlast, List.getLast?_concat]
      rfl
  · intro stop hstop
    have := (lt_of_mem_newlineEnds hstop).2
    rw [Text.byteLength_append]
    simp only [decide_eq_true_eq]
    omega

end LineMap

/-- The text of whole lines. -/
theorem Source.linesOf_eq {source : Source} {span : Span} {done margin text behind : List Char}
    (hsource : source.chars = done ++ (margin ++ (text ++ behind)))
    (hdone : done = [] ∨ ∃ front, done = front ++ ['\n']) (hmargin : '\n' ∉ margin)
    (hsize : span.start < LineMap.positions)
    (hstart : span.start = Text.byteLength (done ++ margin))
    (hstop : span.stop = Text.byteLength (done ++ margin ++ text)) :
    source.linesOf span = String.ofList (margin ++ text) := by
  have hlines : source.lines.lineStart span.start = Text.byteLength done := by
    rw [hstart, Source.lines, hsource]
    exact LineMap.lineStart_eq hdone hmargin (hstart ▸ hsize)
  have hend : min span.stop (Text.byteLength source.chars) =
      Text.byteLength done + Text.byteLength (margin ++ text) := by
    rw [hstop, hsource]
    simp only [Text.byteLength_append]
    omega
  unfold Source.linesOf
  dsimp only
  rw [hlines, hend, hsource, ← List.append_assoc margin, Text.slice?_append, Option.getD_some]

/-! ## The tokens of a definition -/

/-- With the sign of a decorator there are decorators. -/
theorem Parse.decorators_ne_nil {c c' : Cursor} {n : Nat} (h : c.sees (.symbol .atSign) = true) :
    decorators (n + 1) c ≠ .ok [] c' := by
  have haccept : accept (.symbol .atSign) c = .ok true c.advance := by
    rw [accept_eq, h, if_pos rfl]
  intro hds
  unfold decorators at hds
  rw [EStateM.bind_ok haccept, if_pos rfl] at hds
  obtain ⟨_, _, -, hds⟩ := EStateM.bind_eq_ok.1 hds
  obtain ⟨_, _, -, hds⟩ := EStateM.bind_eq_ok.1 hds
  obtain ⟨_, _, -, hds⟩ := EStateM.bind_eq_ok.1 hds
  obtain ⟨_, _, -, hds⟩ := EStateM.bind_eq_ok.1 hds
  cases hds

/-- A definition starts with its keyword, or with the sign of its first decorator. -/
theorem Parse.definition_start {sub : Parse (List Stmt)} {c c' : Cursor} {span : Span} {x : String}
    {ds : List Expr} {ps : List (Param Expr)} {b : List Stmt}
    (h : definition sub c = .ok (.define span x ds ps b) c') :
    (c.kind = .keyword .def_ ∨ ds ≠ [] ∧ c.kind = .symbol .atSign) ∧
      span = ⟨c.token.span.start, c'.lastWordStop⟩ := by
  unfold definition at h
  obtain ⟨_, _, hhere, h⟩ := EStateM.bind_eq_ok.1 h
  cases hhere
  obtain ⟨_, _, hrounds, h⟩ := EStateM.bind_eq_ok.1 h
  cases hrounds
  obtain ⟨ds', c₁, hds, h⟩ := EStateM.bind_eq_ok.1 h
  obtain ⟨_, _, hsees, h⟩ := EStateM.bind_eq_ok.1 h
  cases hsees
  cases hdef : c₁.sees (.keyword .def_) with
  | false =>
    rw [hdef] at h
    cases h
  | true =>
    rw [hdef] at h
    obtain ⟨_, _, -, h⟩ := EStateM.bind_eq_ok.1 h
    obtain ⟨_, _, -, h⟩ := EStateM.bind_eq_ok.1 h
    obtain ⟨_, _, -, h⟩ := EStateM.bind_eq_ok.1 h
    obtain ⟨_, _, -, h⟩ := EStateM.bind_eq_ok.1 h
    obtain ⟨_, _, -, h⟩ := EStateM.bind_eq_ok.1 h
    obtain ⟨_, _, -, h⟩ := EStateM.bind_eq_ok.1 h
    obtain ⟨_, _, -, h⟩ := EStateM.bind_eq_ok.1 h
    cases h
    refine ⟨?_, rfl⟩
    cases hsign : c.sees (.symbol .atSign) with
    | true =>
      refine .inr ⟨?_, Cursor.kind_of_sees trivial hsign⟩
      rintro rfl
      exact decorators_ne_nil hsign hds
    | false =>
      rw [decorators_of_sees hsign] at hds
      cases hds
      exact .inl (Cursor.kind_of_sees trivial hdef)

/-- A statement that starts like a definition is read as one. -/
theorem Parse.stmt_eq_definition {c : Cursor}
    (hc : c.kind = .keyword .def_ ∨ c.kind = .symbol .atSign) :
    stmt c = (do return [← definition (stmtWithin c.bound)] : Parse (List Stmt)) c := by
  have hget : (get : Parse Cursor) c = .ok c c := rfl
  change stmtWithin (c.bound + 1) c = _
  rw [stmtWithin, EStateM.bind_ok hget]
  rcases hc with hc | hc <;> rw [hc]

/-- A definition takes tokens from its first one on. -/
theorem Parse.rest_of_definition {depth : Nat} {c c' : Cursor} {span : Span} {name : String}
    {ds : List Expr} {ps : List (Param Expr)} {b : List Stmt} (hlined : Token.Lined c.ahead)
    (h : definition (stmtWithin depth) c = .ok (.define span name ds ps b) c') :
    ∃ t used, c.rest = t :: (used ++ c'.rest) ∧ t.kind = c.kind ∧ t.kind.Inner ∧
      Counts 0 (t.kind :: used.map Token.kind) 0 ∧ Token.Closed (used.map Token.kind) ∧
      c.Moved (t.kind :: used.map Token.kind) c' ∧
      span = ⟨t.span.start, Token.wordStop t.span.stop used⟩ := by
  obtain ⟨hkind, rfl⟩ := definition_start h
  have hinner : c.kind.Inner := by
    rcases hkind with hkind | ⟨-, hkind⟩ <;> rw [hkind] <;> simp [Kind.Inner, Kind.Flat]
  obtain ⟨_, _, all, -, -, -, hmoved, hcounts, hclosed⟩ := tandem_definition (P := Stmt.ReadFrom c)
    (fun _ _ htwin hstart hlength => tandem_stmtWithin htwin hstart (Nat.lt_add_right _ hlength))
    (fun c₁ c₂ s hstart hs => ⟨depth, c₁, c₂, hstart, hs⟩) (.self hlined) hinner (.refl c)
    (Nat.le_refl _) h (.inr rfl)
  obtain ⟨ts, hts, rfl, hstop⟩ := hmoved.rest
  cases ts with
  | nil =>
    obtain ⟨ls, k, hls, -⟩ := hclosed
    simp at hls
  | cons t used =>
    have htoken : c.token = t := by
      unfold Cursor.token
      rw [hts]
      rfl
    have ht : t.kind = c.kind := by rw [← htoken, Cursor.kind]
    rw [← ht] at hinner
    have hlast : Token.Closed (used.map Token.kind) := by
      obtain ⟨ls, k, hls, hk⟩ := hclosed
      cases ls with
      | nil =>
        obtain ⟨rfl, -⟩ := List.cons.inj hls
        exact absurd (hinner.not_layout.symm.trans hk) Bool.false_ne_true
      | cons l ls => exact ⟨ls, k, (List.cons.inj hls).2, hk⟩
    refine ⟨t, used, hts, ht, hinner, hcounts, hlast, hmoved, ?_⟩
    rw [hstop, htoken, Token.wordStop, Token.wordStop, List.filter_cons,
      if_pos (Layout.isInner_of_inner hinner), List.getLast?_cons]
    cases (used.filter Layout.isInner).getLast? <;> rfl

/-- A definition of a script has been read where a line starts. -/
theorem Script.definition_read {text label : String} {script : Script} {span : Span} {name : String}
    {ds : List Expr} {ps : List (Param Expr)} {b : List Stmt} (h : parse text label = .ok script)
    (hdef : .define span name ds ps b ∈ Stmt.withinAll script.body)
    (hlined : Token.Lined ((Lexed.ofText text.toList).tokens.map Token.kind)) :
    ∃ front c depth c', (Lexed.ofText text.toList).tokens = front ++ c.rest ∧
      Token.Settled (front.map Token.kind) ∧ Token.Lined c.ahead ∧
      Parse.definition (Parse.stmtWithin depth) c = .ok (.define span name ds ps b) c' := by
  obtain ⟨-, hparsed, -⟩ := (parse_eq_ok script).1 h
  have hlast := Lexed.kind_getLast? text.toList
  have hne := Lexed.tokens_ne_nil text.toList
  generalize (Lexed.ofText text.toList).tokens = tokens at *
  have hrest := Cursor.rest_ofTokens hlast hne
  have hahead : (Cursor.ofTokens tokens).ahead = tokens.map Token.kind := by
    rw [Cursor.ahead, hrest]
  generalize ho : Cursor.ofTokens tokens = o at hrest hahead
  have hskip : Stmt.Notes (Stmt.ReadFrom o) script.body := by
    rw [← hahead] at hlined
    obtain ⟨_, _, used, -, -, -, hmoved, -, hused⟩ :=
      tandem_skipNewlines (.self hlined) (a := ()) rfl (.inr rfl)
    have hbody : Parsed.ofCursor (o.skipNewlines.bound + 1) Parsed.errorLimit o.skipNewlines =
        ⟨script.body, []⟩ := by
      rw [← hparsed, ← ho]
      rfl
    exact Parsed.notes_of_ofCursor (hmoved.ahead ▸ hlined).of_append ⟨used, hmoved, hused⟩ hbody
  obtain ⟨depth, c, c', ⟨before, hmoved, hbefore⟩, hs⟩ := hskip _ hdef rfl
  obtain ⟨front, hfront, hfrontKinds, -⟩ := hmoved.rest
  refine ⟨front, c, depth, c', by rw [← hrest, hfront], hfrontKinds ▸ hbefore, ?_, hs⟩
  rw [← hahead, hmoved.ahead] at hlined
  exact hlined.of_append

/-- What hangs off the line that a definition without decorators starts is all of it. -/
theorem Script.definition_tokens {text label : String} {script : Script} {span : Span}
    {name : String} {ps : List (Param Expr)} {b : List Stmt} (h : parse text label = .ok script)
    (hdef : .define span name [] ps b ∈ Stmt.withinAll script.body)
    (hlined : Token.Lined ((Lexed.ofText text.toList).tokens.map Token.kind)) :
    ∃ before t used rest ls, (Lexed.ofText text.toList).tokens = before ++ t :: (used ++ rest) ∧
      Token.Settled (before.map Token.kind) ∧ t.kind = .keyword .def_ ∧
      span = ⟨t.span.start, Token.wordStop t.span.stop used⟩ ∧
      used.map Token.kind = .ident name :: ls ∧ Token.Hung 0 false (used.map Token.kind) ∧
      Counts 0 (used.map Token.kind) 0 := by
  obtain ⟨front, c, depth, c', htokens, hfront, hlined, hs⟩ := definition_read h hdef hlined
  have hkind : c.kind = .keyword .def_ := (Parse.definition_start hs).1.resolve_right (·.1 rfl)
  obtain ⟨t, used, hused, ht, -, hcounts, -, -, hspan⟩ := Parse.rest_of_definition hlined hs
  rw [hkind] at ht
  -- The line that the definition starts.
  have hc := Cursor.ahead_advance_of_kind hkind (by simp)
  obtain ⟨ks, rest, hks, hinner⟩ : ∃ ks rest, c.advance.ahead = ks ++ .newline :: rest ∧
      ∀ k ∈ ks, k.Inner := by
    rw [hc] at hlined
    exact hlined.1 (by simp [Kind.Inner, Kind.Flat])
  rw [hks] at hc
  obtain ⟨x, left, ps', b', below, rfl, hdefine, hmoved', -, hbelow⟩ :=
    Parse.definition_eq_ok_lines hlined hinner hc hs
  obtain rfl : name = x := by
    cases hdefine
    rfl
  have husedKinds : used.map Token.kind = .ident name :: (left ++ .newline :: below) := by
    have hahead := hmoved'.ahead
    rw [Cursor.ahead, Cursor.ahead, hused, List.map_cons, List.map_append] at hahead
    exact List.append_cancel_right (List.cons.inj hahead).2
  refine ⟨front, t, used, c'.rest, left ++ .newline :: below, by rw [htokens, hused],
    hfront, ht, hspan, husedKinds, ?_, ?_⟩
  · rw [husedKinds]
    exact Token.Hung.of_line (fun k hk => ⟨(hinner k hk).1, (hinner k hk).2.1⟩) hbelow
  · rw [ht] at hcounts
    cases hcounts with
    | cons hk hcounts =>
      cases hk
      exact hcounts

/-! ## The place of a definition -/

/-- Where a definition stands in a text, with decorators or without: from the first character of a
line behind its margin up to the last character of another line but for blanks. -/
structure Stretch (text : List Char) (span : Span) (done margin chars behind : List Char) :
    Prop where
  text : text = done ++ (margin ++ (chars ++ behind))
  start : span.start = Text.byteLength (done ++ margin)
  stop : span.stop = Text.byteLength (done ++ margin ++ chars)
  line : done = [] ∨ ∃ front, done = front ++ ['\n']
  blank : ∀ c ∈ margin, Lexeme.isBlank c = true
  first : ∃ c cs, chars = c :: cs ∧ Text.isBlank c = false
  last : ∃ cs c, chars = cs ++ [c] ∧ Text.isBlank c = false

namespace Piece.Fits

variable {p : Piece} {rest : List Char}

/-- A token that is not the end of a line starts with no white space. -/
theorem first (h : p.Fits rest) (hp : p.kind ≠ .newline) :
    ∃ c cs, p.chars = c :: cs ∧ Text.isBlank c = false := by
  obtain ⟨c, cs, hchars, hread⟩ := h.token
  refine ⟨c, cs, hchars, Bool.eq_false_iff.2 fun hc => hp ?_⟩
  rcases (Lexeme.read_token hread).2 with hinner | ⟨hnewline, -⟩
  · rcases Lexeme.newline_of_isBlank hc hread with rfl | ⟨rfl, more, hmore⟩
    · exact (Lexeme.token.inj (Prod.mk.inj hread).1).symm
    · rw [hmore] at hread
      exact (Lexeme.token.inj (Prod.mk.inj hread).1).symm
  · exact hnewline

/-- Neither does it end with any. -/
theorem last (h : p.Fits rest) (hp : p.kind ≠ .newline) :
    ∃ cs c, p.chars = cs ++ [c] ∧ Text.isBlank c = false := by
  obtain ⟨c, cs, hchars, hread⟩ := h.token
  rcases List.eq_nil_or_concat p.chars with hnil | ⟨front, d, hfront⟩
  · rw [hchars] at hnil
    cases hnil
  rw [List.concat_eq_append] at hfront
  have hwhole : c :: (cs ++ rest) = front ++ d :: rest := by
    rw [← List.cons_append, ← hchars, hfront, List.append_assoc]
    rfl
  refine ⟨front, d, hfront, Lexeme.not_isBlank_last hread hp hwhole ?_⟩
  have hlength := congrArg List.length (hchars.symm.trans hfront)
  rw [List.length_cons, List.length_append, List.length_singleton] at hlength
  omega

end Piece.Fits

/-- Pieces whose last one ends no line end with no white space. -/
theorem Piece.Fit.last {ps : List Piece} {rest : List Char} (h : Fit ps rest) (hps : ps ≠ [])
    (hlast : ∀ p ∈ ps.getLast?, p.kind ≠ .newline) :
    ∃ cs d, text ps = cs ++ [d] ∧ Text.isBlank d = false := by
  induction ps with
  | nil => exact absurd rfl hps
  | cons p ps ih =>
    cases ps with
    | nil =>
      obtain ⟨cs, d, hcs, hd⟩ := h.1.last (hlast p rfl)
      exact ⟨p.gap ++ cs, d, by rw [text, text, hcs]; simp, hd⟩
    | cons q ps =>
      obtain ⟨cs, d, hcs, hd⟩ :=
        ih h.2 (List.cons_ne_nil q ps) (by rwa [List.getLast?_cons_cons] at hlast)
      exact ⟨p.gap ++ (p.chars ++ cs), d, by rw [text, hcs]; simp, hd⟩

/-- Where the tokens of a definition stand in a text, with decorators or without: the first one
behind the margin of a line, and the others as pieces behind it. -/
structure Inset (text : List Char) (span : Span) (done margin : List Char) (k : Kind)
    (chars : List Char) (ps : List Piece) (behind : List Char) : Prop where
  text : text = done ++ (margin ++ (chars ++ Piece.text ps ++ behind))
  start : span.start = Text.byteLength (done ++ margin)
  stop : span.stop = Text.byteLength (done ++ margin ++ (chars ++ Piece.text ps))
  line : done = [] ∨ ∃ front, done = front ++ ['\n']
  blank : ∀ c ∈ margin, Lexeme.isBlank c = true
  starts : k = .keyword .def_ ∨ k = .symbol .atSign
  opening : Piece.Fits ⟨[], k, chars⟩ (Piece.text ps ++ behind)
  fit : Piece.Fit ps behind
  last : ∀ p ∈ ps.getLast?, p.kind ≠ .newline
  stops : behind = [] ∨ ∃ e ∈ Lexeme.stops, ∃ rest, behind = e :: rest

namespace Inset

variable {text done margin chars behind : List Char} {span : Span} {k : Kind} {ps : List Piece}
  (h : Inset text span done margin k chars ps behind)
include h

theorem inner : k.Inner := by
  rcases h.starts with rfl | rfl <;> simp [Kind.Inner, Kind.Flat]

theorem ne_str (text : String) : k ≠ .str text := by
  rcases h.starts with rfl | rfl <;> simp

theorem stretch : Stretch text span done margin (chars ++ Piece.text ps) behind where
  text := h.text
  start := h.start
  stop := h.stop
  line := h.line
  blank := h.blank
  first := by
    obtain ⟨d, ds, hds, hd⟩ := h.opening.first h.inner.2.1
    exact ⟨d, ds ++ Piece.text ps, by rw [show chars = d :: ds from hds]; rfl, hd⟩
  last := by
    by_cases hps : ps = []
    · obtain ⟨ds, d, hds, hd⟩ := h.opening.last h.inner.2.1
      exact ⟨ds, d, by rw [hps, Piece.text, List.append_nil]; exact hds, hd⟩
    · obtain ⟨ds, d, hds, hd⟩ := h.fit.last hps h.last
      exact ⟨chars ++ ds, d, by rw [hds, List.append_assoc], hd⟩

end Inset

/-- Where a definition without decorators stands in a text: it starts on a line of its own, behind a
margin, with its keyword and its name, and its further lines are indented more than the margin. -/
structure Site (text : List Char) (span : Span) (name : String) (done margin chars : List Char)
    (ps : List Piece) (behind : List Char) : Prop
    extends Inset text span done margin (.keyword .def_) chars ps behind where
  named : ∃ p more, ps = p :: more ∧ p.kind = .ident name
  hangs : Layout.Starts (Layout.width margin < Layout.indentation ·) false 0 ps 0

theorem Piece.Read.solid {ps : List Piece} {tail : List Char} (h : Read ps tail) :
    ∀ p ∈ ps, p.Solid := by
  induction ps with
  | nil => exact fun p hp => absurd hp List.not_mem_nil
  | cons p ps ih =>
    refine List.forall_mem_cons.2 ⟨?_, ih h.2⟩
    by_cases hp : p.kind = .newline
    · exact .inr ⟨hp, h.1.newline hp⟩
    · exact .inl (h.1.inner hp)

theorem Piece.Solid.inner {p : Piece} (h : p.Solid) (hp : p.kind ≠ .newline) : p.kind.Inner :=
  h.resolve_right fun hnewline => hp hnewline.1

namespace Layout

/-- What is in front of a line ends with the end of another one, and the margin of the line is
behind that. -/
theorem exists_margin {front gap : List Char} (hfront : lineHead front = []) :
    ∃ done, front ++ gap = done ++ lineHead gap ∧ (done = [] ∨ ∃ cs, done = cs ++ ['\n']) := by
  rcases lineHead_eq gap with hgap | ⟨before, hgap⟩
  · refine ⟨front, congrArg (front ++ ·) hgap.symm, ?_⟩
    rcases lineHead_eq front with hhead | ⟨before, hhead⟩
    · exact .inl (hhead.symm.trans hfront)
    · exact .inr ⟨before, hhead.trans (by rw [hfront])⟩
  · exact ⟨front ++ (before ++ ['\n']), (congrArg (front ++ ·) hgap).trans (by simp),
      .inr ⟨front ++ before, by simp⟩⟩

/-- The tokens that hang off a line within which they start are those of pieces, from the first one
on. -/
theorem Covers.exists_pieces {b start stop : Nat} {levels : List Nat} {all : List Piece} {u : Token}
    {us rest : List Token} (hall : ∀ p ∈ all, p.kind ≠ .newline → p.kind.Inner) (hu : u.kind.Inner)
    (h : Covers b false 0 start all (u :: us))
    (htokens : (through start ⟨levels, 0, false⟩ all).tokens ++
      finish stop (through start ⟨levels, 0, false⟩ all).state = u :: us ++ rest) :
    ∃ p ps behind, all = p :: ps ++ behind ∧ p.kind = u.kind ∧
      Starts (b < indentation ·) false 0 (p :: ps) 0 ∧
      Token.wordStop start (u :: us) = start + Text.byteLength (Piece.text (p :: ps)) ∧
      (∀ q ∈ (p :: ps).getLast?, q.kind ≠ .newline) ∧
      (behind = [] ∨ ∃ q more, behind = q :: more ∧ q.kind = .newline) := by
  obtain ⟨ps, behind, rfl, hstarts, hplace, hlast, hbehind⟩ := h
  rw [List.filter_cons, if_pos (isInner_of_inner hu)] at hplace
  obtain ⟨p, ps, rfl⟩ : ∃ p more, ps = p :: more := by
    cases ps with
    | nil => cases hplace
    | cons p ps => exact ⟨p, ps, rfl⟩
  -- A newline would end the line in front of the token.
  have hline : p.kind ≠ .newline := by
    intro hp
    have hstep (span : Span) : step p.gap ⟨p.kind, span⟩ ⟨levels, 0, false⟩ =
        ⟨⟨levels, 0, true⟩, [⟨.newline, span⟩], []⟩ := by
      rw [hp]
      rfl
    rw [List.cons_append, through, hstep] at htokens
    rw [← (List.cons.inj htokens).1] at hu
    exact hu.2.1 rfl
  have hlastInner (q : Piece) (hq : q ∈ (p :: ps).getLast?) : q.kind.Inner :=
    hall q (List.mem_append_left _ (List.mem_of_getLast? hq)) (hlast q hq)
  refine ⟨p, ps, behind, rfl, ?_, hstarts, ?_, hlast, hbehind.resolve_left (by simp)⟩
  · rw [Piece.place, List.filter_cons, if_pos (isInner_of_inner (hall p (by simp) hline))] at hplace
    rw [← (List.cons.inj hplace).1]
  · rw [← Piece.wordStop_place (List.cons_ne_nil p ps) hlastInner start, Token.wordStop,
      Token.wordStop, hplace, List.filter_cons, if_pos (isInner_of_inner hu)]

end Layout

/-- The first token of a line of a text, behind the margin of the line, and the pieces that follow
it. -/
structure Lexed.Line (cs : List Char) (t : Token) (after : List Token)
    (done margin chars : List Char) (ps : List Piece) (tail : List Char) : Prop where
  text : cs = done ++ (margin ++ (chars ++ (Piece.text ps ++ tail)))
  line : done = [] ∨ ∃ front, done = front ++ ['\n']
  blank : ∀ c ∈ margin, Lexeme.isBlank c = true
  start : t.span.start = Text.byteLength (done ++ margin)
  stop : t.span.stop = t.span.start + Text.byteLength chars
  fits : Piece.Fits ⟨[], t.kind, chars⟩ (Piece.text ps ++ tail)
  read : Piece.Read ps tail
  layout : ∃ levels l, Layout.width margin = levels.headD 0 ∧ t.kind.Counts 0 l ∧
    Layout.State.Nested ⟨levels, l, false⟩ ∧
    (Layout.through t.span.stop ⟨levels, l, false⟩ ps).errors = [] ∧
    (Layout.through t.span.stop ⟨levels, l, false⟩ ps).tokens ++ Layout.finish (Text.byteLength cs)
      (Layout.through t.span.stop ⟨levels, l, false⟩ ps).state = after

/-- A token that stands where a line starts is the first one of a line of the text. -/
theorem Lexed.exists_line {text : List Char} (herrors : (ofText text).errors = [])
    {before after : List Token} {t : Token} (htokens : (ofText text).tokens = before ++ t :: after)
    (hbefore : Token.Settled (before.map Token.kind)) (ht : t.kind.Inner) :
    ∃ done margin chars ps tail, Line text t after done margin chars ps tail := by
  obtain ⟨all, tail, htext, hread⟩ := pieces_of_errors herrors
  have hlexed := ofText_text hread
  rw [← htext] at hlexed
  have hsolid := hread.solid
  rw [hlexed] at herrors htokens
  obtain ⟨front, p, ps, levels, l, rfl, hp, hfresh, hfirst, hend, hlevels, hl, hnested,
    hnone, hps⟩ :=
    @Layout.through_located _ .start 0 _ (fun p hp => (hsolid p hp).inner)
    (fun _ => rfl) herrors _ _ _
      ht htokens (fun _ => rfl) hbefore
  obtain ⟨-, hpFits, hread'⟩ := hread.split
  have hsound : (Layout.through 0 .start front).state.Sound (Piece.text front) :=
    Layout.State.Sound.start.through fun q hq => hsolid q (by simp [hq])
  obtain ⟨done, hdone, hline⟩ := @Layout.exists_margin _ p.gap (hsound.head hfresh)
  have hbytes := congrArg Text.byteLength hdone
  rw [Text.byteLength_append] at hbytes
  obtain ⟨c, cs, hchars, hreadWord⟩ := hpFits.token
  refine ⟨done, Layout.lineHead p.gap, p.chars, ps, tail, ?_, hline, ?_, ?_, hend,
    ⟨.nil, c, cs, hchars, hp ▸ hreadWord⟩, hread', levels, l, hlevels, hp ▸ hl,
    hnested Layout.State.Sound.start.nested, hnone, hps⟩
  · rw [htext, ← List.append_assoc, ← hdone, Piece.text_append, Piece.text]
    simp
  · refine Skips.isBlank_lineHead hpFits.gap (by rw [hchars]; simp) fun more hmore => ?_
    -- The token is not the end of a line, with which the text behind the gap would start.
    rw [hchars] at hmore
    obtain rfl := (List.cons.inj hmore).1
    have hkind : Kind.newline = p.kind := Lexeme.token.inj (congrArg Prod.fst hreadWord)
    exact ht.2.1 (hp.symm.trans hkind.symm)
  · rw [hfirst, ← hbytes, Nat.zero_add]

/-- Every line of a text without errors has an end. -/
theorem Lexed.lined_ofText {text : List Char} (herrors : (ofText text).errors = []) :
    Token.Lined ((ofText text).tokens.map Token.kind) := by
  obtain ⟨all, tail, htext, hread⟩ := pieces_of_errors herrors
  have hlexed := ofText_text hread
  rw [← htext] at hlexed
  rw [hlexed] at herrors ⊢
  exact (@Layout.through_lined _ .start 0 (Text.byteLength text) (fun _ => rfl)
    (fun p hp => (hread.solid p hp).inner) herrors).1

/-- A definition without decorators stands where its script says. -/
theorem Script.exists_site {text label : String} {script : Script} {span : Span} {name : String}
    {params : List (Param Expr)} {b : List Stmt} (h : parse text label = .ok script)
    (hdef : .define span name [] params b ∈ Stmt.withinAll script.body) :
    ∃ done margin chars ps behind, Site text.toList span name done margin chars ps behind := by
  obtain ⟨herrors, -, -⟩ := (parse_eq_ok script).1 h
  obtain ⟨before, t, used, rest, ls, hbefore, hsettled, ht, hspan, hkinds, hung, hcounts⟩ :=
    definition_tokens h hdef (Lexed.lined_ofText herrors)
  -- The keyword is the first token of a line, and the definition is that of pieces behind it.
  obtain ⟨done, margin, chars, ps, tail, hline⟩ := Lexed.exists_line herrors hbefore hsettled
    (by rw [ht]; simp [Kind.Inner, Kind.Flat])
  obtain ⟨levels, l, hlevels, hl, hnested, hnone, hps⟩ := hline.layout
  have hinner (q : Piece) (hq : q ∈ ps) : q.kind ≠ .newline → q.kind.Inner :=
    (hline.read.solid q hq).inner
  obtain rfl : l = 0 := hl.unique (by rw [ht]; rfl)
  obtain ⟨u, us, rfl, hu, -⟩ := List.map_eq_cons_iff.1 hkinds
  have hnested : Layout.State.Nested ⟨[] ++ levels, 0, false⟩ := hnested
  have hcovers := Layout.HangsOff.covers hinner ⟨hnested, by simp, hnone, hps, hung, hcounts⟩
  obtain ⟨q, more, behind, rfl, hq, hstarts, hwordStop, hlast, hbehind⟩ :=
    hcovers.exists_pieces hinner (by rw [hu]; simp [Kind.Inner, Kind.Flat]) hps
  obtain ⟨hfit, hbehindRead⟩ := hline.read.split
  have hfits := hline.fits
  rw [ht, Piece.text_append, List.append_assoc] at hfits
  refine ⟨done, margin, chars, q :: more, Piece.text behind ++ tail,
    ⟨?_, ?_, ?_, hline.line, hline.blank, .inl rfl, hfits, hfit, hlast, hbehindRead.stops hbehind⟩,
    ⟨q, more, rfl, hq.trans hu⟩, hlevels ▸ hstarts⟩
  · rw [hline.text, Piece.text_append]
    simp
  · rw [hspan]
    exact hline.start
  · rw [hspan]
    dsimp only
    rw [hwordStop, hline.stop, hline.start]
    simp only [Text.byteLength_append, Nat.add_assoc]

/-! ## Words -/

/-- Whether tokens of the kind stand for characters of a text and end no line. -/
def Token.Kind.isWord : Kind → Bool
  | .newline | .indent | .dedent | .eof => false
  | _ => true

theorem Token.Kind.isWord_iff {k : Kind} : k.isWord = true ↔ k.Inner := by
  cases k <;> simp [isWord, Inner, Flat]

/-- Those of the tokens that stand for characters of a text and end no line. -/
def Token.words (ks : List Kind) : List Kind := ks.filter Kind.isWord

namespace Token

variable {ks ls : List Kind}

theorem words_append (ks ls : List Kind) : words (ks ++ ls) = words ks ++ words ls :=
  List.filter_append ks ls

theorem words_eq_self (h : ∀ k ∈ ks, k.Inner) : words ks = ks :=
  List.filter_eq_self.2 fun k hk => Kind.isWord_iff.2 (h k hk)

theorem kinds_isInner (ts : List Token) :
    (ts.filter Layout.isInner).map Token.kind = words (ts.map Token.kind) := by
  rw [words, List.filter_map]
  refine congrArg (List.map Token.kind) (List.filter_congr fun t _ => ?_)
  obtain ⟨kind, span⟩ := t
  cases kind <;> rfl

end Token

/-! ## The place of any definition -/

/-- Pieces are placed as tokens of their kinds. -/
theorem Piece.kinds_place (start : Nat) (ps : List Piece) :
    (place start ps).map Token.kind = ps.map Piece.kind := by
  induction ps generalizing start with
  | nil => rfl
  | cons p ps ih => rw [place, List.map_cons, ih, List.map_cons]

/-- The first words of pieces are those of the first of the pieces. -/
theorem Piece.exists_front {start : Nat} {ps : List Piece} {ts : List Token}
    (h : ts <+: (place start ps).filter Layout.isInner) :
    ∃ qs more, ps = qs ++ more ∧ ts = (place start qs).filter Layout.isInner ∧
      ∀ q ∈ qs.getLast?, q.kind ≠ .newline := by
  induction ps generalizing start ts with
  | nil => exact ⟨[], [], rfl, List.prefix_nil.1 h, by simp⟩
  | cons p ps ih =>
    cases ts with
    | nil => exact ⟨[], p :: ps, rfl, rfl, by simp⟩
    | cons t ts =>
      rw [place, List.filter_cons] at h
      split at h
      · next hp =>
        obtain ⟨rfl, hts⟩ := List.cons_prefix_cons.1 h
        obtain ⟨qs, more, rfl, rfl, hlast⟩ := ih hts
        refine ⟨p :: qs, more, rfl, by rw [place, List.filter_cons, if_pos hp], ?_⟩
        cases qs with
        | nil =>
          rintro q hq hnewline
          obtain rfl : p = q := by simpa using hq
          rw [Layout.isInner, hnewline] at hp
          cases hp
        | cons r qs => simpa [List.getLast?_cons_cons] using hlast
      · next hp =>
        obtain ⟨qs, more, rfl, hts, hlast⟩ := ih h
        refine ⟨p :: qs, more, rfl, by rw [place, List.filter_cons, if_neg hp, hts], ?_⟩
        cases qs with
        | nil => cases hts
        | cons r qs => simpa [List.getLast?_cons_cons] using hlast

namespace Layout

theorem finish_isInner (stop : Nat) (s : State) : (finish stop s).filter isInner = [] := by
  rw [List.filter_eq_nil_iff]
  intro t ht
  unfold finish at ht
  simp only [List.mem_append, List.mem_map, List.mem_singleton] at ht
  rcases ht with (ht | ⟨-, -, rfl⟩) | rfl
  · split at ht
    · cases ht
    · cases List.mem_singleton.1 ht
      exact Bool.false_ne_true
  · exact Bool.false_ne_true
  · exact Bool.false_ne_true

variable {s : State} {start stop : Nat} {ps qs : List Piece}

/-- Behind a word the line goes on, and the word is the last of the tokens. -/
theorem through_word (hps : ∀ p ∈ ps, p.kind ≠ .newline → p.kind.Inner)
    (hn : s.fresh = true → s.brackets = 0) (herrors : (through start s ps).errors = [])
    (hne : ps ≠ []) (hlast : ∀ p ∈ ps.getLast?, p.kind ≠ .newline) :
    (through start s ps).state.fresh = false ∧
      ∃ ts t, (through start s ps).tokens = ts ++ [t] ∧ isInner t = true := by
  induction ps generalizing s start with
  | nil => exact absurd rfl hne
  | cons p ps ih =>
    obtain ⟨hp, hps⟩ := List.forall_mem_cons.1 hps
    unfold through at herrors ⊢
    dsimp only at herrors ⊢
    obtain ⟨hhere, hrest⟩ := List.append_eq_nil_iff.1 herrors
    have hbehind {s' : State} {marks : List Token} (hn : s'.fresh = true → s'.brackets = 0)
        (hhead : ps = [] → s'.fresh = false ∧ ∃ ts t, marks = ts ++ [t] ∧ isInner t = true)
        {start : Nat} (hrest : (through start s' ps).errors = []) :
        (through start s' ps).state.fresh = false ∧
          ∃ ts t, marks ++ (through start s' ps).tokens = ts ++ [t] ∧ isInner t = true := by
      by_cases hnil : ps = []
      · subst hnil
        obtain ⟨hfresh, ts, t, hts, ht⟩ := hhead rfl
        exact ⟨hfresh, ts, t, (List.append_nil _).trans hts, ht⟩
      · have hlast : ∀ q ∈ ps.getLast?, q.kind ≠ .newline := by
          obtain ⟨q, ps, rfl⟩ := List.exists_cons_of_ne_nil hnil
          rwa [List.getLast?_cons_cons] at hlast
        obtain ⟨hfresh, ts, t, hts, ht⟩ := ih hps hn hrest hnil hlast
        exact ⟨hfresh, marks ++ ts, t, by rw [hts, List.append_assoc], ht⟩
    have hpiece (hnil : ps = []) : p.kind ≠ .newline := hlast p (by rw [hnil]; rfl)
    have hword (hk : p.kind ≠ .newline) (span : Span) : isInner ⟨p.kind, span⟩ = true :=
      isInner_of_inner (hp hk)
    rcases step_cases hn hhere with ⟨hk, hdrop, hstep⟩ | ⟨hk, hfresh, hzero, hstep⟩ |
      ⟨hk, hfresh, l, hl, hstep⟩ | ⟨hk, hfresh, l, hl, hw, hstep⟩ |
      ⟨hk, hfresh, l, closed, levels, hl, hlevels, hw, hstep⟩
    all_goals rw [hstep] at hrest ⊢
    · exact hbehind hn (fun hnil => absurd hk (hpiece hnil)) hrest
    · have hzero : State.brackets ⟨s.levels, s.brackets, true⟩ = 0 := hzero
      exact hbehind (fun _ => hzero) (fun hnil => absurd hk (hpiece hnil)) hrest
    · exact hbehind (by simp) (fun _ => ⟨rfl, [], _, rfl, hword hk _⟩) hrest
    · exact hbehind (by simp) (fun _ => ⟨rfl, [_], _, rfl, hword hk _⟩) hrest
    · exact hbehind (by simp) (fun _ => ⟨rfl, _, _, rfl, hword hk _⟩) hrest

theorem isInner_of_isLayout {t : Token} (h : t.kind.isLayout = true) : isInner t = false := by
  obtain ⟨kind, span⟩ := t
  cases kind <;> first | rfl | cases h

/-- Tokens that end with a mark are all tokens up to the last of their words, and marks behind
it. -/
theorem exists_marks {ts behind used rest : List Token}
    (hts : ts = [] ∨ ∃ us u, ts = us ++ [u] ∧ isInner u = true)
    (hclosed : Token.Closed (used.map Token.kind)) (h : ts ++ behind = used ++ rest)
    (hused : used.filter isInner = ts.filter isInner) :
    ∃ marks, used = ts ++ marks ∧ behind = marks ++ rest ∧ marks ≠ [] ∧
    marks.filter isInner = [] := by
  -- The last word of `ts` cannot be behind that of `used`, nor can it be the mark itself.
  have hlast {as : List Token} (has : ts = used ++ as) : False := by
    rw [has, List.filter_append, List.self_eq_append_right] at hused
    rcases List.eq_nil_or_concat as with rfl | ⟨as, a, rfl⟩
    · obtain ⟨ks, k, hks, hk⟩ := hclosed
      rw [List.append_nil] at has
      rcases hts with hnil | ⟨us, u, hu, hinner⟩
      · rw [← has, hnil] at hks
        simp at hks
      · rw [← has, hu, List.map_append] at hks
        obtain ⟨-, hks⟩ := List.append_inj' hks rfl
        obtain rfl := (List.cons.inj hks).1
        rw [isInner_of_isLayout hk] at hinner
        cases hinner
    · rw [List.concat_eq_append] at has hused
      rcases hts with hnil | ⟨us, u, hu, hinner⟩
      · rw [hnil] at has
        simp at has
      · rw [hu, ← List.append_assoc] at has
        obtain ⟨-, hua⟩ := List.append_inj' has rfl
        obtain rfl := (List.cons.inj hua).1
        simp [hinner] at hused
  rcases List.append_eq_append_iff.1 h with ⟨marks, hmarks, hbehind⟩ | ⟨as, has, -⟩
  · refine ⟨marks, hmarks, hbehind, ?_, ?_⟩
    · rintro rfl
      have hsame : ts = used ++ [] := by rw [hmarks, List.append_nil, List.append_nil]
      exact hlast hsame
    · rwa [hmarks, List.filter_append, List.append_right_eq_self] at hused
  · exact (hlast has).elim

/-- Tokens that end with a mark have been taken from the line of a token and from further lines:
they are those of some pieces, the last of which ends no line, and marks behind them. -/
structure Portion (start stop : Nat) (s : State) (qs more : List Piece)
    (used marks rest : List Token) :
    Prop where
  last : ∀ q ∈ qs.getLast?, q.kind ≠ .newline
  behind : more = [] ∨ ∃ p more', more = p :: more' ∧ p.kind = .newline
  fresh : (through start s qs).state.fresh = false
  tokens : used = (through start s qs).tokens ++ marks
  words : used.filter isInner = (Piece.place start qs).filter isInner
  stops : Token.wordStop start used = start + Text.byteLength (Piece.text qs)
  marked : marks ≠ [] ∧ marks.filter isInner = []
  left : (through (start + Text.byteLength (Piece.text qs)) (through start s qs).state
    more).tokens ++ finish stop (through (start + Text.byteLength (Piece.text qs))
    (through start s qs).state more).state =
      marks ++ rest
  errors : (through start s qs).errors = [] ∧
    (through (start + Text.byteLength (Piece.text qs)) (through start s qs).state more).errors = []

theorem exists_portion (hps : ∀ p ∈ ps, p.kind ≠ .newline → p.kind.Inner) (hfresh : s.fresh = false)
    (herrors : (through start s ps).errors = []) {used rest : List Token}
    (htokens : (through start s ps).tokens ++ finish stop (through start s ps).state = used ++ rest)
    (hclosed : Token.Closed (used.map Token.kind)) :
    ∃ qs more marks, ps = qs ++ more ∧ Portion start stop s qs more used marks rest := by
  have hn : s.fresh = true → s.brackets = 0 :=
    fun h => absurd (hfresh.symm.trans h) Bool.false_ne_true
  have hwords := congrArg (List.filter isInner) htokens
  rw [List.filter_append, List.filter_append, finish_isInner, List.append_nil,
    through_isInner hps hn herrors] at hwords
  obtain ⟨qs, more, rfl, hused, hlast⟩ := Piece.exists_front ⟨_, hwords.symm⟩
  have hqs (q : Piece) (hq : q ∈ qs) := hps q (List.mem_append_left _ hq)
  have hstop : Token.wordStop start used = start + Text.byteLength (Piece.text qs) := by
    cases qs with
    | nil =>
      rw [Token.wordStop, hused]
      rfl
    | cons q qs =>
      rw [← Piece.wordStop_place (List.cons_ne_nil q qs) (fun r hr =>
          hqs r (List.mem_of_getLast? hr)
        (hlast r hr)) start start, Token.wordStop, Token.wordStop, hused]
  rw [through_append] at herrors htokens
  dsimp only at herrors htokens
  obtain ⟨hfront, hback⟩ := List.append_eq_nil_iff.1 herrors
  -- Behind the front the line goes on.
  have hline : (through start s qs).state.fresh = false ∧ ((through start s qs).tokens = [] ∨
      ∃ us u, (through start s qs).tokens = us ++ [u] ∧ isInner u = true) := by
    by_cases hnil : qs = []
    · subst hnil
      exact ⟨hfresh, .inl rfl⟩
    · obtain ⟨hfresh, hword⟩ := through_word hqs hn hfront hnil hlast
      exact ⟨hfresh, .inr hword⟩
  obtain ⟨hgoesOn, hends⟩ := hline
  rw [List.append_assoc] at htokens
  obtain ⟨marks, hmarks, hrest, hne, hnone⟩ :=
    exists_marks hends hclosed htokens (by rw [hused, through_isInner hqs hn hfront])
  refine ⟨qs, more, marks, rfl, hlast, ?_, hgoesOn, hmarks, hused, hstop, ⟨hne, hnone⟩, hrest,
    hfront, hback⟩
  cases more with
  | nil => exact .inl rfl
  | cons p more =>
    refine .inr ⟨p, more, rfl, ?_⟩
    by_contra hp
    -- The piece would be the first of the marks.
    rw [through] at hback hrest
    dsimp only at hback hrest
    obtain ⟨hhere, -⟩ := List.append_eq_nil_iff.1 hback
    rcases step_cases (fun h => absurd (hgoesOn.symm.trans h) Bool.false_ne_true) hhere
      with ⟨hk, -⟩ | ⟨hk, -⟩ | ⟨hk, -, l, hl, hstep⟩ | ⟨-, hfresh', -⟩ | ⟨-, hfresh', -⟩
    · exact hp hk
    · exact hp hk
    · rw [hstep] at hrest
      obtain ⟨m, marks, rfl⟩ := List.exists_cons_of_ne_nil hne
      obtain ⟨rfl, -⟩ := List.cons.inj hrest
      rw [List.filter_cons, if_pos (isInner_of_inner (hps p (by simp) hp))] at hnone
      cases hnone
    · exact absurd (hgoesOn.symm.trans hfresh') Bool.false_ne_true
    · exact absurd (hgoesOn.symm.trans hfresh') Bool.false_ne_true

end Layout

/-- A definition of a script stands in its text.  Its words are those of the tokens that the reader
of it has taken. -/
theorem Script.exists_inset {text label : String} {script : Script} {span : Span} {name : String}
    {ds : List Expr} {params : List (Param Expr)} {b : List Stmt}
    (h : parse text label = .ok script)
    (hdef : .define span name ds params b ∈ Stmt.withinAll script.body) :
    ∃ done margin k chars ps behind depth c c' used, Inset text.toList span done margin k
      chars ps behind ∧
      Parse.definition (Parse.stmtWithin depth) c = .ok (.define span name ds params b) c' ∧
      c.ahead = used ++ c'.ahead ∧ Token.words used = Token.words (k :: ps.map Piece.kind) := by
  obtain ⟨herrors, -, -⟩ := (parse_eq_ok script).1 h
  obtain ⟨front, c, depth, c', htokens, hfront, hlined, hs⟩ :=
    definition_read h hdef (Lexed.lined_ofText herrors)
  obtain ⟨t, used, hrest, hkind, ht, -, hclosed, -, hspan⟩ := Parse.rest_of_definition hlined hs
  rw [hrest] at htokens
  obtain ⟨done, margin, chars, ps, tail, hline⟩ := Lexed.exists_line herrors htokens hfront ht
  obtain ⟨levels, l, -, -, -, hnone, hps⟩ := hline.layout
  have hinner (q : Piece) (hq : q ∈ ps) : q.kind ≠ .newline → q.kind.Inner :=
    (hline.read.solid q hq).inner
  -- The tokens of the definition are those of the first of the pieces behind its first token.
  obtain ⟨qs, more, marks, rfl, hportion⟩ := Layout.exists_portion hinner rfl hnone hps hclosed
  obtain ⟨hfit, hbehind⟩ := hline.read.split
  have hfits := hline.fits
  rw [Piece.text_append, List.append_assoc] at hfits
  refine ⟨done, margin, t.kind, chars, qs, Piece.text more ++ tail, depth, c, c',
    (t :: used).map Token.kind, ⟨?_, ?_, ?_, hline.line, hline.blank, ?_, hfits, hfit,
      hportion.last,
    hbehind.stops hportion.behind⟩, hs, ?_, ?_⟩
  · rw [hline.text, Piece.text_append]
    simp
  · rw [hspan]
    exact hline.start
  · rw [hspan]
    dsimp only
    rw [hportion.stops, hline.stop, hline.start]
    simp only [Text.byteLength_append, Nat.add_assoc]
  · rw [hkind]
    exact (Parse.definition_start hs).1.imp id And.right
  · rw [Cursor.ahead, Cursor.ahead, hrest, ← List.map_append]
    rfl
  · have hfirst (ls : List Kind) : Token.words (t.kind :: ls) = t.kind :: Token.words ls :=
      List.filter_cons_of_pos (Token.Kind.isWord_iff.2 ht)
    rw [List.map_cons, hfirst, hfirst, ← Token.kinds_isInner, hportion.words, Token.kinds_isInner,
      Piece.kinds_place]

theorem Script.exists_stretch {text label : String} {script : Script} {span : Span} {name : String}
    {ds : List Expr} {params : List (Param Expr)} {b : List Stmt}
    (h : parse text label = .ok script)
    (hdef : .define span name ds params b ∈ Stmt.withinAll script.body) :
    ∃ done margin chars behind, Stretch text.toList span done margin chars behind := by
  obtain ⟨done, margin, k, chars, ps, behind, -, -, -, -, hinset, -⟩ := exists_inset h hdef
  exact ⟨done, margin, _, behind, hinset.stretch⟩

/-- The lines of a definition are its margin and its text. -/
theorem Stretch.linesOf {source : Source} {span : Span} {done margin chars behind : List Char}
    (h : Stretch source.chars span done margin chars behind)
    (hstart : span.start < LineMap.positions) :
    source.linesOf span = String.ofList (margin ++ chars) :=
  Source.linesOf_eq h.text h.line (fun hmem => absurd (h.blank _ hmem) (by decide)) hstart
  h.start h.stop

end StagedScript
