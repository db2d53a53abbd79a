import StagedScript.Proofs.Layout.Breaks
import StagedScript.Proofs.Parsing.Sites
import StagedScript.Proofs.Reading.Cut
import StagedScript.Proofs.Spans

/-!
# Definitions that are read from their lines

The lines of a definition that starts in the first column are the text of a script of their own.
They are scanned as the tokens that they are part of, since the cut behind them is in front of no
character that goes on a token, and laid out alike, since no block is open in front of them and all
of their own end with them.  So they are read as the definition that they have been taken from.
-/

namespace StagedScript

open Parse
open Token (Kind)

/-! ## Places further on -/

/-- Places of a text, and of what stands in it from one of them on. -/
def Places.from (n : Nat) : Places :=
  ⟨id, (· + n), monotone_id, fun _ _ h => Nat.add_le_add_right h n⟩

theorem Token.same_from (n : Nat) (ts : List Token) :
    List.Forall₂ (Token.Same (.from n)) (ts.map (Token.shift n)) ts := by
  rw [List.forall₂_map_left_iff]
  exact List.forall₂_same.2 fun t _ => ⟨rfl, rfl⟩

/-- A statement that is the same from a place on is the other one with its spans further on. -/
theorem Stmt.Same.mapSpan_shift {n : Nat} {s t : Stmt} (h : s.Same (.from n) t) :
    t.mapSpan (Span.shift n) = s := h.trans s.mapSpan_id

/-! ## The layout of the lines -/

namespace Layout

/-- In the first column no block is open. -/
theorem levels_eq_nil {levels : List Nat} {brackets : Nat} {fresh : Bool}
    (h : State.Nested ⟨levels, brackets, fresh⟩) (hzero : levels.headD 0 = 0) : levels = [] := by
  cases levels with
  | nil => rfl
  | cons level levels =>
    have hpos : level > 0 := List.rel_of_pairwise_cons h (by simp)
    have hlevel : level = 0 := hzero
    omega

variable {start stop : Nat} {s : State} {qs more : List Piece} {used marks rest : List Token}

/-- Tokens that leave no block open end with the end of a line and the ends of all blocks. -/
theorem Portion.kinds_marks (h : Portion start stop s qs more used marks rest)
    (hps : ∀ p ∈ qs ++ more, p.kind ≠ .newline → p.kind.Inner) (hfresh : s.fresh = false)
    (hdepth : Token.depthAfter s.levels.length (used.map Token.kind) = some 0)
    (heof : ∀ t ∈ used, t.kind ≠ .eof) :
    marks.map Token.kind = .newline :: List.replicate (through start s qs).state.levels.length
      .dedent := by
  obtain ⟨hfront, hback⟩ := h.errors
  have hnot {s : State} (hs : s.fresh = false) (hs' : s.fresh = true) : s.brackets = 0 :=
    absurd (hs.symm.trans hs') Bool.false_ne_true
  obtain ⟨breaks, t, behind, hbreaks, hbreak, ht⟩ := through_break stop (hnot h.fresh)
    (fun p hp => hps p (List.mem_append_right _ hp)) hback
  rw [h.fresh] at hbreak
  -- No mark is behind the break, since a word is there or the end of the text.
  have hwithin : marks <+: breaks := by
    rcases List.append_eq_append_iff.1 (h.left.symm.trans hbreaks)
      with ⟨as, has, -⟩ | ⟨as, has, hrest⟩
    · exact ⟨as, has.symm⟩
    · cases as with
      | nil => exact ⟨[], by rw [has, List.append_nil, List.append_nil]⟩
      | cons m as =>
        obtain ⟨rfl, -⟩ := List.cons.inj hrest
        rcases ht with ht | ht
        · have hnone := List.filter_eq_nil_iff.1 h.marked.2 t (by rw [has]; simp)
          exact absurd (isInner_of_inner ht) hnone
        · exact absurd ht (heof t (by rw [h.tokens, has]; simp))
  rw [h.tokens, List.map_append, Token.depthAfter_append,
    through_depthAfter (hnot hfresh) (fun p hp => hps p (List.mem_append_left _ hp)) hfront]
    at hdepth
  exact hbreak.closed (hwithin.map Token.kind) (by simpa using h.marked.1) hdepth

end Layout

/-- A text that starts with the first token of a definition goes on outside of all blocks. -/
theorem Lexed.ofText_opening {k : Kind} {chars : List Char} {qs : List Piece}
    (hk : k = .keyword .def_ ∨ k = .symbol .atSign)
    (hfirst : Piece.Fits ⟨[], k, chars⟩ (Piece.text qs)) (hqs : Piece.Read qs []) :
    let below := Layout.through (Text.byteLength chars) ⟨[], 0, false⟩ qs
    ofText (chars ++ Piece.text qs) = ⟨⟨k, ⟨0, Text.byteLength chars⟩⟩ ::
      (below.tokens ++ Layout.finish (Text.byteLength (chars ++ Piece.text qs)) below.state),
      below.errors⟩ := by
  have hread : Piece.Read (⟨[], k, chars⟩ :: qs) [] := ⟨by rwa [List.append_nil], hqs⟩
  have hstep (span : Span) : Layout.step [] ⟨k, span⟩ .start =
      ⟨⟨[], 0, false⟩, [⟨k, span⟩], []⟩ := by
    rcases hk with rfl | rfl <;> rfl
  have htext : Piece.text (⟨[], k, chars⟩ :: qs) ++ [] = chars ++ Piece.text qs := List.append_nil _
  have hthrough : Layout.through 0 .start (⟨[], k, chars⟩ :: qs) =
      ⟨(Layout.through (Text.byteLength chars) ⟨[], 0, false⟩ qs).state,
        ⟨k, ⟨0, Text.byteLength chars⟩⟩ :: (Layout.through (Text.byteLength chars)
          ⟨[], 0, false⟩ qs).tokens,
        (Layout.through (Text.byteLength chars) ⟨[], 0, false⟩ qs).errors⟩ := by
    rw [Layout.through]
    dsimp only
    rw [hstep]
    simp [Text.byteLength]
  have hlexed := ofText_text hread
  rw [htext, hthrough] at hlexed
  exact hlexed

/-- The lines from a token in the first column on, up to the end of a line behind which no block is
open, are read as the tokens that they are part of. -/
theorem Lexed.Line.cut {text done chars tail : List Char} {t : Token} {used rest : List Token}
    {ps : List Piece} (h : Line text t (used ++ rest) done [] chars ps tail)
    (hk : t.kind = .keyword .def_ ∨ t.kind = .symbol .atSign)
    (hclosed : Token.Closed (used.map Token.kind))
    (hdepth : Token.depthAfter 0 (used.map Token.kind) = some 0)
    (heof : ∀ u ∈ used, u.kind ≠ .eof) :
    ∃ lines behind us, text = done ++ (lines ++ behind) ∧
      Token.wordStop t.span.stop used = Text.byteLength (done ++ lines) ∧
      (ofText lines).errors = [] ∧
      (ofText lines).tokens = us ++ [Layout.mark .eof (Text.byteLength lines)] ∧
      Token.Matched (.from t.span.start) (t :: used) us := by
  have hstart : t.span.start = Text.byteLength done := by rw [h.start, List.append_nil]
  obtain ⟨levels, l, hlevels, hl, hnested, hnone, htokens⟩ := h.layout
  have hinner (p : Piece) (hp : p ∈ ps) : p.kind ≠ .newline → p.kind.Inner :=
    (h.read.solid p hp).inner
  obtain rfl := Layout.levels_eq_nil hnested hlevels.symm
  obtain rfl : l = 0 := hl.unique (by rcases hk with hk | hk <;> rw [hk] <;> rfl)
  obtain ⟨qs, more, marks, rfl, hportion⟩ := Layout.exists_portion hinner rfl hnone htokens hclosed
  have hmarks := hportion.kinds_marks hinner rfl hdepth heof
  have hstop : t.span.stop = Text.byteLength chars + t.span.start := by rw [h.stop, Nat.add_comm]
  have hshift := Layout.through_shift t.span.start ⟨[], 0, false⟩ (Text.byteLength chars) qs
  rw [← hstop] at hshift
  -- The cut is where no token goes on.
  obtain ⟨hfit, hback⟩ := h.read.split
  have hstops := hback.stops hportion.behind
  have hfirst := h.fits
  rw [Piece.text_append, List.append_assoc] at hfirst
  have hlexed := ofText_opening hk (hfirst.cut hstops) (hfit.cut hstops)
  dsimp only at hlexed
  have hfresh := hportion.fresh
  have herrors := hportion.errors.1
  have hused := hportion.tokens
  rw [hshift] at hfresh herrors hused hmarks
  generalize Layout.through (Text.byteLength chars) ⟨[], 0, false⟩ qs =
    below at hlexed hfresh herrors hused hmarks
  obtain ⟨⟨levels, brackets, fresh⟩, tokens, errors⟩ := below
  obtain rfl : fresh = false := hfresh
  obtain rfl : errors = [] := List.map_eq_nil_iff.1 herrors
  obtain ⟨ending, hending, hkinds⟩ : ∃ ending,
    Layout.finish (Text.byteLength (chars ++ Piece.text qs))
      ⟨levels, brackets, false⟩ =
      ending ++ [Layout.mark .eof (Text.byteLength (chars ++ Piece.text qs))] ∧
      ending.map Token.kind = marks.map Token.kind := by
    refine ⟨_, rfl, ?_⟩
    rw [hmarks, if_neg Bool.false_ne_true, List.singleton_append, List.map_cons,
      Layout.kinds_dedents]
    rfl
  refine ⟨chars ++ Piece.text qs, Piece.text more ++ tail, ⟨t.kind, ⟨0, Text.byteLength chars⟩⟩ ::
    tokens ++ ending, ?_, ?_, by rw [hlexed], ?_, ?_⟩
  · rw [h.text, Piece.text_append]
    simp
  · rw [hportion.stops, hstop, hstart]
    simp only [Text.byteLength_append]
    omega
  · rw [hlexed, hending, ← List.append_assoc]
    rfl
  · rw [hused, ← List.cons_append]
    refine .append (.cons ⟨rfl, .mk ?_ ?_⟩ (Token.same_from _ _)) (.line_end hmarks hkinds)
    · exact Nat.zero_add _
    · exact hstop.symm

/-! ## The first token of a definition -/

/-- The cursor with another end of what has been read. -/
def Cursor.behind (stop : Nat) (c : Cursor) : Cursor :=
  { c with lastStop := stop, lastWordStop := stop }

theorem Cursor.token_behind {c : Cursor} (hc : c.kind.Inner) (stop : Nat) :
    (c.behind stop).token = c.token := by
  obtain ⟨rest, lastStop, lastWordStop, bound, hbound⟩ := c
  cases rest with
  | nil => exact absurd rfl hc.2.2
  | cons t ts => rfl

theorem Cursor.advance_behind {c : Cursor} (hc : c.kind.Inner) (stop : Nat) :
    (c.behind stop).advance = c.advance := by
  obtain ⟨rest, lastStop, lastWordStop, bound, hbound⟩ := c
  cases rest with
  | nil => exact absurd rfl hc.2.2
  | cons t ts =>
    have ht : t.kind.Inner := hc
    unfold behind advance
    simp [ht.2.2, ht.not_layout]

theorem Parse.inner_of_definition {k : Kind} (hk : k = .keyword .def_ ∨ k = .symbol .atSign) :
    k.Inner := by
  rcases hk with rfl | rfl <;> simp [Kind.Inner, Kind.Flat]

section

variable {c : Cursor} (hc : c.kind = .keyword .def_ ∨ c.kind = .symbol .atSign) (stop : Nat)
include hc

theorem Parse.front_behind : front (c.behind stop) = front c := by
  have hinner := inner_of_definition hc
  have hsees (k : Kind) : (c.behind stop).sees k = c.sees k := by
    rw [Cursor.sees, Cursor.sees, Cursor.kind, Cursor.kind, Cursor.token_behind hinner]
  have hrounds (c : Cursor) : rounds c = .ok (c.bound + 1) c := rfl
  unfold front
  rw [EStateM.bind_ok (hrounds c), EStateM.bind_ok (hrounds _)]
  change (decorators (c.bound + 1) >>= _) (c.behind stop) = _
  rcases hc with hc | hc
  · have hsign : c.sees (.symbol .atSign) = false := by rw [Cursor.sees, hc]; rfl
    have hdef : c.sees (.keyword .def_) = true := by rw [Cursor.sees, hc]; rfl
    have hseen {c : Cursor} (h : c.sees (.keyword .def_) = true) : sees (.keyword .def_) c =
        .ok true c :=
      congrArg (EStateM.Result.ok · c) h
    have hadvance : advance (c.behind stop) = advance c :=
      congrArg (EStateM.Result.ok ()) (Cursor.advance_behind hinner stop)
    rw [EStateM.bind_ok (decorators_of_sees hsign _),
      EStateM.bind_ok (decorators_of_sees ((hsees _).trans hsign) _), EStateM.bind_ok (hseen hdef),
      EStateM.bind_ok (hseen ((hsees _).trans hdef))]
    exact EStateM.bind_eq_bind hadvance
  · have hsign : c.sees (.symbol .atSign) = true := by rw [Cursor.sees, hc]; rfl
    have haccept : accept (.symbol .atSign) (c.behind stop) = accept (.symbol .atSign) c := by
      rw [accept_eq, accept_eq, hsees, hsign, if_pos rfl, if_pos rfl, Cursor.advance_behind hinner]
    refine EStateM.bind_eq_bind ?_
    unfold decorators
    exact EStateM.bind_eq_bind haccept

/-- What has been read in front of a definition does not matter to it. -/
theorem Parse.definition_behind (sub : Parse (List Stmt)) :
    definition sub (c.behind stop) = definition sub c := by
  have hhere (c : Cursor) : here c = .ok c.token.span c := rfl
  rw [definition_eq, EStateM.bind_ok (hhere c), EStateM.bind_ok (hhere _),
    Cursor.token_behind (inner_of_definition hc)]
  exact EStateM.bind_eq_bind (front_behind hc stop)

end

/-- The tokens of a definition are read as a definition without the ones around them, too. -/
theorem Parsed.ofTokens_definition {c c' : Cursor} {depth n : Nat} {s : Stmt} {t e : Token}
    {used us : List Token} (hlined : Token.Lined c.ahead)
    (hc : c.kind = .keyword .def_ ∨ c.kind = .symbol .atSign)
    (hs : definition (stmtWithin depth) c = .ok s c') (hrest : c.rest = t :: (used ++ c'.rest))
    (hclosed : Token.Closed (used.map Token.kind))
    (hmatched : Token.Matched (.from n) (t :: used) us) (he : e.kind = .eof) :
    ∃ s', ofTokens (us ++ [e]) = ⟨[s'], []⟩ ∧ s'.mapSpan (Span.shift n) = s := by
  have hinner := inner_of_definition hc
  have hlast (x : Token) (hx : (us ++ [e]).getLast? = some x) : x.kind = .eof := by
    rw [List.getLast?_concat] at hx
    cases hx
    exact he
  have ht : t.kind = c.kind := by rw [Cursor.kind, Cursor.token, hrest]; rfl
  have hkinds : (us ++ [e]).map Token.kind = c.kind :: (used.map Token.kind ++ [.eof]) := by
    rw [List.map_append, hmatched.kinds, List.map_cons, ht, List.map_singleton, he]
    rfl
  have hfirst : c.kind.alike .newline = false ∧ c.kind.alike .eof = false := by
    rcases hc with hc | hc <;> rw [hc] <;> exact ⟨rfl, rfl⟩
  obtain ⟨d, hd, hparsed⟩ := ofTokens_eq hlast hfirst.1 hfirst.2 hkinds
  have hkind : d.kind = c.kind := Cursor.kind_of_ahead (Cursor.ahead_of_rest hd hkinds)
  -- Both cursors are in front of the definition, with nothing that has been read behind them.
  have hahead : Token.Lined ((t :: used).map Token.kind) := by
    have hsplit : c.ahead = (t :: used).map Token.kind ++ c'.ahead := by
      rw [Cursor.ahead, hrest, ← List.cons_append, List.map_append]
      rfl
    rw [hsplit] at hlined
    exact hlined.of_settled (hclosed.behind [t.kind]).settled
  have hlength : c'.rest.length < c.rest.length := by
    rw [hrest, List.length_cons, List.length_append]
    omega
  have htwin : (c.behind n).Twin (.from n) ⟨c'.rest, [e]⟩ (d.behind 0) :=
    ⟨⟨⟨t :: used, us, hrest, hd, hmatched, hahead, fun _ => Nat.zero_add n⟩, Nat.zero_add n⟩,
      .inl hlength⟩
  have hbound : c.rest.length ≤ d.bound + c'.rest.length := by
    have hle := d.length_rest_le
    rw [hd, List.length_append, hmatched.length_eq, List.length_singleton, List.length_cons] at hle
    rw [hrest, List.length_cons, List.length_append]
    omega
  rw [← definition_behind hc n] at hs
  have hkindBehind : (c.behind n).kind = c.kind := by
    rw [Cursor.kind, Cursor.token_behind hinner]; rfl
  have hsub (c₁ d₁ : Cursor) (htwin : c₁.Twin (.from n) ⟨c'.rest, [e]⟩ d₁)
      (hstart : (c.behind n).StartsLine c₁) (hlt : c₁.rest.length < c.rest.length) :
      Tandem (.from n) ⟨c'.rest, [e]⟩ 0 c₁ d₁ (stmtWithin depth) (stmtWithin d.bound)
        (AlikeAll (.from n) (Stmt.ReadFrom (c.behind n))) Token.Closed 0 :=
    tandem_stmtWithin htwin hstart (Nat.lt_of_lt_of_le hlt hbound)
  obtain ⟨s', d', -, hs', hsame, hbeside, -⟩ :=
    definition_beside hsub htwin (hkindBehind ▸ hinner) (.refl _) le_rfl hs le_rfl
  rw [definition_behind (hkind ▸ hc)] at hs'
  have hstmt : Parse.stmt d = .ok [s'] d' := by
    rw [stmt_eq_definition (hkind ▸ hc), EStateM.bind_ok hs']
    rfl
  rw [hstmt] at hparsed
  dsimp only at hparsed
  have hend : d'.ahead = [.eof] := by
    rw [Cursor.ahead, hbeside.rest_right rfl, List.map_singleton, he]
  rw [ofCursor_of_eof hend] at hparsed
  exact ⟨s', hparsed, hsame.mapSpan_shift⟩

/-! ## Definitions and their lines -/

theorem LineMap.lineStart_le (m : LineMap) (offset : Nat) :
    m.lineStart offset ≤ offset % positions := by
  have hlast {last : Nat} (starts : List Nat) (h : last ≤ offset % positions) :
      startFrom (offset % positions) last starts ≤ offset % positions := by
    induction starts generalizing last with
    | nil => exact h
    | cons start starts ih =>
      unfold startFrom
      split
      · next hstart => exact ih hstart
      · exact h
  exact hlast m.later (Nat.zero_le _)

/-- A line starts where there is a position. -/
theorem LineMap.lt_positions {m : LineMap} {offset : Nat} (h : m.lineStart offset = offset) :
    offset < positions := by
  have hle := m.lineStart_le offset
  rw [h] at hle
  exact Nat.lt_of_le_of_lt hle (Nat.mod_lt _ (by decide))

/-- What starts in the first column has no margin. -/
theorem LineMap.margin_eq_nil {done margin rest : List Char}
    (hdone : done = [] ∨ ∃ front, done = front ++ ['\n'])
    (hmargin : ∀ c ∈ margin, Lexeme.isBlank c = true)
    (h : (ofText (done ++ (margin ++ rest))).lineStart (Text.byteLength (done ++ margin)) =
      Text.byteLength (done ++ margin)) : margin = [] := by
  rw [lineStart_eq hdone (fun hmem => absurd (hmargin _ hmem) (by decide)) (lt_positions h),
    Text.byteLength_append] at h
  cases margin with
  | nil => rfl
  | cons c margin =>
    have hpos := c.utf8Size_pos
    rw [Text.byteLength] at h
    omega

/-- A definition that starts in the first column is all that its lines are read as, with its spans
counted from where they start. -/
theorem Script.definition_recovered {text label : String} {script : Script} {span : Span}
    {name : String} {ds : List Expr} {ps : List (Param Expr)} {b : List Stmt}
    (h : parse text label = .ok script)
    (hdef : .define span name ds ps b ∈ Stmt.withinAll script.body)
    (hcolumn : script.source.lines.lineStart span.start = span.start) (label' : String) :
    ∃ s, parse (script.source.linesOf span) label' =
        .ok ⟨[s], ⟨label', script.source.linesOf span⟩, 0⟩ ∧
      s.mapSpan (Span.shift span.start) = .define span name ds ps b := by
  obtain ⟨herrors, -, hscript⟩ := (parse_eq_ok script).1 h
  have hchars : script.source.chars = text.toList := by rw [hscript]; rfl
  obtain ⟨front, c, depth, c', htokens, hfront, hlined, hs⟩ :=
    definition_read h hdef (Lexed.lined_ofText herrors)
  obtain ⟨t, used, hrest, hkind, ht, -, hclosed, hmoved, hspan⟩ :=
    Parse.rest_of_definition hlined hs
  have hstarts : c.kind = .keyword .def_ ∨ c.kind = .symbol .atSign :=
    (Parse.definition_start hs).1.imp id And.right
  rw [hrest] at htokens
  obtain ⟨done, margin, chars, ps, tail, hline⟩ := Lexed.exists_line herrors htokens hfront ht
  have hplace : span.start = t.span.start := by rw [hspan]
  have hsize := LineMap.lt_positions hcolumn
  have hcolumn : (LineMap.ofText (done ++ (margin ++ (chars ++ (Piece.text ps ++ tail))))).lineStart
      (Text.byteLength (done ++ margin)) = Text.byteLength (done ++ margin) := by
    rw [← hline.text, ← hchars, ← hline.start, ← hplace]
    exact hcolumn
  obtain rfl := LineMap.margin_eq_nil hline.line hline.blank hcolumn
  have hdepth : Token.depthAfter 0 (used.map Token.kind) = some 0 := by
    obtain ⟨ks, hks, hbalanced⟩ := (consumes_definition (consumes_stmtWithin depth) c).reads _ _ hs
    obtain rfl := List.append_cancel_right (hmoved.ahead.symm.trans hks)
    exact (Token.depthAfter_flat ht.1 0 _).symm.trans (hbalanced 0)
  obtain ⟨lines, behind, us, htext, hstop, herrors', htokens', hmatched⟩ :=
    hline.cut (hkind ▸ hstarts) hclosed hdepth fun u hu =>
    hmoved.ne_eof _ (List.mem_cons_of_mem _ (List.mem_map_of_mem hu))
  obtain ⟨s, hparsed, hs⟩ :=
    Parsed.ofTokens_definition (e := Layout.mark .eof _) hlined hstarts hs hrest hclosed
    hmatched rfl
  -- The tokens of the definition are those of its lines.
  have hlines : script.source.linesOf span = String.ofList lines := by
    refine Source.linesOf_eq (hchars.trans htext) hline.line List.not_mem_nil hsize
      (hplace.trans hline.start) ?_
    rw [hspan, List.append_nil]
    exact hstop
  rw [hlines]
  refine ⟨s, (parse_eq_ok _).2 ⟨?_, ?_, rfl⟩, hplace ▸ hs⟩
  · rw [String.toList_ofList, herrors']
  · rw [String.toList_ofList, htokens', hparsed]

/-- A text with a definition in which lines end and go on in many ways. -/
def Script.sampleWound : String :=
  "x = 1\n@d # first\n\n@e(1,\n  2)\ndef f(a, b=[1,\n2]):\n  # second\n\n  'é' + '''one\ntwo'''\n"
  ++ "  if a: x = \\\n 3; y = 4\n  else:\n      while b: pass # third\n\n  # fourth\n"
  ++ "# fifth\ny = f\n"

theorem Script.sampleWound_recovered : ∃ script ds ps b s, parse sampleWound "sample" = .ok script ∧
    .define ⟨6, 135⟩ "f" ds ps b ∈ Stmt.withinAll script.body ∧ script.source.lines.lineStart 6 =
      6 ∧
    parse (script.source.linesOf ⟨6, 135⟩) "again" =
      .ok ⟨[s], ⟨"again", script.source.linesOf ⟨6, 135⟩⟩, 0⟩ ∧
    s.mapSpan (Span.shift 6) = .define ⟨6, 135⟩ "f" ds ps b := by
  have hread : (parse sampleWound "sample").toOption.map (fun script =>
      (((Stmt.withinAll script.body).filter Stmt.isDefinition).map fun s => (s.span, s.binds),
        script.source.lines.lineStart 6)) = some ([(⟨6, 135⟩, ["f"])], 6) := by
    decide +kernel
  cases hparse : parse sampleWound "sample" with
  | error e =>
    rw [hparse] at hread
    cases hread
  | ok script =>
    rw [hparse] at hread
    obtain ⟨hdefs, hcolumn⟩ := Prod.mk.inj (Option.some.inj hread)
    obtain ⟨d, hd, hname⟩ := List.map_eq_singleton_iff.1 hdefs
    have hd : d ∈ (Stmt.withinAll script.body).filter Stmt.isDefinition :=
      hd ▸ List.mem_singleton_self d
    obtain ⟨hd, hdefinition⟩ := List.mem_filter.1 hd
    cases d with
    | define span name ds ps b =>
      cases hname
      obtain ⟨s, hs, hsame⟩ := definition_recovered hparse hd hcolumn "again"
      exact ⟨script, ds, ps, b, s, rfl, hd, hcolumn, hs, hsame⟩
    | _ => cases hdefinition

end StagedScript
