import StagedScript.Proofs.Maker.Body
import StagedScript.Proofs.Spans

/-!
# Makers of the same lines

What is below the header of a maker is read alike whatever names the header has.  So a definition
that has been read from a maker is read from every maker of its lines, and nothing but spans is
different then.
-/

namespace StagedScript

open Parse
open Token (Kind)

/-! ## Places behind headers -/

/-- Places of two texts correspond if they are as far behind two headers as each other, or not
behind them. -/
structure Places.Joins (π : Places) (m n : Nat) : Prop where
  front : ∀ {p q}, p ≤ m → q ≤ n → π.right q = π.left p
  behind : ∀ p, π.right (p + n) = π.left (p + m)

/-- How far places are behind a header in each of two texts. -/
def Places.behind (m n : Nat) : Places :=
  ⟨(· - m), (· - n), fun _ _ h => Nat.sub_le_sub_right h m, fun _ _ h => Nat.sub_le_sub_right h n⟩

theorem Places.joins_nowhere (m n : Nat) : nowhere.Joins m n := ⟨fun _ _ => rfl, fun _ => rfl⟩

theorem Places.joins_behind (m n : Nat) : (behind m n).Joins m n where
  front hp hq := (Nat.sub_eq_zero_of_le hq).trans (Nat.sub_eq_zero_of_le hp).symm
  behind p := (Nat.add_sub_cancel p n).trans (Nat.add_sub_cancel p m).symm

theorem Token.same_shift {π : Places} {m n : Nat} (h : π.Joins m n) (ts : List Token) :
    List.Forall₂ (Token.Same π) (ts.map (Token.shift m)) (ts.map (Token.shift n)) := by
  rw [List.forall₂_map_left_iff, List.forall₂_map_right_iff]
  exact List.forall₂_same.2 fun t _ => ⟨rfl, .mk (h.behind _) (h.behind _)⟩

/-! ## Cursors behind a header -/

/-- The cursor remembers where the last word that it is moved over ends. -/
theorem Cursor.Moved.last {c c' : Cursor} {ks : List Kind} {k : Kind} (h : c.Moved (ks ++ [k]) c')
    (hk : k.isLayout = false) :
    ∃ ts t, c.rest = ts ++ [t] ++ c'.rest ∧ (ts ++ [t]).map Token.kind = ks ++ [k] ∧
      c'.lastStop = t.span.stop ∧ c'.lastWordStop = t.span.stop := by
  induction ks generalizing c with
  | nil =>
    obtain ⟨heof, hadvance⟩ := h.uncons
    obtain ⟨t, us, hrest, rfl, -⟩ := rest_of_ahead h.ahead
    obtain ⟨hus, hstop, hword⟩ := advance_of_rest hrest heof
    obtain rfl : c' = c.advance := hadvance.after
    rw [hk, if_neg Bool.false_ne_true] at hword
    exact ⟨[], t, by rw [hrest, hus]; rfl, rfl, hstop, hword⟩
  | cons l ks ih =>
    obtain ⟨heof, hadvance⟩ := h.uncons
    obtain ⟨u, us, hrest, rfl, -⟩ := rest_of_ahead h.ahead
    obtain ⟨hus, -, -⟩ := advance_of_rest hrest heof
    obtain ⟨ts, t, hts, hkinds, hstops⟩ := ih hadvance
    exact ⟨u :: ts, t, by rw [hrest, ← hus, hts]; rfl, congrArg (u.kind :: ·) hkinds, hstops⟩

/-- No token stands behind the text of the pieces. -/
theorem Piece.stop_le_of_mem_place {start : Nat} {ps : List Piece} {t : Token}
    (h : t ∈ place start ps) :
    t.span.start ≤ t.span.stop ∧ t.span.stop ≤ start + Text.byteLength (text ps) := by
  induction ps generalizing start with
  | nil => cases h
  | cons p ps ih =>
    rw [text, Text.byteLength_append, Text.byteLength_append]
    rcases List.mem_cons.1 h with rfl | h
    · dsimp only
      omega
    · obtain ⟨hle, hstop⟩ := ih h
      exact ⟨hle, by omega⟩

namespace Maker

/-- The tokens of the lines of a maker, where these stand at the start of a text. -/
def lineTokens (chars : List Char) (qs : List Piece) (name : String) : List Token :=
  let ps := lines margin chars qs name
  let below := Layout.through 0 ⟨[], 0, false⟩ ps
  below.tokens ++ Layout.finish (Text.byteLength (Piece.text ps)) below.state

variable {names names' : List String} {name : String} {chars : List Char} {qs : List Piece}

/-- The tokens of a maker are those of its lines behind those of its header. -/
theorem ofText_lines (hnames : ∀ x ∈ names, Word.isName x = true) (hname : Word.isName name = true)
    (h : Spells name chars qs) :
    ((Lexed.ofText (Piece.text (pieces names margin chars qs name))).errors = [] ↔
      (Layout.through 0 ⟨[], 0, false⟩ (lines margin chars qs name)).errors = []) ∧
    (Lexed.ofText (Piece.text (pieces names margin chars qs name))).tokens =
      Piece.place 0 (header names) ++
      (lineTokens chars qs name).map
        (Token.shift (Text.byteLength (Piece.text (header names)))) := by
  obtain ⟨herrors, htokens⟩ := ofText_pieces hnames hname h.keyword h.fit
  have hstop : Text.byteLength (Piece.text (pieces names margin chars qs name)) =
      Text.byteLength (Piece.text (lines margin chars qs name)) +
      Text.byteLength (Piece.text (header names)) := by
    rw [pieces, Piece.text_append, Text.byteLength_append, Nat.add_comm]
  have hbelow := Layout.through_shift (Text.byteLength (Piece.text (header names))) ⟨[], 0, false⟩ 0
    (lines margin chars qs name)
  rw [Nat.zero_add] at hbelow
  rw [herrors, htokens, hstop, hbelow, Layout.finish_shift]
  exact ⟨List.map_eq_nil_iff, by rw [lineTokens, List.map_append]; rfl⟩

/-- Behind the brackets of the header there are its colon and the lines. -/
theorem behind_header {c c' : Cursor} {ts : List Token} (hnames : ∀ x ∈ names, Word.isName x = true)
    (hc : c.rest = Piece.place 0 (header names) ++ ts)
    (h : c.Moved (.keyword .def_ :: .ident SpecializeError.makerName :: .symbol .openParen ::
      (Param.words names ++ [.symbol .closeParen])) c') :
    ∃ t, c'.rest = t :: ts ∧ t.kind = .symbol .colon ∧
      t.span.start ≤ Text.byteLength (Piece.text (header names)) ∧
      t.span.stop ≤ Text.byteLength (Piece.text (header names)) ∧
      c'.lastStop ≤ Text.byteLength (Piece.text (header names)) ∧
      c'.lastWordStop ≤ Text.byteLength (Piece.text (header names)) := by
  have hspan (t : Token) (ht : t ∈ Piece.place 0 (header names)) := Piece.stop_le_of_mem_place ht
  rw [Nat.zero_add] at hspan
  rw [← List.cons_append, ← List.cons_append, ← List.cons_append] at h
  obtain ⟨front, last, hrest, hfront, hstop, hword⟩ := h.last rfl
  have hkinds : (Piece.place 0 (header names)).map Token.kind =
      (front ++ [last]).map Token.kind ++ [.symbol .colon] := by
    rw [Piece.kinds_place, kinds_header hnames, hfront]
    simp
  obtain ⟨before, colon, hplace, hbefore, hcolon⟩ := List.map_eq_append_iff.1 hkinds
  obtain ⟨t, rfl, ht⟩ := List.map_eq_singleton_iff.1 hcolon
  rw [hrest, hplace, List.append_assoc before] at hc
  have hlength := congrArg List.length hbefore
  rw [List.length_map, List.length_map] at hlength
  obtain ⟨rfl, hrest'⟩ := List.append_inj hc hlength.symm
  rw [hplace] at hspan
  obtain ⟨hle, hle'⟩ := hspan t (by simp)
  obtain ⟨-, hlast⟩ := hspan last (by simp)
  exact ⟨t, hrest', ht, Nat.le_trans hle hle', hle', by rwa [hstop], by rwa [hword]⟩

/-- Behind the headers of two makers of the same lines there are the same tokens. -/
theorem twin_behind_header {π : Places} (hπ : π.Joins (Text.byteLength (Piece.text (header names)))
      (Text.byteLength (Piece.text (header names'))))
    (hnames : ∀ x ∈ names, Word.isName x = true) (hnames' : ∀ x ∈ names', Word.isName x = true)
    {c c' d d' : Cursor} {ts : List Token} (hlined : Token.Lined c.ahead)
    (hc : c.rest = Piece.place 0 (header names) ++
      ts.map (Token.shift (Text.byteLength (Piece.text (header names)))))
    (hd : d.rest = Piece.place 0 (header names') ++
      ts.map (Token.shift (Text.byteLength (Piece.text (header names')))))
    (hcc' : c.Moved (.keyword .def_ :: .ident SpecializeError.makerName :: .symbol .openParen ::
      (Param.words names ++ [.symbol .closeParen])) c')
    (hdd' : d.Moved (.keyword .def_ :: .ident SpecializeError.makerName :: .symbol .openParen ::
      (Param.words names' ++ [.symbol .closeParen])) d') : c'.Twin π .absent d' := by
  obtain ⟨t, hrest, ht, hstart, hstop, hlast, hword⟩ := behind_header hnames hc hcc'
  obtain ⟨u, hrest', hu, hstart', hstop', hlast', hword'⟩ := behind_header hnames' hd hdd'
  rw [hcc'.ahead] at hlined
  refine .of_forall₂ ?_ hlined.of_append (hπ.front hlast hlast') (hπ.front hword hword')
  rw [hrest, hrest']
  exact .cons ⟨hu.trans ht.symm, .mk (hπ.front hstart hstart') (hπ.front hstop hstop')⟩
    (Token.same_shift hπ ts)

/-- The lines start with the end of the header. -/
theorem kinds_lineTokens (chars : List Char) (qs : List Piece) (name : String) :
    ∃ ks, (lineTokens chars qs name).map Token.kind = .newline :: ks := ⟨_, rfl⟩

end Maker

/-! ## Reading the lines again -/

namespace Maker

/-- The lines below one header are read below any other one, and are alike. -/
theorem stmt_again {names names' : List String} (hnodup : names.Nodup) (hnodup' : names'.Nodup)
    (hnames : ∀ x ∈ names, Word.isName x = true) (hnames' : ∀ x ∈ names', Word.isName x = true)
    {c c' d : Cursor} {ts : List Token} {ks : List Kind} (hlined : Token.Lined c.ahead)
    (hts : ts.map Token.kind = .newline :: ks)
    (hc : c.rest = Piece.place 0 (header names) ++
      ts.map (Token.shift (Text.byteLength (Piece.text (header names)))))
    (hd : d.rest = Piece.place 0 (header names') ++
      ts.map (Token.shift (Text.byteLength (Piece.text (header names'))))) {makerSpan :
      Span} {b : List Stmt}
    (h : Parse.stmt c =
      .ok [.define makerSpan SpecializeError.makerName [] (Param.plain Expr names) b] c') :
    ∃ makerSpan' b' d', d'.ahead = c'.ahead ∧
      Parse.stmt d =
        .ok [.define makerSpan' SpecializeError.makerName [] (Param.plain Expr names') b'] d' ∧
      ∀ π : Places, π.Joins (Text.byteLength (Piece.text (header names)))
        (Text.byteLength (Piece.text (header names'))) → List.Forall₂ (Stmt.Same π) b b' := by
  have hahead {names : List String} {c : Cursor} (hnames : ∀ x ∈ names, Word.isName x = true)
      (hc : c.rest = Piece.place 0 (header names) ++
        ts.map (Token.shift (Text.byteLength (Piece.text (header names))))) :
      c.ahead = .keyword .def_ :: .ident SpecializeError.makerName :: .symbol .openParen ::
        (Param.words names ++ .symbol .closeParen :: ([.symbol .colon] ++ .newline :: ks)) := by
    have hkinds : (ts.map (Token.shift (Text.byteLength (Piece.text (header names))))).map
        Token.kind = .newline :: ks := by
      rw [List.map_map, ← hts]
      rfl
    rw [Cursor.ahead, hc, List.map_append, Piece.kinds_place, kinds_header hnames, hkinds]
    simp
  have hcolon : ∀ k ∈ [Kind.symbol .colon], k.Inner := by simp [Kind.Inner, Kind.Flat]
  obtain ⟨c₁, hcc₁, hread⟩ := definition_eq_header hnodup hcolon (hahead hnames hc)
  obtain ⟨d₁, hdd₁, hread'⟩ := definition_eq_header hnodup' hcolon (hahead hnames' hd)
  rw [stmt_eq_definition (.inl (Cursor.kind_of_ahead (hahead hnames hc)))] at h
  obtain ⟨s, _, hs, h⟩ := EStateM.bind_eq_ok.1 h
  cases h
  rw [hread] at hs
  obtain ⟨b, c₂, hblock, hs⟩ := EStateM.bind_eq_ok.1 hs
  cases hs
  have htandem (π : Places) (hπ : π.Joins (Text.byteLength (Piece.text (header names)))
      (Text.byteLength (Piece.text (header names')))) :
      ∃ b' d₂, block (stmtWithin d.bound) d₁ = .ok b' d₂ ∧ List.Forall₂ (Stmt.Same π) b b' ∧
      c'.Twin π .absent d₂ := by
    have htwin := twin_behind_header hπ hnames hnames' hlined hc hd hcc₁ hdd₁
    have hbound : c₁.rest.length ≤ d.bound := by
      have hlength := hdd₁.length_le
      have hbound := d.length_rest_le
      have hlength := congrArg List.length htwin.ahead
      rw [Cursor.ahead, Cursor.ahead, List.length_map, List.length_map] at hlength
      omega
    have hplace : c₁.Reaches c₁ := ⟨[], .refl c₁⟩
    obtain ⟨b', d₂, -, hblock', halike, htwin', -⟩ := tandem_block
      (fun _ _ htwin hstart hlt => tandem_stmtWithin htwin hstart (Nat.lt_of_lt_of_le hlt hbound))
      htwin hplace (Nat.le_refl _) hblock (.inr rfl)
    exact ⟨b', d₂, hblock', halike.1, htwin'⟩
  obtain ⟨b', d₂, hblock', -, htwin⟩ := htandem .nowhere (Places.joins_nowhere _ _)
  refine ⟨⟨d.token.span.start, d₂.lastWordStop⟩, b', d₂, htwin.ahead, ?_, fun π hπ => ?_⟩
  · rw [stmt_eq_definition (.inl (Cursor.kind_of_ahead (hahead hnames' hd)))]
    refine EStateM.bind_ok ?_
    rw [hread', EStateM.bind_ok hblock']
    rfl
  · obtain ⟨b'', _, hblock'', hsame, -⟩ := htandem π hπ
    cases hblock''.symm.trans hblock'
    exact hsame

/-- A definition that has been read from a maker is read from any other maker of its lines as well.
It differs in its spans alone, and these correspond. -/
theorem Spells.again {names names' : List String} (hnodup : names.Nodup) (hnodup' : names'.Nodup)
    (hnames : ∀ x ∈ names, Word.isName x = true) (hnames' : ∀ x ∈ names', Word.isName x = true)
    {name : String} (hname : Word.isName name = true) {chars : List Char} {qs : List Piece}
    (h : Spells name chars qs) {text label : String}
    (htext : text.toList = Piece.text (pieces names margin chars qs name)) {script : Script}
    (hscript : Script.parse text label = .ok script) {makerSpan inner at_ spanName : Span}
    {d : Definition} (hbody : script.DefinesMaker names makerSpan (body inner at_ spanName d))
    (hd : d.decorators = []) {text' label' : String}
    (htext' : text'.toList = Piece.text (pieces names' margin chars qs name)) :
    inner = span names chars qs ∧ ∃ script' makerSpan' at_' spanName' d', d'.decorators = [] ∧
      Script.parse text' label' = .ok script' ∧
      script'.DefinesMaker names' makerSpan' (body (span names' chars qs) at_' spanName' d') ∧
      ∀ π : Places, π.Joins (Text.byteLength (Piece.text (header names)))
        (Text.byteLength (Piece.text (header names'))) →
          d'.mapSpan (Span.sent π.right) = d.mapSpan (Span.sent π.left) := by
  obtain ⟨herrors, hparsed, -⟩ := (Script.parse_eq_ok script).1 hscript
  rw [htext] at herrors hparsed
  obtain ⟨herrorsIff, htokens⟩ := ofText_lines hnames hname h
  obtain ⟨herrorsIff', htokens'⟩ := ofText_lines hnames' hname h
  have herrors' := herrorsIff'.2 (herrorsIff.1 herrors)
  obtain ⟨ks, hks⟩ := tokens_start hnames hname h
  obtain ⟨ks', hks'⟩ := tokens_start hnames' hname h
  obtain ⟨c, c', hc, hss⟩ := Parsed.stmt_of_ofTokens (Lexed.kind_getLast? _) rfl rfl hks hparsed
    fun c c' ss hc hss => (h.stmt_eq_ok hnodup hnames hname herrors hc hss).1
  obtain ⟨hend, _, _, _, ps, b, hstmts, -⟩ := h.stmt_eq_ok hnodup hnames hname herrors hc hss
  obtain ⟨dname, decorators, params, dbody⟩ := d
  obtain rfl : decorators = [] := hd
  cases hbody.symm.trans hstmts
  refine ⟨rfl, ?_⟩
  -- What has been read from the one text is read from the other one, and takes all of it.
  obtain ⟨d, hd, hparsed'⟩ := Parsed.ofTokens_eq (Lexed.kind_getLast? _) rfl rfl hks'
  obtain ⟨lines, hlines⟩ := kinds_lineTokens chars qs name
  have hlined : Token.Lined c.ahead := by
    rw [Cursor.ahead, hc]
    exact Lexed.lined_ofText herrors
  rw [hstmts] at hss
  obtain ⟨makerSpan', b', d', hend', hread, hsame⟩ :=
    stmt_again hnodup hnodup' hnames hnames' hlined hlines (hc.trans htokens)
    (hd.trans htokens') hss
  rw [hread] at hparsed'
  dsimp only at hparsed'
  rw [Parsed.ofCursor_of_eof (hend'.trans hend)] at hparsed'
  have hscript' : Script.parse text' label' = .ok ⟨[.define makerSpan' SpecializeError.makerName []
      (Param.plain Expr names') b'], ⟨label', text'⟩, 0⟩ :=
    (Script.parse_eq_ok _).2 ⟨by rw [htext', herrors'], by rw [htext', hparsed']; rfl, rfl⟩
  obtain ⟨makerSpan'', at_', spanName', ps', b'', hbody', -⟩ :=
    h.definesMaker hnodup' hnames' hname htext' hscript'
  cases hbody'
  refine ⟨_, _, at_', spanName', ⟨name, [], ps', b''⟩, rfl, hscript', rfl, fun π hπ => ?_⟩
  obtain ⟨hdefine, -⟩ := List.forall₂_cons.1 (hsame π hπ)
  have hdefine : Stmt.mapSpan (Span.sent π.right) (.define (span names' chars qs) name [] ps' b'') =
    Stmt.mapSpan (Span.sent π.left) (.define (span names chars qs) name [] ps b) := hdefine
  rw [Stmt.mapSpan, Stmt.mapSpan, Stmt.define.injEq] at hdefine
  obtain ⟨-, -, -, hparams, hbody⟩ := hdefine
  exact congrArg₂ (Definition.mk name []) hparams hbody

end Maker

end StagedScript
