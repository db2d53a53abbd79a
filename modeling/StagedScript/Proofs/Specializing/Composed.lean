import StagedScript.Proofs.Maker.Again
import StagedScript.Proofs.Parsing.Parameters
import StagedScript.Proofs.Specializing.Chosen
import StagedScript.Proofs.Specializing.Stable

/-!
# Functions that are made anew twice

A function that has been made anew stands in the text of its maker.  When it is made anew itself,
its lines are put into another maker, which has the same lines below another header.
-/

namespace StagedScript

/-! ## Lines below a header -/

namespace LineMap

theorem newlineEnds_shift (n position : Nat) (cs : List Char) :
    newlineEnds (position + n) cs = (newlineEnds position cs).map (· + n) := by
  induction cs generalizing position with
  | nil => rfl
  | cons c cs ih =>
    rw [newlineEnds, newlineEnds, Nat.add_right_comm, ih]
    split <;> rfl

theorem lineFrom_shift {position n k : Nat} {starts : List Nat} (h : ∀ start ∈ starts, 0 < start) :
    lineFrom position k (starts.map (· + n)) = lineFrom (position - n) k starts := by
  induction starts generalizing k with
  | nil => rfl
  | cons start starts ih =>
    obtain ⟨hstart, hstarts⟩ := List.forall_mem_cons.1 h
    rw [List.map_cons, lineFrom, lineFrom, ih hstarts]
    exact if_congr (by omega) rfl rfl

/-- The line of a position depends on how far behind the first line it is. -/
theorem line_below {header cs : List Char} (hheader : '\n' ∉ header) {position : Nat}
    (hposition : position < positions) : (ofText (header ++ cs)).line position =
      lineFrom (position - Text.byteLength header) 1 (newlineEnds 0 cs) % positions := by
  have hshift := newlineEnds_shift (Text.byteLength header) 0 cs
  have hpos : ∀ start ∈ newlineEnds 0 cs, 0 < start := fun start hstart =>
    Nat.lt_of_le_of_lt (Nat.zero_le _) (lt_of_mem_newlineEnds hstart).1
  rw [LineMap.line, ofText, Nat.mod_eq_of_lt hposition, newlineEnds_append,
    newlineEnds_of_not_mem hheader, List.nil_append, hshift, lineFrom_shift hpos]

end LineMap

/-! ## The lines of a maker -/

namespace Maker

variable {name : String} {chars : List Char} {qs : List Piece}

/-- A definition stands in its maker behind the margin of the second line. -/
theorem Spells.stretch (h : Spells name chars qs) (names : List String) :
    Stretch (Piece.text (pieces names margin chars qs name)) (span names chars qs)
      (Piece.text (header names) ++ ['\n']) margin (chars ++ Piece.text qs) (ending name) where
  text := by
    rw [text_pieces]
    simp
  start := by
    rw [Text.byteLength_append, Text.byteLength_append]
    rfl
  stop := by
    simp only [Text.byteLength_append, span, Nat.add_assoc]
    rfl
  line := .inr ⟨_, rfl⟩
  blank := blank_margin
  first := by
    obtain ⟨c, cs, hchars, hc⟩ := h.keyword.first (by simp)
    exact ⟨c, cs ++ Piece.text qs, by rw [show chars = c :: cs from hchars]; rfl, hc⟩
  last := by
    obtain ⟨q, more, rfl, -⟩ := h.named
    obtain ⟨cs, c, hcs, hc⟩ := h.fit.last (List.cons_ne_nil q more) h.last
    exact ⟨chars ++ cs, c, by rw [hcs, List.append_assoc], hc⟩

end Maker

/-! ## What is read from a maker -/

namespace Closure

variable {v : Value} {given : Table Value} {s t : Store} {c : Closure}

/-- The text of a closure is that of its script. -/
theorem Written.chars {script : Script} {text : String} (h : c.Written v s script text) :
    c.script.source.text = text ∧ c.script.source.label = c.function.origin.source.label ∧
      c.script.lineOffset = c.function.firstLine - 2 ∧ c.script.body = script.body := by
  obtain ⟨-, -, hscript⟩ := (Script.parse_eq_ok script).1 h.parse
  rw [h.script, hscript]
  exact ⟨rfl, rfl, Int.zero_add _, rfl⟩

/-- Parameters without defaults stay what they are when the definition of a function is read from
its maker. -/
theorem params_of_ofFunction (hc : ofFunction v given s = .ok c t) (hf : c.function.Sourced)
    (hd : c.function.definition.decorators = [])
    (hstart : c.function.origin.span.start < LineMap.positions)
    (hdefaults : ∀ p ∈ c.function.definition.params, p.default? = none)
    {makerSpan span at_ spanName : Span} {d : Definition}
    (hbody : c.script.DefinesMaker c.vars.keys makerSpan (Maker.body span at_ spanName d))
    (hd' : d.decorators = []) : d.params = c.function.definition.params := by
  obtain ⟨script, text, hwritten⟩ := written_of_ofFunction hc
  obtain ⟨herrors, -, -⟩ := (Script.parse_eq_ok script).1 hwritten.parse
  have hnodup : c.vars.keys.Nodup := c.vars.nodup
  have hnames := isName_of_ofFunction hc hf.captured
  obtain ⟨htext, -, -, hsame⟩ := hwritten.chars
  obtain ⟨chars, qs, hspells, hchars⟩ := spells_of_ofFunction hc hf hd hstart
  rw [Source.chars, htext] at hchars
  obtain ⟨_, _, _, ps, b, hmaker, front, depth, d₁, d₂, htokens, hfront, hread⟩ :=
    hspells.definesMaker hnodup hnames hf.name hchars hwritten.parse
  have hdefined : script.DefinesMaker c.vars.keys makerSpan (Maker.body span at_ spanName d) := by
    rw [Script.DefinesMaker, ← hsame]
    exact hbody
  obtain ⟨-, rfl⟩ := Maker.body_inj hmaker hdefined hd'.symm
  obtain ⟨label, whole, hparse, hhead⟩ := hf.head
  obtain ⟨stmt, hstmt, hhead⟩ := List.mem_filterMap.1 hhead
  cases stmt with
  | define at_ x ds params body =>
    rw [hd] at hhead
    cases hhead
    obtain ⟨done, margin, k, old, pieces, behind, depth', c₁, c₂, used, hinset, hdefinition,
      hused, hwords⟩ :=
      Script.exists_inset hparse hstmt
    obtain ⟨ls, hakin, hall⟩ := Maker.words_of_inset hnames hf.name hinset
      (text_of_stretch hwritten.render hinset.stretch hstart) herrors
    have hlined : Token.Lined d₁.ahead := by
      have hlined := Lexed.lined_ofText herrors
      rw [htokens, List.map_append] at hlined
      exact hlined.of_append
    -- Behind the header of the maker there are the words of the definition.
    have hbehind : Token.words d₁.ahead = ls ++ [.keyword .return_, .ident c.function.name] := by
      have hmarks : Token.words [.newline, .indent] = [] := rfl
      rw [htokens, List.map_append, hfront, Token.words_append, Token.words_append, hmarks,
        List.append_nil, Token.words_eq_self (Maker.inner_header hnames)] at hall
      exact List.append_cancel_left hall
    rw [← hwords] at hakin
    exact Parse.params_eq_of_words hdefinition hdefaults hread hlined hused hakin hbehind
  | _ => cases hhead

end Closure

/-- A function that has been read from a maker for some names.  Its lines stand in the text of the
maker with the margin of the maker, and they have no other one. -/
structure Function.OfMaker (g : Function) (names : List String) (chars : List Char)
    (qs : List Piece) : Prop where
  name : Word.isName g.name = true
  nodup : names.Nodup
  valid : ∀ x ∈ names, Word.isName x = true
  captured : ∀ x ∈ g.captured.keys, Word.isName x = true
  decorators : g.definition.decorators = []
  spells : Maker.Spells g.name chars qs
  text : g.origin.source.chars = Piece.text (Maker.pieces names Maker.margin chars qs g.name)
  span : g.origin.span = Maker.span names chars qs
  read : ∃ script makerSpan at_ spanName,
    Script.parse g.origin.source.text g.origin.source.label = .ok script ∧
      script.DefinesMaker names makerSpan (Maker.body (Maker.span names chars qs) at_ spanName
        g.definition)
  placed : Stmt.misplacedIn? .function g.definition.body = none
  settled : Text.below 4 (Text.dedent (Maker.margin ++ (chars ++ Piece.text qs))) =
    '\n' :: (Maker.margin ++ (chars ++ Piece.text qs))

theorem Maker.misplacedIn?_body (span at_ spanName : Span) (d : Definition) :
    Stmt.misplacedIn? .function (body span at_ spanName d) =
      Stmt.misplacedIn? .function d.body := by
  simp [body, Stmt.misplacedIn?, Stmt.misplaced?, Surroundings.function]

namespace Closure

variable {host : Host} {v : Value} {given : Table Value} {s t : Store} {c : Closure}

/-- The lines of a function that is put into a maker have lost their margin for good. -/
theorem settled_of_ofFunction (hc : ofFunction v given s = .ok c t) (hf : c.function.Sourced)
    (hstart : c.function.origin.span.start < LineMap.positions)
    (hreturn : '\r' ∉ c.function.origin.source.chars) {chars : List Char} {qs : List Piece}
    (hspells : Maker.Spells c.function.name chars qs) (hchars : c.script.source.chars =
      Piece.text (Maker.pieces c.vars.keys Maker.margin chars qs c.function.name)) :
    Text.below 4 (Text.dedent (Maker.margin ++ (chars ++ Piece.text qs))) =
      '\n' :: (Maker.margin ++ (chars ++ Piece.text qs)) := by
  obtain ⟨script, text, hwritten⟩ := written_of_ofFunction hc
  obtain ⟨done, margin, old, behind, hstretch⟩ := hf.exists_stretch
  have hbelow : Text.below 4 (Text.dedent (margin ++ old)) =
      '\n' :: (Maker.margin ++ (chars ++ Piece.text qs)) := by
    have htext := text_of_stretch hwritten.render hstretch hstart
    rw [← hwritten.chars.1, show c.script.source.text.toList = c.script.source.chars from rfl,
      hchars, Maker.text_pieces] at htext
    refine List.append_cancel_right ((List.append_cancel_left htext).symm.trans ?_)
    simp
  have hreturn' : '\r' ∉ margin ++ old := by
    rw [hstretch.text] at hreturn
    simp only [List.mem_append, not_or] at hreturn ⊢
    exact ⟨hreturn.2.1, hreturn.2.2.1⟩
  have hplace := hspells.stretch c.vars.keys
  rw [Maker.margin, Text.dedent_indented hbelow hreturn' hplace.first hplace.last]
  exact hbelow

/-- A function without decorators that is made anew has been read from its maker. -/
theorem ofMaker_of_make (hparametric : host.Parametric) (hc : ofFunction v given s = .ok c t)
    (hf : c.function.Sourced) (hd : c.function.definition.decorators = [])
    (hstart : c.function.origin.span.start < LineMap.positions)
    (hreturn : '\r' ∉ c.function.origin.source.chars)
    (hdefaults : ∀ p ∈ c.function.definition.params, p.default? = none) {fuel rounds : Nat}
    {m : Machine} {s₁ u : Store} {w : Value}
    (hmake : c.make (callIn host fuel m) rounds s₁ = .ok w u) :
    ∃ r g, w = .function r ∧ u.getFunction? r = some g ∧
    (∃ chars qs, g.OfMaker c.vars.keys chars qs) ∧
      (∀ p ∈ g.definition.params, p.default? = none) ∧ Function.Chosen s given c.function g := by
  obtain ⟨script, text, hwritten⟩ := written_of_ofFunction hc
  have hnodup : c.vars.keys.Nodup := c.vars.nodup
  have hnames := isName_of_ofFunction hc hf.captured
  obtain ⟨htext, hlabel, -, hsame⟩ := hwritten.chars
  obtain ⟨chars, qs, hspells, hchars⟩ := spells_of_ofFunction hc hf hd hstart
  have hchars' : text.toList =
      Piece.text (Maker.pieces c.vars.keys Maker.margin chars qs c.function.name) := by
    rw [← hchars, ← htext]
    rfl
  obtain ⟨makerSpan, at_, spanName, ps, b, hread, -⟩ :=
    hspells.definesMaker hnodup hnames hf.name hchars' hwritten.parse
  have hbody : c.script.DefinesMaker c.vars.keys makerSpan
      (Maker.body (Maker.span c.vars.keys chars qs) at_ spanName ⟨c.function.name, [], ps, b⟩) :=
    hsame.trans hread
  cases fuel with
  | zero =>
    rw [make_eq _ _ (unrolled_eq_script hwritten.unrollings) hbody] at hmake
    split at hmake
    · cases hmake
    · cases hmake
  | succ fuel =>
    obtain ⟨hplaced, -, params, s₂, hparams, rfl, rfl⟩ :=
      (make_eq_ok hparametric.confined hwritten.unrollings rfl hbody rfl).1 hmake
    have hconfined := callIn_confined hparametric.confined fuel m.deeper
    refine ⟨_, _, rfl, Store.getFunction?_withFunction _ _ _, ⟨chars, qs, ?_⟩, ?_,
      chosen_of_ofFunction hc (Script.get?_captured_remade hconfined hparams)⟩
    · exact {
        name := hf.name
        nodup := hnodup
        valid := hnames
        captured := fun x hx => by
          obtain ⟨v, hv⟩ := Table.mem_keys_iff.1 hx
          rw [Script.get?_captured_remade hconfined hparams x] at hv
          split at hv
          · exact hnames x (Table.mem_keys_iff.2 ⟨v, hv⟩)
          · cases hv
        decorators := rfl
        spells := hspells
        text := hchars
        span := rfl
        read := ⟨script, makerSpan, at_, spanName,
          (congrArg₂ Script.parse htext hlabel).trans hwritten.parse, hread⟩
        placed := (Maker.misplacedIn?_body _ _ _ _).symm.trans hplaced
        settled := settled_of_ofFunction hc hf hstart hreturn hspells hchars }
    · rw [show (Script.remade _ _ _ _ _ _ _).definition.params = _ from
        params_of_ofFunction hc hf hd hstart hdefaults hbody rfl]
      exact hdefaults

end Closure

/-! ## Reported lines -/

namespace Function

/-- Where the function and the statements in it stand. -/
def spans (g : Function) : List Span :=
  g.origin.span :: (Stmt.withinAll g.definition.body).map Stmt.span

/-- Where a part of the function is reported. -/
def location (g : Function) (span : Span) : Location :=
  .ofSpan g.origin.source g.origin.lineOffset span

/-- Two functions report the same lines for themselves and for their statements, one after the
other.  This is about those that start at positions that there are. -/
def ReportsLike (g h : Function) : Prop :=
  List.Forall₂ (fun p q => p.start < LineMap.positions → q.start < LineMap.positions →
    (g.location p).label = (h.location q).label ∧
    (g.location p).line = (h.location q).line) g.spans h.spans

/-- Functions whose texts have the same lines below a header report the same lines, if nothing is
added to one of them alone. -/
theorem reportsLike_of_lines {g h : Function} {header header' cs : List Char}
    (hheader : '\n' ∉ header) (hheader' : '\n' ∉ header')
    (hg : g.origin.source.chars = header ++ cs) (hh : h.origin.source.chars = header' ++ cs)
    (hlabel : h.origin.source.label = g.origin.source.label)
    (hoffset : h.origin.lineOffset = g.origin.lineOffset)
    (hspan : g.origin.span.start - Text.byteLength header = h.origin.span.start - Text.byteLength
      header') (hsame : h.definition.mapSpan (Span.sent (Places.behind (Text.byteLength header)
        (Text.byteLength header')).right) =
      g.definition.mapSpan
        (Span.sent (Places.behind (Text.byteLength header) (Text.byteLength header')).left)) :
    g.ReportsLike h := by
  have hbody := congrArg Stmt.withinAll (congrArg Definition.body hsame).symm
  simp only [Definition.mapSpan, Stmt.withinAll_mapSpans] at hbody
  rw [← List.forall₂_eq_eq_eq, List.forall₂_map_left_iff, List.forall₂_map_right_iff] at hbody
  -- All of these start as far behind the one header as behind the other one.
  have hstart : List.Forall₂ (fun p q : Span => p.start - Text.byteLength header =
      q.start - Text.byteLength header') g.spans h.spans := by
    refine .cons hspan ?_
    rw [List.forall₂_map_left_iff, List.forall₂_map_right_iff]
    refine hbody.imp fun s t hst => ?_
    have hst := congrArg Stmt.span hst
    rw [Stmt.span_mapSpan, Stmt.span_mapSpan] at hst
    exact congrArg Span.start hst
  refine hstart.imp fun p q hpq hp hq => ⟨hlabel.symm, ?_⟩
  have hline : (LineMap.ofText g.origin.source.chars).line p.start =
      (LineMap.ofText h.origin.source.chars).line q.start := by
    rw [hg, hh, LineMap.line_below hheader hp, LineMap.line_below hheader' hq, hpq]
  change ((LineMap.ofText g.origin.source.chars).line p.start : Int) + g.origin.lineOffset =
    (LineMap.ofText h.origin.source.chars).line q.start + h.origin.lineOffset
  rw [hline, hoffset]

end Function

/-! ## Making a function of a maker anew -/

namespace Closure

/-- A function can be specialized if the text that is written for it can be read. -/
theorem exists_ofFunction {r : FunctionRef} {f : Function} {given : Table Value} {s : Store}
    (hget : s.getFunction? r = some f) (hgiven : ∀ x ∈ given.keys, Word.isName x = true)
    (hcaptured : ∀ x ∈ f.captured.keys, Word.isName x = true)
    (hparse : ∀ names text, names.Nodup → (∀ x ∈ names, Word.isName x = true) →
      render f names = .ok text →
      ∃ script, Script.parse text f.origin.source.label = .ok script) :
    ∃ c t, ofFunction (.function r) given s = .ok c t ∧ c.function = f := by
  obtain ⟨entries, s₁, hentries⟩ := exists_fixedAll hgiven s
  obtain ⟨passing, s₂, hpassing⟩ : ∃ passing s₂,
      Specialize.ofRun (Run.newNative .passing []) s₁ = .ok passing s₂ := ⟨_, _, rfl⟩
  obtain ⟨text, htext⟩ : ∃ text, render f (varsOf entries f.captured passing).keys = .ok text := by
    unfold render
    rw [write_eq]
    exact ⟨_, rfl⟩
  obtain ⟨script, hscript⟩ := hparse _ text (varsOf entries f.captured passing).nodup
    (isName_varsOf (isName_of_fixedAll hentries) hcaptured) htext
  have htype : Specialize.ofRun (Run.typeName (.function r)) s =
      .ok (s.typeName (.function r)) s := rfl
  have hfound : Specialize.ofRun (Run.view (·.getFunction? r)) s = .ok (some f) s :=
    Specialize.ofRun_eq_ok.2 (congrArg (EStateM.Result.ok · s) hget)
  unfold ofFunction
  rw [EStateM.bind_ok htype]
  dsimp only
  rw [EStateM.bind_ok hfound]
  dsimp only
  rw [EStateM.bind_ok hentries, EStateM.bind_ok hpassing,
    EStateM.bind_ok (Specialize.ofExcept_eq_ok.2 ⟨htext, rfl⟩),
    EStateM.bind_ok (Specialize.ofExcept_eq_ok.2 ⟨hscript, rfl⟩)]
  exact ⟨_, s₂, rfl, rfl⟩

end Closure

/-- Parameters without defaults have nothing to evaluate. -/
theorem Run.exists_evalParams {ps : List (Param Expr)} (h : ∀ p ∈ ps, p.default? = none)
    (call : Caller) (f : Frame) (s : Store) : ∃ vs, evalParams call f ps s = .ok vs s := by
  induction ps with
  | nil => exact ⟨[], rfl⟩
  | cons p ps ih =>
    obtain ⟨hp, hps⟩ := List.forall_mem_cons.1 h
    obtain ⟨vs, hvs⟩ := ih hps
    obtain ⟨name, kind⟩ := p
    unfold evalParams
    cases kind with
    | plain default? =>
      obtain rfl : default? = none := hp
      exact ⟨_, EStateM.bind_ok hvs⟩
    | star | starStar => exact ⟨_, EStateM.bind_ok hvs⟩

namespace Function.OfMaker

variable {g : Function} {names : List String} {chars : List Char} {qs : List Piece}
  (h : g.OfMaker names chars qs) (hstart : g.origin.span.start < LineMap.positions)
include h hstart

/-- The text that is written for the function has the lines of its maker. -/
theorem text_of_render {names' : List String} {text : String}
    (hrender : Closure.render g names' = .ok text) :
    text.toList = Piece.text (Maker.pieces names' Maker.margin chars qs g.name) := by
  have hplace := h.spells.stretch names
  rw [← h.text, ← h.span] at hplace
  rw [Closure.text_of_stretch hrender hplace hstart, h.settled, Maker.text_pieces]
  simp

/-- The function can be specialized. -/
theorem exists_ofFunction {r : FunctionRef} {s : Store} (hget : s.getFunction? r = some g)
    {given : Table Value} (hgiven : ∀ x ∈ given.keys, Word.isName x = true) :
    ∃ c t, Closure.ofFunction (.function r) given s = .ok c t ∧ c.function = g := by
  refine Closure.exists_ofFunction hget hgiven h.captured
    fun names' text hnodup hnames hrender => ?_
  obtain ⟨script, makerSpan, at_, spanName, hparse, hbody⟩ := h.read
  obtain ⟨-, script', -, -, -, -, -, hparse', -⟩ :=
    h.spells.again h.nodup hnodup h.valid hnames h.name h.text hparse hbody h.decorators
    (h.text_of_render hstart hrender)
  exact ⟨script', hparse'⟩

/-- The function starts on the second line of its maker. -/
theorem firstLine_eq : g.firstLine = g.origin.lineOffset + 2 := by
  have hbyte : Text.byteLength (Text.ended [Piece.text (Maker.header names)] []) =
      Text.byteLength (Piece.text (Maker.header names)) + 1 := by
    rw [Text.ended_cons, Text.byteLength_append]
    rfl
  have hspan : g.origin.span.start =
      Text.byteLength (Text.ended [Piece.text (Maker.header names)] []) +
      Text.byteLength Maker.margin := by
    rw [h.span, hbyte]
    rfl
  have hchars : g.origin.source.chars = Text.ended [Piece.text (Maker.header names)]
      (Maker.margin ++ (chars ++ (Piece.text qs ++ Maker.ending g.name))) := by
    rw [h.text, Maker.text_pieces]
    simp [Text.ended]
  have hline : (LineMap.ofText g.origin.source.chars).line g.origin.span.start = 1 + 1 := by
    rw [hchars]
    exact LineMap.line_ended (by simpa using Closure.newline_not_mem_header h.valid)
      (by decide) hstart (by omega) (by omega)
  change ((LineMap.ofText g.origin.source.chars).line g.origin.span.start : Int) +
    g.origin.lineOffset = _
  rw [hline]
  omega

/-- The function is made anew with the definition that it has.  Spans alone are different then, but
the lines that are reported for them are not. -/
theorem make_again {host : Host} (hparametric : host.Parametric)
    (hdefaults : ∀ p ∈ g.definition.params, p.default? = none) {v : Value} {given : Table Value}
    {s t : Store} {c : Closure} (hc : Closure.ofFunction v given s = .ok c t)
    (hfunction : c.function = g) (fuel rounds : Nat) {m : Machine}
    (hdepth : m.depth < Machine.maxDepth) (s₁ : Store) :
    ∃ r u k, c.make (callIn host (fuel + 1) m) rounds s₁ = .ok (.function r) u ∧
    u.getFunction? r = some k ∧
      k.definition.bare = g.definition.bare ∧ g.ReportsLike k ∧ Function.Chosen s given g k := by
  subst hfunction
  obtain ⟨script, text, hwritten⟩ := Closure.written_of_ofFunction hc
  have hnames := Closure.isName_of_ofFunction hc h.captured
  obtain ⟨htext, hlabel, hoffset, hread⟩ := hwritten.chars
  have hchars := h.text_of_render hstart hwritten.render
  obtain ⟨script₀, makerSpan₀, at₀, spanName₀, hparse₀, hbody₀⟩ := h.read
  obtain ⟨-, script', makerSpan, at_, spanName, d, hd, hparse, hbody, hsame⟩ :=
    h.spells.again h.nodup c.vars.nodup h.valid hnames h.name h.text hparse₀ hbody₀
    h.decorators hchars
  obtain rfl := Except.ok.inj (hparse.symm.trans hwritten.parse)
  have hbare : d.bare = c.function.definition.bare := hsame .nowhere (Places.joins_nowhere _ _)
  have hbody : c.script.DefinesMaker c.vars.keys makerSpan
      (Maker.body (Maker.span c.vars.keys chars qs) at_ spanName d) := hread.trans hbody
  have hplaced := (Definition.misplacedIn?_of_bare hbare .function).2 h.placed
  rw [← Maker.misplacedIn?_body (Maker.span c.vars.keys chars qs) at_ spanName] at hplaced
  have hnothing := (Definition.defaults_of_bare hbare).2 hdefaults
  -- The maker evaluates no defaults, and captures the values of the closure.
  let maker := c.script.maker c.function.globals c.vars.keys makerSpan
    (Maker.body (Maker.span c.vars.keys chars qs) at_ spanName d)
  obtain ⟨params, hparams⟩ := Run.exists_evalParams hnothing (callIn host fuel m.deeper)
    (c.script.makerFrame c.function.globals (s₁.makerLocals maker)) (s₁.inMaker maker c.vars)
  refine ⟨_, _, _, (Closure.make_eq_ok hparametric.confined hwritten.unrollings hd hbody rfl).2
    ⟨hplaced, hdepth, params, _, hparams, rfl, rfl⟩, Store.getFunction?_withFunction _ _ _,
    hbare, ?_, ?_⟩
  · have hmade : c.script.source.chars = Piece.text (Maker.pieces c.vars.keys Maker.margin chars qs
        c.function.name) := by
      rw [← hchars, ← htext]
      rfl
    have hbelow : c.function.origin.span.start - Text.byteLength (Piece.text (Maker.header names)) =
        (Maker.span c.vars.keys chars qs).start -
          Text.byteLength (Piece.text (Maker.header c.vars.keys)) := by
      rw [h.span]
      simp only [Maker.span]
      omega
    have hfirst : c.script.lineOffset = c.function.origin.lineOffset := by
      rw [hoffset, h.firstLine_eq hstart, Int.add_sub_cancel]
    exact Function.reportsLike_of_lines (Closure.newline_not_mem_header h.valid)
      (Closure.newline_not_mem_header hnames) (h.text.trans Maker.text_pieces)
      (hmade.trans Maker.text_pieces) hlabel hfirst hbelow (hsame _ (Places.joins_behind _ _))
  · exact Closure.chosen_of_ofFunction hc
      (Script.get?_captured_remade (callIn_confined hparametric.confined fuel m.deeper) hparams)

end Function.OfMaker

/-! ## Two rounds -/

/-- A function captures what two rounds of substitutions choose: for a name that it needs from
outside the value of the last round, else that of the first one, else what another function has
captured.  The name that unrolling goes by stands for the value that changes nothing. -/
structure Function.ChosenTwice (s₁ : Store) (given₁ : Table Value) (s₂ : Store)
    (given₂ : Table Value) (f h : Function) : Prop where
  /-- No other names are captured. -/
  free : ∀ x ∉ h.definition.freeNames, h.captured.get? x = none
  unroll : unrollName ∈ h.definition.freeNames →
    ∃ i, h.captured.get? unrollName = some (.native i .passing [])
  last : ∀ x v, x ∈ h.definition.freeNames → x ≠ unrollName → given₂.get? x = some v →
    ∃ w, v.FixedTo s₂ w ∧ h.captured.get? x = some w
  first : ∀ x v, x ∈ h.definition.freeNames → x ≠ unrollName → given₂.get? x = none →
    given₁.get? x = some v → ∃ w, v.FixedTo s₁ w ∧ h.captured.get? x = some w
  kept : ∀ x ∈ h.definition.freeNames, x ≠ unrollName → given₂.get? x = none →
    given₁.get? x = none → h.captured.get? x = f.captured.get? x

/-- What the first round has chosen stays chosen where the second one gives nothing. -/
theorem Function.Chosen.trans {s₁ s₂ : Store} {given₁ given₂ : Table Value} {f g h : Function}
    (hg : Chosen s₁ given₁ f g) (hh : Chosen s₂ given₂ g h)
    (hfree : h.definition.freeNames = g.definition.freeNames) :
    ChosenTwice s₁ given₁ s₂ given₂ f h where
  free := hh.free
  unroll := hh.unroll
  last := hh.fixed
  first x v hx hne hnone hv := by
    obtain ⟨w, hw, hcaptured⟩ := hg.fixed x v (hfree ▸ hx) hne hv
    exact ⟨w, hw, (hh.kept x hx hne hnone).trans hcaptured⟩
  kept x hx hne hnone₂ hnone₁ := (hh.kept x hx hne hnone₂).trans (hg.kept x (hfree ▸ hx) hne hnone₁)

namespace Closure

/-- Specializations compose.  If a function without decorators and without defaults is made anew,
this gives a function that can be made anew once more, whatever valid names are substituted, if
calls may nest so deeply.  Its definition is then the same but for spans, it reports the same lines,
and it captures what both rounds choose together.  This is about texts without carriage returns, and
about definitions that start at positions that there are. -/
theorem make_twice {host : Host} (hparametric : host.Parametric) (hsourced : host.Sourced)
    {s : Store} (hs : s.Reached host) {v : Value} {given : Table Value} {c : Closure} {t : Store}
    (hc : ofFunction v given s = .ok c t) (hd : c.function.definition.decorators = [])
    (hdefaults : ∀ p ∈ c.function.definition.params, p.default? = none)
    (hreturn : '\r' ∉ c.function.origin.source.chars)
    (hstart : c.function.origin.span.start < LineMap.positions) {fuel rounds : Nat} {m : Machine}
    {s₁ u : Store} {w : Value} (hmake : c.make (callIn host fuel m) rounds s₁ = .ok w u) :
    ∃ r g, w = .function r ∧ u.getFunction? r = some g ∧
      ∀ {s₂ : Store} {given₂ : Table Value}, s₂.getFunction? r = some g →
        g.origin.span.start < LineMap.positions → (∀ x ∈ given₂.keys, Word.isName x = true) →
        ∃ c₂ t₂, ofFunction w given₂ s₂ = .ok c₂ t₂ ∧
          ∀ (fuel₂ rounds₂ : Nat) (m₂ : Machine) (s₃ : Store), m₂.depth < Machine.maxDepth →
            ∃ r₂ u₂ h, c₂.make (callIn host (fuel₂ + 1) m₂) rounds₂ s₃ = .ok (.function r₂) u₂ ∧
              u₂.getFunction? r₂ = some h ∧ h.definition.bare = g.definition.bare ∧
              g.ReportsLike h ∧
              Function.ChosenTwice s given s₂ given₂ c.function h := by
  obtain ⟨script, text, hwritten⟩ := written_of_ofFunction hc
  obtain ⟨r₀, -, hget⟩ := hwritten.function
  have hf := hs.sourced hsourced r₀ c.function hget
  obtain ⟨r, g, rfl, hg, ⟨chars, qs, hmaker⟩, hnothing, hchosen⟩ :=
    ofMaker_of_make hparametric hc hf hd hstart hreturn hdefaults hmake
  refine ⟨r, g, rfl, hg, fun {s₂ given₂} hkept hplace hgiven => ?_⟩
  obtain ⟨c₂, t₂, hc₂, hfunction⟩ := hmaker.exists_ofFunction hplace hkept hgiven
  refine ⟨c₂, t₂, hc₂, fun fuel₂ rounds₂ m₂ s₃ hdepth => ?_⟩
  obtain ⟨r₂, u₂, h, hmade, hh, hbare, hlines, hchosen₂⟩ :=
    hmaker.make_again hplace hparametric hnothing hc₂ hfunction fuel₂ rounds₂ hdepth s₃
  exact ⟨r₂, u₂, h, hmade, hh, hbare, hlines,
    hchosen.trans hchosen₂ (Definition.freeNames_eq_of_bare hbare)⟩

end Closure

/-! ## The name that unrolling goes by -/

/-- The text of a function that needs two names from outside, one of which is that of unrolling. -/
def sampleCapturing : String :=
  "def outer(n, unroll):\n    def f():\n        return n, unroll\n    return f\nf = outer(7, 5)\n"

/-- The store behind the program of a text, which is executed in a store with one namespace. -/
def Store.behind (text : String) : Store :=
  match Program.ofText text "sample" with
  | .ok p => .after (p.run .probe 2 .captured ⟨0⟩ none { Store.empty with namespaces := #[.empty] })
  | .error _ => .empty

theorem Store.behind_reached (text : String) : (Store.behind text).Reached .probe := by
  unfold behind
  split
  · next p hp =>
    obtain ⟨script, hparse, hscript⟩ := Except.bind_eq_ok.1 hp
    have harises : p.toScript.Arises :=
      Program.toScript_of_ofScript hscript ▸ .relabel "sample" (.parse hparse)
    exact .run 2 .captured ⟨0⟩ none (.other .empty rfl) harises
  · exact .empty

/-- Makes a function anew and tests what it is made from and what is made. -/
def Closure.trial (host : Host) (callee : Value) (test : Closure → Function → Bool) :
    Specialize Bool := do
  let c ← Closure.ofFunction callee .empty
  match ← c.make (callIn host 1 .captured) 1 with
  | .function r =>
    match (← get).getFunction? r with
    | some g => return test c g
    | none => return false
  | _ => return false

/-- A trial that succeeds has made a function, and the test holds of it. -/
theorem Closure.exists_of_trial {host : Host} {callee : Value} {test : Closure → Function → Bool}
    {s : Store} (h : (Closure.trial host callee test).run' s = some true) : ∃ c t r u g,
    Closure.ofFunction callee .empty s = .ok c t ∧ c.make (callIn host 1 .captured) 1 t =
      .ok (.function r) u ∧
    u.getFunction? r = some g ∧ test c g = true := by
  unfold EStateM.run' EStateM.run Closure.trial at h
  split at h
  · next b u hrun =>
    obtain rfl := Option.some.inj h
    obtain ⟨c, t, hc, hrun⟩ := EStateM.bind_eq_ok.1 hrun
    obtain ⟨w, u', hw, hrun⟩ := EStateM.bind_eq_ok.1 hrun
    cases w with
    | function r =>
      obtain ⟨_, _, hget, hrun⟩ := EStateM.bind_eq_ok.1 hrun
      cases hget
      cases hg : u'.getFunction? r with
      | some g =>
        rw [hg] at hrun
        injection hrun with htest
        exact ⟨c, t, r, u', g, hc, hw, hg, htest⟩
      | none =>
        rw [hg] at hrun
        cases hrun
    | _ => cases hrun
  · cases h

/-- The function captures an integer for the name of unrolling, and it can be made anew. -/
theorem sampleCapturing_made : ∃ c t r u g,
    Closure.ofFunction (.function ⟨1⟩) .empty (.behind sampleCapturing) = .ok c t ∧
    c.make (callIn .probe 1 .captured) 1 t = .ok (.function r) u ∧ u.getFunction? r = some g ∧
    c.function.definition.decorators = [] ∧
    (∀ p ∈ c.function.definition.params, p.default? = none) ∧
    '\r' ∉ c.function.origin.source.chars ∧ c.function.origin.span.start < LineMap.positions ∧
    (c.function.captured.get? unrollName).bind Value.int? = some 5 ∧
    unrollName ∈ g.definition.freeNames ∧
    g.origin.span.start < LineMap.positions := by
  have hmade : (Closure.trial .probe (.function ⟨1⟩) fun c g => decide
      (c.function.definition.decorators.length = 0 ∧
        (∀ p ∈ c.function.definition.params, p.default?.isNone = true) ∧
        '\r' ∉ c.function.origin.source.chars ∧ c.function.origin.span.start < LineMap.positions ∧
        (c.function.captured.get? unrollName).bind Value.int? = some 5 ∧
        unrollName ∈ g.definition.freeNames ∧ g.origin.span.start < LineMap.positions)).run'
      (.behind sampleCapturing) = some true := by
    decide +kernel
  obtain ⟨c, t, r, u, g, hc, hmake, hg, htest⟩ := Closure.exists_of_trial hmade
  obtain ⟨hdecorators, hdefaults, hfacts⟩ := of_decide_eq_true htest
  exact ⟨c, t, r, u, g, hc, hmake, hg, List.length_eq_zero_iff.1 hdecorators,
    fun p hp => Option.isNone_iff_eq_none.1 (hdefaults p hp), hfacts⟩

/-- It is made anew twice, with a value for a name in the first round. -/
theorem sampleCapturing_made_twice :
    ∃ c t r u g c₂ t₂ r₂ u₂ h, Host.probe.Parametric ∧ Host.probe.Sourced ∧
    (Store.behind sampleCapturing).Reached .probe ∧
    Closure.ofFunction (.function ⟨1⟩) .empty (.behind sampleCapturing) = .ok c t ∧
    c.function.definition.decorators = [] ∧
    (∀ p ∈ c.function.definition.params, p.default? = none) ∧
    '\r' ∉ c.function.origin.source.chars ∧ c.function.origin.span.start < LineMap.positions ∧
    c.make (callIn .probe 1 .captured) 1 t = .ok (.function r) u ∧ u.getFunction? r = some g ∧
    g.origin.span.start < LineMap.positions ∧
    (∀ x ∈ (Table.ofList [("n", Value.bool true)]).keys, Word.isName x = true) ∧
    Closure.ofFunction (.function r) (.ofList [("n", .bool true)]) u = .ok c₂ t₂ ∧
    Machine.captured.depth < Machine.maxDepth ∧
    c₂.make (callIn .probe 1 .captured) 1 t₂ = .ok (.function r₂) u₂ ∧ u₂.getFunction? r₂ = some h ∧
    h.definition.bare = g.definition.bare ∧ g.ReportsLike h ∧
    Function.ChosenTwice (.behind sampleCapturing) .empty u (.ofList [("n", .bool true)])
      c.function h := by
  obtain ⟨c, t, r, u, g, hc, hmake, hg, hd, hdefaults, hreturn, hstart, -, -, hplace⟩ :=
    sampleCapturing_made
  obtain ⟨r', g', hr, hg', htwice⟩ := Closure.make_twice Host.parametric_probe Host.sourced_probe
    (Store.behind_reached _) hc hd hdefaults hreturn hstart hmake
  cases hr
  obtain rfl := Option.some.inj (hg.symm.trans hg')
  have hnames : ∀ x ∈ (Table.ofList [("n", Value.bool true)]).keys, Word.isName x = true := by
    decide
  obtain ⟨c₂, t₂, hc₂, hagain⟩ := htwice hg hplace hnames
  obtain ⟨r₂, u₂, h, hmade, hh, hbare, hlines, hchosen⟩ := hagain 0 1 .captured t₂ (by decide)
  exact ⟨c, t, r, u, g, c₂, t₂, r₂, u₂, h, Host.parametric_probe, Host.sourced_probe,
    Store.behind_reached _, hc, hd, hdefaults, hreturn, hstart, hmake, hg, hplace, hnames,
    hc₂, by decide, hmade, hh, hbare, hlines, hchosen⟩

/-- What a function has captured for the name that unrolling goes by is not kept: although nothing
is substituted in either round, the name stands for no integer any more. -/
theorem sampleCapturing_loses_unroll : ∃ c t r u g c₂ t₂ r₂ u₂ h,
    Closure.ofFunction (.function ⟨1⟩) .empty (.behind sampleCapturing) = .ok c t ∧
    c.function.definition.decorators = [] ∧
    (∀ p ∈ c.function.definition.params, p.default? = none) ∧
    '\r' ∉ c.function.origin.source.chars ∧
    (c.function.captured.get? unrollName).bind Value.int? = some 5 ∧
    c.make (callIn .probe 1 .captured) 1 t = .ok (.function r) u ∧ u.getFunction? r = some g ∧
    Closure.ofFunction (.function r) .empty u = .ok c₂ t₂ ∧
    c₂.make (callIn .probe 1 .captured) 1 t₂ = .ok (.function r₂) u₂ ∧ u₂.getFunction? r₂ = some h ∧
    unrollName ∈ h.definition.freeNames ∧ (h.captured.get? unrollName).bind Value.int? = none := by
  obtain ⟨c, t, r, u, g, hc, hmake, hg, hd, hdefaults, hreturn, hstart, hfive, hfree, hplace⟩ :=
    sampleCapturing_made
  obtain ⟨script, text, hwritten⟩ := Closure.written_of_ofFunction hc
  obtain ⟨r₀, -, hget⟩ := hwritten.function
  have hf := (Store.behind_reached _).sourced Host.sourced_probe r₀ c.function hget
  obtain ⟨_, _, ⟨⟩, hg', ⟨chars, qs, hmaker⟩, hnothing, -⟩ :=
    Closure.ofMaker_of_make Host.parametric_probe hc hf hd hstart hreturn hdefaults hmake
  obtain rfl := Option.some.inj (hg.symm.trans hg')
  have hnone : ∀ x ∈ (Table.empty : Table Value).keys, Word.isName x = true := nofun
  obtain ⟨c₂, t₂, hc₂, hfunction⟩ := hmaker.exists_ofFunction hplace hg hnone
  obtain ⟨r₂, u₂, h, hmade, hh, hbare, -, hchosen⟩ :=
    hmaker.make_again hplace Host.parametric_probe hnothing hc₂ hfunction 0 1
    (m := .captured) (by decide) t₂
  have hneeded := Definition.freeNames_eq_of_bare hbare ▸ hfree
  obtain ⟨i, hi⟩ := hchosen.unroll hneeded
  exact ⟨c, t, r, u, g, c₂, t₂, r₂, u₂, h, hc, hd, hdefaults, hreturn, hfive, hmake, hg, hc₂, hmade,
    hh, hneeded, by rw [hi]; rfl⟩

end StagedScript
