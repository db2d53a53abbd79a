import StagedScript.Proofs.Maker.Lines
import StagedScript.Proofs.Specializing.Made

/-!
# The body of a maker

The lines of a maker are read as the definition of a function and the return of it: the definition
takes all that hangs off the line that it starts, and the last line alone is left.
-/

namespace StagedScript

open Parse
open Token (Kind Hung Balanced)

variable {c c' : Cursor} {ks : List Kind} {name : String}

/-- A line that returns the value of a name. -/
theorem Yields.returnLine (depth : Nat)
    (hc : c.ahead = .keyword .return_ :: .ident name :: .newline :: ks) :
    Yields (stmtWithin (depth + 1)) c
      (fun ss => ∃ at_ spanName, ss = [.ret at_ (some (.name spanName name))]) ks := by
  have hsimple : Yields simple c (fun s => ∃ at_ spanName,
      s = .ret at_ (some (.name spanName name))) (.newline :: ks) := by
    unfold simple
    refine .get ?_
    dsimp only
    rw [Cursor.kind_of_ahead hc]
    refine .advance hc (by simp) fun c₁ hc₁ => .get ?_
    rw [Cursor.sees_of_ahead hc₁, Cursor.sees_of_ahead hc₁]
    refine (Yields.exprs (.of_expr (fun depth => ReadsExpr.name name (depth + 1)) (by simp))
      Kind.Ends.newline rfl hc₁).bind fun e c₂ he hc₂ => ?_
    obtain ⟨spanName, rfl⟩ := he
    exact .spanFrom _ fun at_ => .pure ⟨at_, spanName, rfl⟩ hc₂
  unfold stmtWithin
  refine .get ?_
  rw [Cursor.kind_of_ahead hc]
  refine (Yields.simpleLine hsimple).mono ?_
  rintro _ ⟨_, rfl, at_, spanName, rfl⟩
  exact ⟨at_, spanName, rfl⟩

/-- At the end of a block no more statements are read. -/
theorem Parse.blockBody_of_dedent (sub : Parse (List Stmt)) (n : Nat)
    (hc : c.ahead = .dedent :: ks) :
    blockBody sub n c = .ok [] c := by
  cases n with
  | zero => rfl
  | succ n =>
    change (if c.sees .dedent || c.atEnd then pure [] else _ : Parse (List Stmt)) c = _
    rw [Cursor.sees_of_ahead hc]
    rfl

/-- A statement of a block is read in front of the others. -/
theorem Parse.blockBody_eq_ok {sub : Parse (List Stmt)} {n : Nat} {k : Kind} {body : List Stmt}
    (hc : c.ahead = k :: ks) (hk : k.Begins)
    (hnext : ∀ ss c₁, sub c = .ok ss c₁ → ∃ l ls, c₁.ahead = l :: ls ∧ l.Follows)
    (h : blockBody sub (n + 1) c = .ok body c') :
    ∃ ss c₁ rest, sub c = .ok ss c₁ ∧ blockBody sub n c₁ = .ok rest c' ∧ body = ss ++ rest := by
  have hseen : (c.sees .dedent || c.atEnd) = false := by
    rw [Cursor.atEnd, Cursor.sees_of_ahead hc, Cursor.sees_of_ahead hc, hk.dedent, hk.eof]
    rfl
  unfold blockBody at h
  obtain ⟨_, _, hget, h⟩ := EStateM.bind_eq_ok.1 h
  cases hget
  rw [hseen, if_neg Bool.false_ne_true] at h
  obtain ⟨ss, c₁, hss, h⟩ := EStateM.bind_eq_ok.1 h
  obtain ⟨_, _, hskip, h⟩ := EStateM.bind_eq_ok.1 h
  cases hskip
  obtain ⟨l, ls, hc₁, hl⟩ := hnext ss c₁ hss
  rw [Cursor.skipNewlines_of_ahead hc₁ hl.newline] at h
  obtain ⟨rest, _, hrest, h⟩ := EStateM.bind_eq_ok.1 h
  cases h
  exact ⟨ss, c₁, rest, hss, hrest, rfl⟩

/-- No statement starts with the start of a block. -/
theorem Parse.stmtWithin_of_indent {depth : Nat} {ss : List Stmt} (hc : c.ahead = .indent :: ks)
    (h : stmtWithin depth c = .ok ss c') : False := by
  cases depth with
  | zero => cases h
  | succ depth =>
    unfold stmtWithin at h
    obtain ⟨_, _, hget, h⟩ := EStateM.bind_eq_ok.1 h
    cases hget
    rw [Cursor.kind_of_ahead hc] at h
    cases h

/-- Lines are taken apart at the end of the first one. -/
theorem Token.eq_of_newline {ks ls : List Kind} {ks' ls' : List Kind} (hks : ∀ k ∈ ks, k ≠ .newline)
    (hls : ∀ l ∈ ls, l ≠ .newline) (h : ks ++ .newline :: ks' = ls ++ .newline :: ls') :
    ks = ls ∧ ks' = ls' := by
  induction ks generalizing ls with
  | nil =>
    cases ls with
    | nil => exact ⟨rfl, (List.cons.inj h).2⟩
    | cons l ls => exact absurd (List.cons.inj h).1.symm (hls l List.mem_cons_self)
  | cons k ks ih =>
    cases ls with
    | nil => exact absurd (List.cons.inj h).1 (hks k List.mem_cons_self)
    | cons l ls =>
      rw [List.cons_append, List.cons_append] at h
      obtain ⟨rfl, hrest⟩ := List.cons.inj h
      obtain ⟨rfl, rfl⟩ := ih (List.forall_mem_cons.1 hks).2 (List.forall_mem_cons.1 hls).2 hrest
      exact ⟨rfl, rfl⟩

/-- A definition without decorators takes all that hangs off the line that it starts, unless it is
on that line and a block hangs off the line nevertheless. -/
theorem Parse.definition_eq_ok_hung {depth : Nat} {s : Stmt} {hs : List Kind} {k : Kind}
    (hlined : Token.Lined c.ahead) (hung : Hung 0 false hs) (hk : k ≠ .indent)
    (hc : c.ahead = .keyword .def_ :: (hs ++ k :: ks))
    (h : definition (stmtWithin depth) c = .ok s c') :
    ∃ x ls ps b, hs = .ident x :: ls ∧ s = .define ⟨c.token.span.start, c'.lastWordStop⟩ x [] ps b ∧
      (c'.ahead = k :: ks ∨ ∃ more, c'.ahead = .indent :: more) := by
  obtain ⟨line, below, rfl, hline, hbelow⟩ := hung.line
  -- The line that the definition starts ends where the first newline is.
  obtain ⟨ls, rest, hls, hinner⟩ : ∃ ls rest, line ++ .newline :: (below ++ k :: ks) =
      ls ++ .newline :: rest ∧ ∀ k ∈ ls, k.Inner := by
    rw [hc, List.append_assoc, List.cons_append] at hlined
    exact hlined.1 (by simp [Kind.Inner, Kind.Flat])
  obtain ⟨rfl, rfl⟩ :=
    Token.eq_of_newline (fun k hk => (hline k hk).2) (fun k hk => (hinner k hk).2.1) hls
  rw [List.append_assoc, List.cons_append] at hc
  obtain ⟨x, left, ps, b, taken, rfl, rfl, hmoved, -, htaken⟩ :=
    definition_eq_ok_lines hlined hinner hc h
  have hahead : below ++ k :: ks = taken ++ c'.ahead := by
    have hahead := hmoved.ahead
    rw [hc] at hahead
    simpa using hahead
  refine ⟨x, left ++ .newline :: below, ps, b, rfl, rfl, ?_⟩
  rcases hbelow.block with rfl | ⟨us, rfl, hus⟩
  · rcases htaken with rfl | ⟨vs, rfl, -⟩
    · exact .inl hahead.symm
    · exact absurd (List.cons.inj hahead).1 hk
  · rcases htaken with rfl | ⟨vs, rfl, hvs⟩
    · exact .inr ⟨_, hahead.symm⟩
    · simp only [List.cons_append, List.append_assoc, List.cons.injEq, true_and, List.nil_append]
        at hahead
      obtain rfl := hus.unique hvs hahead
      exact .inl (List.cons.inj (List.append_cancel_left hahead)).2.symm

theorem Parse.sees_of_ahead {k : Kind} (hc : c.ahead = k :: ks) (l : Kind) :
    sees l c = .ok (k.alike l) c :=
  congrArg (EStateM.Result.ok · c) (Cursor.sees_of_ahead hc l)

theorem Parse.accept_of_ahead {k l : Kind} (hc : c.ahead = k :: ks) (hkl : k.alike l = true) :
    accept l c = .ok true c.advance := by
  rw [accept_eq, Cursor.sees_of_ahead hc, hkl, if_pos rfl]

theorem Parse.expect_of_ahead {k l : Kind} (hc : c.ahead = k :: ks) (hkl : k.alike l = true) :
    expect l c = .ok () c.advance := by
  refine expect_of_sees ?_
  rw [Cursor.sees_of_ahead hc, hkl]

theorem Parse.name_of_ahead {x : String} (hc : c.ahead = .ident x :: ks) :
    Parse.name c = .ok x c.advance := by
  have hkind : kind c = .ok (.ident x) c :=
    congrArg (EStateM.Result.ok · c) (Cursor.kind_of_ahead hc)
  unfold Parse.name
  rw [EStateM.bind_ok hkind]
  rfl

/-- The indented lines of a block are read behind its start. -/
theorem Parse.block_eq_indented {sub : Parse (List Stmt)} {body : List Stmt}
    (hc : c.ahead = .symbol .colon :: .newline :: .indent :: ks) (h : block sub c = .ok body c') :
    ∃ c₁ c₂ n, c.Moved [.symbol .colon, .newline, .indent] c₁ ∧ c₁.ahead = ks ∧ c₁.rest.length < n ∧
      blockBody sub n c₁ = .ok body c₂ ∧ c' = c₂.advance := by
  have hc₁ := Cursor.ahead_advance hc (by simp)
  have hc₂ := Cursor.ahead_advance hc₁ (by simp)
  have hc₃ := Cursor.ahead_advance hc₂ (by simp)
  unfold block at h
  obtain ⟨_, c₁, hcolon, h⟩ := EStateM.bind_eq_ok.1 h
  obtain ⟨-, rfl⟩ := expect_eq_ok (k := .symbol .colon) trivial hcolon
  rw [EStateM.bind_ok (accept_of_ahead hc₁ rfl), if_pos rfl,
    EStateM.bind_ok (accept_of_ahead hc₂ rfl), if_pos rfl] at h
  obtain ⟨_, _, hrounds, h⟩ := EStateM.bind_eq_ok.1 h
  cases hrounds
  obtain ⟨_, c₂, hbody, h⟩ := EStateM.bind_eq_ok.1 h
  obtain ⟨_, _, hend, h⟩ := EStateM.bind_eq_ok.1 h
  cases h
  obtain ⟨-, rfl⟩ := expect_eq_ok (k := .dedent) trivial hend
  exact ⟨_, c₂, _, (Cursor.Moved.advance hc (by simp)).trans
    ((Cursor.Moved.advance hc₁ (by simp)).trans (Cursor.Moved.advance hc₂ (by simp))), hc₃,
    Nat.lt_succ_of_le (Cursor.length_rest_le _), hbody, rfl⟩

/-- The block of a maker is the definition of a function and the return of it.  The definition has
been read from its keyword on, and is that of the tokens that hang off its line. -/
theorem Parse.block_maker {depth : Nat} {body : List Stmt} {front used last : List Token}
    {t : Token} (hlined : Token.Lined c.ahead) (hung : Hung 0 false (used.map Token.kind))
    (hrest : c.rest = front ++ t :: (used ++ last))
    (hfront : front.map Token.kind = [.symbol .colon, .newline, .indent])
    (ht : t.kind = .keyword .def_) (hused : ((used.filter Layout.isInner).map Token.kind).head? =
      some (.ident name))
    (hlast : last.map Token.kind = [.keyword .return_, .ident name, .newline, .dedent, .eof])
    (h : block (stmtWithin depth) c = .ok body c') :
    c'.ahead = [.eof] ∧ ∃ inner at_ spanName ps b,
      inner = ⟨t.span.start, Token.wordStop t.span.stop used⟩ ∧
      body = Maker.body inner at_ spanName ⟨name, [], ps, b⟩ ∧
      ∃ depth c₁ c₂, c₁.rest = t :: (used ++ last) ∧
        definition (stmtWithin depth) c₁ = .ok (.define inner name [] ps b) c₂ := by
  have hc : c.ahead = .symbol .colon :: .newline :: .indent :: .keyword .def_ ::
      (used.map Token.kind ++ [.keyword .return_, .ident name, .newline, .dedent, .eof]) := by
    rw [Cursor.ahead, hrest]
    simp [hfront, ht, hlast]
  obtain ⟨c₁, c₂, n, hmoved, hc₁, hn, hbody, rfl⟩ := block_eq_indented hc h
  rw [hmoved.ahead] at hlined
  have hlined := hlined.of_append
  obtain ⟨front', hfront', hkinds', -⟩ := hmoved.rest
  obtain ⟨rfl, hrest₁⟩ : front = front' ∧ c₁.rest = t :: (used ++ last) := by
    have hlength := congrArg List.length (hfront.trans hkinds'.symm)
    rw [List.length_map, List.length_map] at hlength
    obtain ⟨hfront, hrest⟩ := List.append_inj (hrest.symm.trans hfront') hlength
    exact ⟨hfront, hrest.symm⟩
  obtain ⟨n, rfl⟩ : ∃ m, n = m + 2 := by
    rw [hrest₁] at hn
    simp only [List.length_cons, List.length_append] at hn
    exact ⟨n - 2, by omega⟩
  -- The definition is the first statement.
  have hnext (ss : List Stmt) (c₃ : Cursor) (hss : stmtWithin depth c₁ = .ok ss c₃) :
      ∃ l ls, c₃.ahead = l :: ls ∧ l.Follows := by
    obtain ⟨d, s, -, -, hs⟩ := stmtWithin_eq_definition hc₁ hss
    obtain ⟨-, -, -, -, -, -, hc₃ | ⟨more, hc₃⟩⟩ :=
      definition_eq_ok_hung hlined hung (by simp) hc₁ hs
    · exact ⟨_, _, hc₃, ⟨rfl, rfl, rfl⟩⟩
    · exact ⟨_, _, hc₃, ⟨rfl, rfl, rfl⟩⟩
  obtain ⟨ss, c₃, rest, hss, hrestBody, rfl⟩ :=
    blockBody_eq_ok hc₁ ⟨⟨rfl, rfl, rfl⟩, rfl, rfl⟩ hnext hbody
  obtain ⟨d, s, rfl, rfl, hs⟩ := stmtWithin_eq_definition hc₁ hss
  obtain ⟨x, ls, ps, b, hx, rfl, hc₃⟩ := definition_eq_ok_hung hlined hung (by simp) hc₁ hs
  obtain rfl : name = x := by
    obtain ⟨u, us, rfl, hu, -⟩ := List.map_eq_cons_iff.1 hx
    have hinner : Layout.isInner u = true := by
      rw [Layout.isInner, hu]
    rw [List.filter_cons, if_pos hinner, List.map_cons, List.head?_cons, hu] at hused
    exact (Kind.ident.inj (Option.some.inj hused)).symm
  -- What is left is a line of its own.
  have hc₃ : c₃.ahead = [.keyword .return_, .ident name, .newline, .dedent, .eof] := by
    refine hc₃.resolve_right ?_
    rintro ⟨more, hc₃⟩
    obtain ⟨_, _, _, hindent, -⟩ := blockBody_eq_ok hc₃ ⟨⟨rfl, rfl, rfl⟩, rfl, rfl⟩
      (fun ss c₄ hss => (stmtWithin_of_indent hc₃ hss).elim) hrestBody
    exact stmtWithin_of_indent hc₃ hindent
  have hreturn := Yields.returnLine d hc₃
  obtain ⟨ss, c₄, rest, hss', hend, rfl⟩ := blockBody_eq_ok hc₃ ⟨⟨rfl, rfl, rfl⟩, rfl, rfl⟩
    (fun ss c₄ hss => by
      obtain ⟨ss', c₅, hss', -, hc₅⟩ := hreturn
      cases hss'.symm.trans hss
      exact ⟨_, _, hc₅, ⟨rfl, rfl, rfl⟩⟩) hrestBody
  obtain ⟨ss', c₅, hreturn, ⟨at_, spanName, rfl⟩, hc₅⟩ := hreturn
  cases hreturn.symm.trans hss'
  cases (blockBody_of_dedent _ _ hc₅).symm.trans hend
  -- The tokens of the definition are those that hang off its line.
  obtain ⟨t', used', hused', -, -, -, -, -, hspan⟩ := rest_of_definition hlined hs
  rw [hrest₁] at hused'
  obtain ⟨rfl, hbehind⟩ := List.cons.inj hused'
  have hlength : last.length = c₃.rest.length := by
    have hlength := congrArg List.length (hlast.trans hc₃.symm)
    rwa [Cursor.ahead, List.length_map, List.length_map] at hlength
  obtain ⟨rfl, -⟩ := List.append_inj' hbehind hlength
  exact ⟨Cursor.ahead_advance hc₅ (by simp), _, at_, spanName, ps, b, hspan, rfl, d, c₁,
    c₃, hrest₁, hs⟩

/-! ## Headers -/

/-- Behind its header a definition is read as its block, which is all that is left of it. -/
theorem Parse.definition_eq_header {x : String} {names : List String} (hnames : names.Nodup)
    (hks : ∀ k ∈ ks, k.Inner) {rest : List Kind}
    (hc : c.ahead = .keyword .def_ :: .ident x :: .symbol .openParen ::
      (Param.words names ++ .symbol .closeParen :: (ks ++ .newline :: rest))) :
    ∃ c₁, c.Moved (.keyword .def_ :: .ident x :: .symbol .openParen ::
        (Param.words names ++ [.symbol .closeParen])) c₁ ∧
      ∀ sub, definition sub c = (do
        let body ← block sub
        return Stmt.define (← blockSpanFrom c.token.span.start) x [] (Param.plain Expr names) body)
        c₁ := by
  have hc₁ := Cursor.ahead_advance hc (by simp)
  have hc₂ := Cursor.ahead_advance hc₁ (by simp)
  have hc₃ := Cursor.ahead_advance hc₂ (by simp)
  have hmoved :=
    (Cursor.Moved.advance hc (by simp)).trans ((Cursor.Moved.advance hc₁ (by simp)).trans
      (Cursor.Moved.advance hc₂ (by simp)))
  have hwords (k : Kind) (hk : k ∈ Param.words names ++ .symbol .closeParen :: ks) : k.Inner := by
    rcases List.mem_append.1 hk with hk | hk
    · rcases Param.mem_words hk with rfl | ⟨x, rfl⟩ <;> simp [Kind.Inner, Kind.Flat]
    · rcases List.mem_cons.1 hk with rfl | hk
      · simp [Kind.Inner, Kind.Flat]
      · exact hks k hk
  -- There are at least as many tokens ahead as parameters, so the reader has rounds enough.
  have hlength := c.advance.advance.advance.length_ahead_le
  have hnames' : names.length ≤ (Param.words names).length :=
    length_le_withCommas _ names fun _ _ => by simp
  rw [hc₃] at hlength
  simp only [List.length_append, List.length_cons] at hlength
  have hnodup : ([] ++ names).Nodup := hnames
  have hyields : Yields (params (c.advance.advance.advance.bound + 1) []) c.advance.advance.advance
      (· = Param.plain Expr names) (.symbol .closeParen :: (ks ++ .newline :: rest)) :=
    Yields.params hnodup (by omega) hc₃
  obtain ⟨ps, c₄, hparams, rfl, hc₄⟩ := hyields
  have hreads : Mirrors .nowhere 1 (Param.words names ++ .symbol .closeParen :: ks)
      (params (c.advance.advance.advance.bound + 1) [])
      (params (c.advance.advance.advance.bound + 1) []) (List.Forall₂ (Param.Same .nowhere)) 1 :=
    mirrors_params (by simp; omega) (by simp; omega) .nil
  have hline : c.advance.advance.advance.ahead =
      (Param.words names ++ .symbol .closeParen :: ks) ++ .newline :: rest := by
    rw [hc₃]
    simp
  obtain ⟨used, -, -, hmoved₄, -⟩ := hreads.moved hwords hline hparams
  obtain rfl : Param.words names = used := by
    have hahead := hmoved₄.ahead
    rw [hc₃, hc₄] at hahead
    exact List.append_cancel_right hahead
  refine ⟨c₄.advance, ?_, fun sub => ?_⟩
  · have hall := hmoved.trans (hmoved₄.trans (Cursor.Moved.advance hc₄ (by simp)))
    simpa using hall
  · have hparams : params (c.advance.advance.advance.bound + 1) [] c.advance.advance.advance =
      .ok (Param.plain Expr names) c₄ := hparams
    unfold definition
    rw [EStateM.bind_ok (show here c = .ok c.token.span c from rfl),
      EStateM.bind_ok (show rounds c = .ok (c.bound + 1) c from rfl),
      EStateM.bind_ok (decorators_of_sees (by rw [Cursor.sees_of_ahead hc]; rfl) _),
      EStateM.bind_ok (sees_of_ahead hc _)]
    change (Parse.name >>= _) c.advance = _
    rw [EStateM.bind_ok (name_of_ahead hc₁), EStateM.bind_ok (expect_of_ahead hc₂ rfl),
      EStateM.bind_ok (show rounds _ = .ok (c.advance.advance.advance.bound + 1) _ from rfl),
      EStateM.bind_ok hparams, EStateM.bind_ok (expect_of_ahead hc₄ rfl)]

/-! ## The text of a maker -/

namespace Maker

/-- What is in front of each of the lines of a maker. -/
def margin : List Char := List.replicate 4 ' '

theorem blank_margin : ∀ c ∈ margin, Lexeme.isBlank c = true := by
  intro c hc
  rw [List.eq_of_mem_replicate hc]
  rfl

/-- A script is the definition of a maker for one definition only. -/
theorem body_inj {script : Script} {names : List String} {makerSpan makerSpan' inner inner' : Span}
    {at_ at_' spanName spanName' : Span} {d d' : Definition}
    (h : script.DefinesMaker names makerSpan (body inner at_ spanName d))
    (h' : script.DefinesMaker names makerSpan' (body inner' at_' spanName' d'))
    (hd : d.decorators = d'.decorators) : inner = inner' ∧ d = d' := by
  obtain ⟨name, decorators, params, b⟩ := d
  obtain ⟨name', decorators', params', b'⟩ := d'
  cases h.symm.trans h'
  exact ⟨rfl, congrArg (Definition.mk name · params b) hd⟩

/-- What follows a definition in its maker. -/
def ending (name : String) : List Char := Piece.text ([Piece.newline []] ++ returnLine name)

/-- The pieces of a maker around those of a definition. -/
def around (names : List String) (ps : List Piece) (name : String) : List Piece :=
  header names ++ Piece.newline [] :: (ps ++ ([Piece.newline []] ++ returnLine name))

theorem text_around (names : List String) (ps : List Piece) (name : String) :
    Piece.text (around names ps name) =
      Piece.text (header names) ++ '\n' :: (Piece.text ps ++ ending name) := by
  simp [around, Piece.text_append, Piece.text, ending, Piece.newline]

theorem read_around {names : List String} (hnames : ∀ x ∈ names, Word.isName x = true)
    {name : String} (hname : Word.isName name = true) {ps : List Piece}
    (hfit : Piece.Fit ps (ending name)) :
    Piece.Read (around names ps name) [] := by
  have hend : Piece.Read ([Piece.newline []] ++ returnLine name) [] := by
    have hreturn : Piece.Fit (returnLine name) [] :=
      ⟨Piece.fits_word rfl blank_margin (.cons rfl),
        Piece.fits_word (Bool.and_eq_true_iff.1 hname).1 Piece.blanks_one .nil, trivial⟩
    have hread : Piece.Read (returnLine name ++ []) [] := Piece.Fit.read hreturn .nil
    rw [List.append_nil] at hread
    exact ⟨Piece.fits_newline (by simp) _, hread⟩
  have hlines : Piece.Read (Piece.newline [] :: (ps ++ ([Piece.newline []] ++ returnLine name)))
      [] := by
    refine ⟨Piece.fits_newline (by simp) _, Piece.Fit.read ?_ hend⟩
    rw [List.append_nil]
    exact hfit
  exact ((isLine_header hnames).fit _ (.inr ⟨_, rfl⟩)).read hlines

/-- The pieces of a maker, with a definition that is indented in some way. -/
def pieces (names : List String) (gap chars : List Char) (qs : List Piece) (name : String) :
    List Piece :=
  header names ++ lines gap chars qs name

section

variable {names : List String} {gap chars : List Char} {qs : List Piece}
  (hnames : ∀ x ∈ names, Word.isName x = true) (hname : Word.isName name = true)

theorem pieces_eq : pieces names gap chars qs name =
    around names (⟨gap, .keyword .def_, chars⟩ :: qs) name := rfl

theorem text_pieces : Piece.text (pieces names gap chars qs name) = Piece.text (header names) ++
    '\n' :: (gap ++ (chars ++ (Piece.text qs ++ ending name))) := by
  rw [pieces_eq, text_around, Piece.text, List.append_assoc, List.append_assoc]

include hnames hname

theorem read_pieces
    (hkeyword : Piece.Fits ⟨gap, .keyword .def_, chars⟩ (Piece.text qs ++ ending name))
    (hfit : Piece.Fit qs (ending name)) : Piece.Read (pieces names gap chars qs name) [] := by
  have hpieces : Piece.Fit (⟨gap, .keyword .def_, chars⟩ :: qs) (ending name) := ⟨hkeyword, hfit⟩
  rw [pieces_eq]
  exact read_around hnames hname hpieces

omit hname in
theorem inner_header : ∀ k ∈ (header names).map Piece.kind, k.Inner := by
  intro k hk
  rw [kinds_header hnames] at hk
  simp only [List.mem_cons, List.mem_append, List.not_mem_nil, or_false] at hk
  rcases hk with rfl | rfl | rfl | hk | rfl | rfl
  case inr.inr.inr.inl =>
    rcases Param.mem_words hk with rfl | ⟨x, rfl⟩ <;> simp [Kind.Inner, Kind.Flat]
  all_goals simp [Kind.Inner, Kind.Flat]

omit hname in
/-- The tokens of the header stand one after the other. -/
theorem through_header :
    Layout.Arranges .start (header names) ((header names).map Piece.kind) ⟨[], 0, false⟩ ∧
    (Layout.through 0 .start (header names)).tokens = Piece.place 0 (header names) := by
  have hheader : Layout.Arranges .start (header names) ((header names).map Piece.kind)
      ⟨[], 0, false⟩ :=
    Layout.Arranges.isLine (isLine_header hnames) rfl
  have hinner := inner_header hnames
  have hpieces (p : Piece) (hp : p ∈ header names) : p.kind.Inner :=
    hinner _ (List.mem_map_of_mem hp)
  have hall {ts : List Token} (hts : ts.map Token.kind = (header names).map Piece.kind) :
      ts.filter Layout.isInner = ts := by
    refine List.filter_eq_self.2 fun t ht => Layout.isInner_of_inner (hinner _ ?_)
    rw [← hts]
    exact List.mem_map_of_mem ht
  have hwords : (Layout.through 0 .start (header names)).tokens.filter Layout.isInner =
      (Piece.place 0 (header names)).filter Layout.isInner :=
    Layout.through_isInner (fun p hp _ => hpieces p hp) (fun _ => rfl) (hheader.errors 0)
  rw [hall (hheader.kinds 0), hall (Piece.kinds_place 0 _)] at hwords
  exact ⟨hheader, hwords⟩

/-- The tokens of a maker are those of its header and those of the lines below it. -/
theorem ofText_pieces
    (hkeyword : Piece.Fits ⟨gap, .keyword .def_, chars⟩ (Piece.text qs ++ ending name))
    (hfit : Piece.Fit qs (ending name)) :
    let text := Piece.text (pieces names gap chars qs name)
    let below := Layout.through (Text.byteLength (Piece.text (header names))) ⟨[], 0, false⟩
      (lines gap chars qs name)
    (Lexed.ofText text).errors = below.errors ∧ (Lexed.ofText text).tokens =
      Piece.place 0 (header names) ++
      (below.tokens ++ Layout.finish (Text.byteLength text) below.state) := by
  intro text below
  obtain ⟨hheader, hplace⟩ := through_header hnames
  have hlexed := Lexed.ofText_text (read_pieces hnames hname hkeyword hfit)
  rw [List.append_nil, pieces, Layout.through_append] at hlexed
  dsimp only at hlexed
  rw [hheader.state, hheader.errors, Nat.zero_add, hplace, List.append_assoc, List.nil_append]
    at hlexed
  have htext : text = Piece.text (header names ++ lines gap chars qs name) := rfl
  rw [htext, hlexed]
  exact ⟨rfl, rfl⟩

end

/-- A definition in a maker: a keyword and the pieces that hang off its line. -/
structure Spells (name : String) (chars : List Char) (qs : List Piece) : Prop where
  keyword : Piece.Fits ⟨margin, .keyword .def_, chars⟩ (Piece.text qs ++ ending name)
  fit : Piece.Fit qs (ending name)
  named : ∃ q more, qs = q :: more ∧ q.kind = .ident name
  hangs : Layout.Starts (4 < Layout.indentation ·) false 0 qs 0
  last : ∀ q ∈ qs.getLast?, q.kind ≠ .newline

theorem indentation_margin {more : List Char} (h : '\n' ∉ more) :
    Layout.indentation (margin ++ more) = Layout.width (margin ++ more) := by
  rw [Layout.indentation, Layout.lineHead_of_not_mem]
  rw [List.mem_append, not_or]
  exact ⟨by decide, h⟩

theorem length_le_width_margin (more : List Char) :
    4 + more.length ≤ Layout.width (margin ++ more) := by
  have hlength := Layout.length_le_width (margin ++ more)
  rwa [List.length_append] at hlength

/-- The lines of a definition in its maker are the same tokens side by side. -/
theorem exists_reindented {names : List String} (hnames : ∀ x ∈ names, Word.isName x = true)
    {name : String} {text done old chars behind : List Char} {span : Span} {k : Kind}
    {ps : List Piece} (h : Inset text span done old k chars ps behind)
    (herrors : (Lexed.ofText (Piece.text (header names) ++
      (Text.below 4 (Text.dedent (old ++ (chars ++ Piece.text ps))) ++ ending name))).errors = []) :
    ∃ (ρ : Reindent) (more chars' : List Char) (qs : List Piece), ρ.new = margin ∧
    old = ρ.old ++ more ∧
      Text.below 4 (Text.dedent (old ++ (chars ++ Piece.text ps))) ++ ending name =
        '\n' :: (margin ++ more ++ (chars' ++ (Piece.text qs ++ ending name))) ∧
      Piece.Fits ⟨margin ++ more, k, chars'⟩ (Piece.text qs ++ ending name) ∧
      Piece.Fit qs (ending name) ∧ ρ.Alongside false ps qs := by
  generalize hz : Text.below 4 (Text.dedent (old ++ (chars ++ Piece.text ps))) ++ ending name =
    z at herrors ⊢
  have hnewline : ∃ rest, z = '\n' :: rest := by
    rw [← hz]
    cases Text.dedent (old ++ (chars ++ Piece.text ps)) with
    | nil => exact ⟨_, rfl⟩
    | cons line lines => exact ⟨_, by rw [Text.below_cons]; rfl⟩
  have hscan : (Token.scan (Piece.text (header names) ++ z)).2 = [] :=
    (List.append_eq_nil_iff.1 herrors).1
  rw [Token.scan, show Token.errorLimit = 19 + 1 from rfl,
    Token.scanFrom_fit ((isLine_header hnames).fit z (.inr hnewline))] at hscan
  exact h.reindented ⟨_, rfl⟩ hz.symm hscan

/-- The words of the text of a maker are those of its header, those of the definition but for the
texts of strings, and those of the last line. -/
theorem words_of_inset {names : List String} (hnames : ∀ x ∈ names, Word.isName x = true)
    {name : String} (hname : Word.isName name = true) {text done old chars behind z : List Char}
    {span : Span} {k : Kind} {ps : List Piece} (h : Inset text span done old k chars ps behind)
    (hz : z = Piece.text (header names) ++
      (Text.below 4 (Text.dedent (old ++ (chars ++ Piece.text ps))) ++ ending name))
    (herrors : (Lexed.ofText z).errors = []) :
    ∃ ls, List.Forall₂ Kind.Akin (Token.words (k :: ps.map Piece.kind)) ls ∧
      Token.words ((Lexed.ofText z).tokens.map Token.kind) =
        (header names).map Piece.kind ++ (ls ++ [.keyword .return_, .ident name]) := by
  subst hz
  obtain ⟨ρ, more, chars', qs, -, -, hlines, hopening, hfit, halong⟩ :=
    exists_reindented hnames h herrors
  have hpieces : Piece.Fit (⟨margin ++ more, k, chars'⟩ :: qs) (ending name) := ⟨hopening, hfit⟩
  have hread := read_around hnames hname hpieces
  have htext : Piece.text (header names) ++
      (Text.below 4 (Text.dedent (old ++ (chars ++ Piece.text ps))) ++ ending name) =
        Piece.text (around names (⟨margin ++ more, k, chars'⟩ :: qs) name) := by
    simp [hlines, text_around, Piece.text]
  have hlexed := Lexed.ofText_text hread
  rw [List.append_nil, ← htext] at hlexed
  rw [hlexed] at herrors ⊢
  have hfinish (stop : Nat) (s : Layout.State) :
      Token.words ((Layout.finish stop s).map Token.kind) = [] := by
    rw [← Token.kinds_isInner, Layout.finish_isInner]
    rfl
  have hlast : (returnLine name).map Piece.kind = [.keyword .return_, .ident name] := by
    simp [returnLine, Piece.word, Word.kind_of_isName hname,
      show Word.kind "return" = .keyword .return_ from rfl]
  have hnewline (ks : List Kind) : Token.words (.newline :: ks) = Token.words ks :=
    List.filter_cons_of_neg (by decide)
  refine ⟨Token.words (k :: qs.map Piece.kind), ?_, ?_⟩
  · exact Token.akin_words (.cons (.refl k) halong.kinds)
  · -- The words are those of the pieces.
    rw [List.map_append, Token.words_append, hfinish, List.append_nil, ← Token.kinds_isInner,
      Layout.through_isInner (fun p hp => (hread.solid p hp).inner) (fun _ => rfl) herrors,
      Token.kinds_isInner, Piece.kinds_place, around, List.map_append, Token.words_append,
      Token.words_eq_self (inner_header hnames), List.map_cons, show (Piece.newline []).kind =
      .newline from rfl, hnewline, List.map_append, List.map_append, hlast, Token.words_append]
    rfl

/-- A definition that is indented anew is spelled in its maker. -/
theorem spells_of_site {names : List String} (hnames : ∀ x ∈ names, Word.isName x = true)
    {name : String} (hname : Word.isName name = true) {text done old chars behind : List Char}
    {span : Span} {ps : List Piece} (h : Site text span name done old chars ps behind)
    (herrors : (Lexed.ofText (Piece.text (header names) ++
      (Text.below 4 (Text.dedent (old ++ (chars ++ Piece.text ps))) ++ ending name))).errors = []) :
    ∃ chars' qs, Spells name chars' qs ∧
      Text.below 4 (Text.dedent (old ++ (chars ++ Piece.text ps))) ++ ending name =
        '\n' :: (margin ++ (chars' ++ (Piece.text qs ++ ending name))) := by
  obtain ⟨ρ, more, chars', qs, hnew, hold, hlines, hkeyword, hfit, halong⟩ :=
    exists_reindented hnames h.toInset herrors
  rw [hlines] at herrors ⊢
  have hmore : '\n' ∉ more := fun hmem =>
    absurd (h.blank '\n' (by rw [hold]; exact List.mem_append_right _ hmem)) (by decide)
  have hnil (hfour : Layout.indentation (margin ++ more) = 4) : more = [] := by
    have hlength := length_le_width_margin more
    rw [← indentation_margin hmore, hfour] at hlength
    exact List.length_eq_zero_iff.1 (by omega)
  -- A line that hangs off that of the keyword is indented more than it was.
  have hpos (gap' : List Char) (hgap' : ∃ gap, Layout.width old < Layout.indentation gap ∧
      ρ.Indents gap gap') : 0 < Layout.indentation gap' := by
    obtain ⟨gap, -, blanks, -, hblanks⟩ := hgap'
    rw [Layout.indentation, hblanks, hnew]
    exact Nat.lt_of_lt_of_le (by omega) (length_le_width_margin blanks)
  have hdeep (hfour : Layout.indentation (margin ++ more) = 4) (gap' : List Char)
      (hgap' : ∃ gap, Layout.width old < Layout.indentation gap ∧ ρ.Indents gap gap') :
      4 < Layout.indentation gap' := by
    obtain ⟨gap, hgap, blanks, hblanksOld, hblanks⟩ := hgap'
    have hlength := length_le_width_margin blanks
    rw [Layout.indentation, hblanksOld, hold, hnil hfour, List.append_nil] at hgap
    rw [Layout.indentation, hblanks, hnew]
    cases blanks with
    | nil =>
      rw [List.append_nil] at hgap
      exact absurd hgap (Nat.lt_irrefl _)
    | cons c blanks =>
      rw [List.length_cons] at hlength
      omega
  have hsolid := (read_pieces hnames hname hkeyword hfit).solid
  obtain ⟨hall, -⟩ := ofText_pieces hnames hname hkeyword hfit
  rw [text_pieces] at hall
  have herrors := hall.symm.trans herrors
  obtain ⟨hfour, -⟩ := Layout.through_maker (by
      rw [indentation_margin hmore]
      exact Nat.le_trans (Nat.le_add_right _ _) (length_le_width_margin more))
    (halong.starts h.hangs (by simp) fun gap gap' hgap hindents => ⟨gap, hgap, hindents⟩) hpos hdeep
    (fun q hq => (hsolid q (by simp [pieces, lines, hq])).inner) hname herrors 0
  obtain rfl := hnil hfour
  rw [List.append_nil] at hkeyword
  obtain ⟨p, ps', rfl, hp⟩ := h.named
  refine ⟨chars', qs, ⟨hkeyword, hfit, halong.named hp, halong.starts h.hangs (by simp)
    fun gap gap' hgap hindents => hdeep hfour gap' ⟨gap, hgap, hindents⟩, halong.last h.last⟩, ?_⟩
  rw [List.append_nil]

/-- Where the definition of a maker stands in its text. -/
def span (names : List String) (chars : List Char) (qs : List Piece) : Span :=
  let start := Text.byteLength (Piece.text (header names)) + 1 + Text.byteLength margin
  ⟨start, start + Text.byteLength chars + Text.byteLength (Piece.text qs)⟩

section

variable {names : List String} (hnodup : names.Nodup) (hnames : ∀ x ∈ names, Word.isName x = true)
  {name : String} (hname : Word.isName name = true) {chars : List Char} {qs : List Piece}
  (h : Spells name chars qs)

include hnames hname h in
/-- The tokens of a maker: those in front of the definition, its keyword, those that hang off its
line, and those of the last line. -/
theorem Spells.exists_tokens
    (herrors : (Lexed.ofText (Piece.text (pieces names margin chars qs name))).errors = []) :
    ∃ front used last stop, (Lexed.ofText (Piece.text (pieces names margin chars qs name))).tokens =
        front ++ ⟨.keyword .def_, ⟨(span names chars qs).start, stop⟩⟩ :: (used ++ last) ∧
      front.map Token.kind = (header names).map Piece.kind ++ [.newline, .indent] ∧
      Hung 0 false (used.map Token.kind) ∧
      ((used.filter Layout.isInner).map Token.kind).head? = some (.ident name) ∧
      Token.wordStop stop used = (span names chars qs).stop ∧
      last.map Token.kind = [.keyword .return_, .ident name, .newline, .dedent, .eof] := by
  have hsolid := (read_pieces hnames hname h.keyword h.fit).solid
  have hinner (q : Piece) (hq : q ∈ qs) : q.kind ≠ .newline → q.kind.Inner :=
    (hsolid q (by simp [pieces, lines, hq])).inner
  obtain ⟨hall, htokens⟩ := ofText_pieces hnames hname h.keyword h.fit
  have hfour : Layout.indentation margin = 4 := by decide
  obtain ⟨-, before, used, last, hlines, hbefore, hung, hused, hlast⟩ :=
    Layout.through_maker (Nat.le_of_eq hfour.symm) h.hangs (fun gap' =>
      Nat.lt_of_le_of_lt (Nat.zero_le 4)) (fun _ _ => id) hinner hname (hall.symm.trans herrors) _
  rw [hlines] at htokens
  obtain ⟨q, more, rfl, hq⟩ := h.named
  have hqInner (span : Span) : Layout.isInner ⟨q.kind, span⟩ = true := by
    rw [Layout.isInner, hq]
  refine ⟨Piece.place 0 (header names) ++ before, used, last,
    _, by rw [htokens, List.append_assoc]; rfl, ?_, hung, ?_, ?_, hlast⟩
  · rw [List.map_append, Piece.kinds_place, hbefore]
  · rw [hused, Piece.place, List.filter_cons, if_pos (hqInner _)]
    simp [hq]
  · have hstop := Piece.wordStop_place (List.cons_ne_nil q more)
      (fun p hp => hinner p (List.mem_of_getLast? hp) (h.last p hp))
    rw [Token.wordStop, hused]
    exact hstop _ _

include hnodup hnames in
/-- What is read from the tokens of a maker is its definition, and nothing is left behind it.  The
definition in it has been read from its keyword on. -/
theorem stmt_eq_ok_body {c c' : Cursor} {front used last : List Token} {start stop : Nat}
    {ss : List Stmt} (hlined : Token.Lined c.ahead)
    (hc : c.rest = front ++ ⟨.keyword .def_, ⟨start, stop⟩⟩ :: (used ++ last))
    (hfront : front.map Token.kind = (header names).map Piece.kind ++ [.newline, .indent])
    (hung : Hung 0 false (used.map Token.kind))
    (hused : ((used.filter Layout.isInner).map Token.kind).head? = some (.ident name))
    (hlast : last.map Token.kind = [.keyword .return_, .ident name, .newline, .dedent, .eof])
    (h : Parse.stmt c = .ok ss c') :
    c'.ahead = [.eof] ∧ ∃ makerSpan inner at_ spanName ps b, inner =
      ⟨start, Token.wordStop stop used⟩ ∧
      ss = [.define makerSpan SpecializeError.makerName [] (Param.plain Expr names)
        (body inner at_ spanName ⟨name, [], ps, b⟩)] ∧
      ∃ depth c₁ c₂, c₁.rest = ⟨.keyword .def_, ⟨start, stop⟩⟩ :: (used ++ last) ∧
        definition (stmtWithin depth) c₁ = .ok (.define inner name [] ps b) c₂ := by
  have hheader : c.ahead = .keyword .def_ :: .ident SpecializeError.makerName ::
      .symbol .openParen :: (Param.words names ++ .symbol .closeParen ::
        ([.symbol .colon] ++ .newline :: .indent :: (⟨.keyword .def_, ⟨start, stop⟩⟩ ::
          (used ++ last)).map Token.kind)) := by
    rw [Cursor.ahead, hc, List.map_append, hfront, kinds_header hnames]
    simp
  unfold Parse.stmt at h
  obtain ⟨_, _, hrounds, h⟩ := EStateM.bind_eq_ok.1 h
  cases hrounds
  obtain ⟨depth, s, -, rfl, hs⟩ := stmtWithin_eq_definition hheader h
  obtain ⟨c₁, hmoved, heq⟩ := definition_eq_header hnodup (by simp [Kind.Inner, Kind.Flat]) hheader
  rw [heq] at hs
  obtain ⟨b, c₂, hblock, hs⟩ := EStateM.bind_eq_ok.1 hs
  cases hs
  -- Behind the header there are the colon, the marks that open the block, and the tokens of the
  -- block.
  obtain ⟨ts, hts, htsKinds, -⟩ := hmoved.rest
  have hsplit : front.map Token.kind =
      ts.map Token.kind ++ [.symbol .colon, .newline, .indent] := by
    rw [hfront, kinds_header hnames, htsKinds]
    simp
  obtain ⟨front, opening, rfl, hfront', hopening⟩ := List.map_eq_append_iff.1 hsplit
  have hrest : c₁.rest = opening ++ ⟨.keyword .def_, ⟨start, stop⟩⟩ :: (used ++ last) := by
    rw [hc, List.append_assoc] at hts
    have hlength := congrArg List.length hfront'
    rw [List.length_map, List.length_map] at hlength
    exact (List.append_inj hts hlength).2.symm
  rw [hmoved.ahead] at hlined
  obtain ⟨hend, inner, at_, spanName, ps, b, hinner, rfl, hread⟩ :=
    block_maker hlined.of_append hung hrest hopening rfl hused hlast hblock
  exact ⟨hend, _, inner, at_, spanName, ps, b, hinner, rfl, hread⟩

include hnodup hnames hname h in
/-- What is read first from the text of a maker is its definition, and nothing is left behind it.
The definition in it has been read from the tokens behind the header. -/
theorem Spells.stmt_eq_ok
    (herrors : (Lexed.ofText (Piece.text (pieces names margin chars qs name))).errors = [])
    {c c' : Cursor} {ss : List Stmt}
    (hc : c.rest = (Lexed.ofText (Piece.text (pieces names margin chars qs name))).tokens)
    (hss : Parse.stmt c = .ok ss c') :
    c'.ahead = [.eof] ∧ ∃ makerSpan at_ spanName ps b,
      ss = [.define makerSpan SpecializeError.makerName [] (Param.plain Expr names)
        (body (span names chars qs) at_ spanName ⟨name, [], ps, b⟩)] ∧
      ∃ front depth c₁ c₂, c.rest = front ++ c₁.rest ∧
        front.map Token.kind = (header names).map Piece.kind ++ [.newline, .indent] ∧
        definition (stmtWithin depth) c₁ = .ok (.define (span names chars qs) name [] ps b) c₂ := by
  obtain ⟨front, used, last, stop, htokens, hfront, hung, hused, hstop, hlast⟩ :=
    h.exists_tokens hnames hname herrors
  have hlined : Token.Lined c.ahead := by
    rw [Cursor.ahead, hc]
    exact Lexed.lined_ofText herrors
  obtain ⟨hend, makerSpan, inner, at_, spanName, ps, b, hinner, rfl, depth, c₁, c₂, hc₁, hread⟩ :=
    stmt_eq_ok_body hnodup hnames hlined (hc.trans htokens) hfront hung hused hlast hss
  rw [hstop] at hinner
  subst hinner
  exact ⟨hend, makerSpan, at_, spanName, ps, b, rfl, front, depth, c₁, c₂, by rw [hc, htokens, hc₁],
    hfront, hread⟩

/-- The text of a maker starts with its keyword. -/
theorem tokens_start (hnames : ∀ x ∈ names, Word.isName x = true) (hname : Word.isName name = true)
    (h : Spells name chars qs) :
    ∃ ks, (Lexed.ofText (Piece.text (pieces names margin chars qs name))).tokens.map
      Token.kind = .keyword .def_ :: ks := by
  obtain ⟨-, htokens⟩ := ofText_pieces hnames hname h.keyword h.fit
  rw [htokens, List.map_append, Piece.kinds_place, kinds_header hnames]
  exact ⟨_, rfl⟩

include hnodup hnames hname h in
/-- A text with the pieces of a maker is the definition of a maker that defines a function.  This
has been read from the tokens behind the header. -/
theorem Spells.definesMaker {text label : String}
    (htext : text.toList = Piece.text (pieces names margin chars qs name)) {script : Script}
    (hscript : Script.parse text label = .ok script) : ∃ makerSpan at_ spanName ps b,
      script.DefinesMaker names makerSpan
        (body (span names chars qs) at_ spanName ⟨name, [], ps, b⟩) ∧
      ∃ front depth c c', (Lexed.ofText text.toList).tokens = front ++ c.rest ∧
        front.map Token.kind = (header names).map Piece.kind ++ [.newline, .indent] ∧
        definition (stmtWithin depth) c = .ok (.define (span names chars qs) name [] ps b) c' := by
  obtain ⟨herrors, hparsed, -⟩ := (Script.parse_eq_ok script).1 hscript
  rw [htext] at herrors hparsed ⊢
  obtain ⟨ks, hks⟩ := tokens_start hnames hname h
  obtain ⟨c, c', hc, hss⟩ := Parsed.stmt_of_ofTokens (Lexed.kind_getLast? _) rfl rfl hks hparsed
    fun c c' ss hc hss => (h.stmt_eq_ok hnodup hnames hname herrors hc hss).1
  obtain ⟨-, makerSpan, at_, spanName, ps, b, hbody, front, depth, c₁, c₂, hc₁, hfront, hread⟩ :=
    h.stmt_eq_ok hnodup hnames hname herrors hc hss
  exact ⟨makerSpan, at_, spanName, ps, b, hbody, front, depth, c₁, c₂, by rw [← hc, hc₁],
    hfront, hread⟩

end

end Maker

end StagedScript
