import StagedScript.Proofs.Parsing.Expressions
import StagedScript.Proofs.Reading.Lines
import StagedScript.Script.Basic

/-!
# Reading lines and blocks

A line is read as one statement, and the lines of an indented block as a statement each.
-/

namespace StagedScript

open Parse

section

variable {word : List Token.Kind} {P : Expr → Prop} {k : Token.Kind} {ks : List Token.Kind}
  {c : Cursor}

/-- How deeply an expression nests is bounded by the number of tokens. -/
theorem Yields.expr (h : ReadsWhole word P) (hk : k.Ends) (hc : c.ahead = word ++ k :: ks) :
    Yields Parse.expr c P (k :: ks) := by
  unfold Parse.expr exprAbove
  refine .rounds fun n hn => ?_
  rw [hc, List.length_append] at hn
  exact h n (by omega) c k ks hk hc

theorem Yields.exprs (h : ReadsWhole word P) (hk : k.Ends)
    (hcomma : k.alike (.symbol .comma) = false) (hc : c.ahead = word ++ k :: ks) :
    Yields Parse.exprs c P (k :: ks) := by
  unfold Parse.exprs exprList
  refine .here fun start => (Yields.expr h hk hc).bind fun e c' he hc' => ?_
  refine .sees hc' ?_
  rw [hcomma]
  exact .pure he hc'

end

/-! ## Lines -/

/-- The token starts a simple statement that is an expression or an assignment. -/
def Token.Kind.StartsExprStmt : Token.Kind → Prop
  | .str _ | .ident _ => True
  | _ => False

/-- The tokens are those of a line that is read as one statement with a property. -/
structure ReadsLine (word : List Token.Kind) (P : Stmt → Prop) : Prop where
  start : ∃ k ws, word = k :: ws ∧ k.StartsExprStmt
  read : ∀ (depth : Nat) (c : Cursor) (ks : List Token.Kind), c.ahead = word ++ .newline :: ks →
    Yields (stmtWithin (depth + 1)) c (fun ss => ∃ s, ss = [s] ∧ P s) ks

/-- A simple statement at the end of a line is all of the line. -/
theorem Yields.simpleLine {P : Stmt → Prop} {c : Cursor} {ks : List Token.Kind}
    (h : Yields simple c P (.newline :: ks)) :
    Yields Parse.simpleLine c (fun ss => ∃ s, ss = [s] ∧ P s) ks := by
  unfold Parse.simpleLine
  refine h.bind fun s c' hs hc' => .rounds fun n hn => ?_
  obtain ⟨n, rfl⟩ : ∃ m, n = m + 1 := ⟨n - 1, by omega⟩
  have hmore : Yields (moreSimple (n + 1)) c' (· = []) (.newline :: ks) := by
    unfold moreSimple
    exact .reject hc' rfl (.pure rfl hc')
  refine hmore.bind fun ss c'' hss hc'' => .expect hc'' rfl (by simp) fun c₃ hc₃ => ?_
  exact .pure ⟨s, by rw [hss], hs⟩ hc₃

/-- A line is a simple statement if it starts like one. -/
theorem ReadsLine.of_exprStmt {word : List Token.Kind} {P : Stmt → Prop}
    (hstart : ∃ k ws, word = k :: ws ∧ k.StartsExprStmt)
    (h : ∀ (start : Nat) (c : Cursor) (ks : List Token.Kind), c.ahead = word ++ .newline :: ks →
      Yields (exprStmt start) c P (.newline :: ks)) : ReadsLine word P := by
  refine ⟨hstart, fun depth c ks hc => ?_⟩
  obtain ⟨k, ws, rfl, hk⟩ := hstart
  have hsimple : Yields simple c P (.newline :: ks) := by
    unfold simple
    refine .get ?_
    dsimp only
    rw [Cursor.kind_of_ahead hc]
    cases k <;> first | exact hk.elim | exact h _ c ks hc
  have hline := Yields.simpleLine hsimple
  unfold stmtWithin
  refine .get ?_
  rw [Cursor.kind_of_ahead hc]
  cases k <;> first | exact hk.elim | exact hline

/-- A line with a string literal alone. -/
theorem ReadsLine.text (text : String) :
    ReadsLine [.str text] (fun s => ∃ span spanText, s = .expr span (.str spanText text)) := by
  refine .of_exprStmt ⟨_, _, rfl, trivial⟩ fun start c ks hc => ?_
  unfold exprStmt
  have hexpr := Yields.exprs (.of_expr (fun depth => ReadsExpr.str text (depth + 1)) (by simp))
    Token.Kind.Ends.newline rfl hc
  refine hexpr.bind fun e c' he hc' => ?_
  obtain ⟨spanText, rfl⟩ := he
  refine .sees hc' ?_
  rw [if_neg (by simp [Token.Kind.alike])]
  refine .kind hc' (.spanFrom _ fun span => ?_)
  exact .pure ⟨span, spanText, rfl⟩ hc'

/-- A line that binds one name. -/
theorem ReadsLine.binding (x : String) {word : List Token.Kind} {P : Expr → Prop}
    (h : ReadsWhole word P) :
    ReadsLine (.ident x :: .symbol .assign :: word)
      (fun s => ∃ span spanName e, s = .assign span [.name spanName x] e ∧ P e) := by
  refine .of_exprStmt ⟨_, _, rfl, trivial⟩ fun start c ks hc => ?_
  unfold exprStmt
  have htarget := Yields.exprs (.of_expr (fun depth => ReadsExpr.name x (depth + 1)) (by simp))
    Token.Kind.Ends.assign rfl hc
  refine htarget.bind fun e c' he hc' => ?_
  obtain ⟨spanName, rfl⟩ := he
  refine .sees hc' ?_
  rw [if_pos (by rfl)]
  refine .rounds fun n hn => ?_
  obtain ⟨n, rfl⟩ : ∃ m, n = m + 1 := ⟨n - 1, by omega⟩
  have hassigned : Yields (assigned (n + 1)) c' (fun r => ∃ e, r = ([], e) ∧ P e)
      (.newline :: ks) := by
    unfold assigned
    refine .advance hc' (by simp) fun c'' hc'' => ?_
    refine (Yields.exprs h Token.Kind.Ends.newline rfl hc'').bind fun e c₃ he hc₃ => ?_
    refine .sees hc₃ ?_
    rw [if_neg (by simp [Token.Kind.alike])]
    exact .pure ⟨e, rfl, he⟩ hc₃
  refine hassigned.bind fun r c'' hr hc'' => ?_
  obtain ⟨e, rfl, he⟩ := hr
  refine .bind (P := fun _ => True) (.pure trivial hc'') fun _ c₃ _ hc₃ => ?_
  exact .spanFrom _ fun span => .pure ⟨span, spanName, e, rfl, he⟩ hc₃

/-! ## Blocks -/

/-- The cursor stands at no newline. -/
theorem Cursor.skipNewlines_of_ahead {c : Cursor} {k : Token.Kind} {ks : List Token.Kind}
    (h : c.ahead = k :: ks) (hk : k.alike .newline = false) : c.skipNewlines = c := by
  unfold skipNewlines
  cases c.bound with
  | zero => rfl
  | succ n => rw [skipNewlinesFrom, sees_of_ahead h, hk, if_neg Bool.false_ne_true]

/-- The token may stand behind a statement: it is no empty line, and no statement goes on with
it. -/
structure Token.Kind.Follows (k : Token.Kind) : Prop where
  newline : k.alike .newline = false
  elif : k.alike (.keyword .elif_) = false
  else_ : k.alike (.keyword .else_) = false

/-- A statement may start with the token, also behind another one. -/
structure Token.Kind.Begins (k : Token.Kind) : Prop extends k.Follows where
  dedent : k.alike .dedent = false
  eof : k.alike .eof = false

theorem Token.Kind.Follows.dedent : Token.Kind.dedent.Follows := ⟨rfl, rfl, rfl⟩

theorem Token.Kind.Follows.eof : Token.Kind.eof.Follows := ⟨rfl, rfl, rfl⟩

/-- The tokens are read as one statement with a property, where it may nest more deeply than there
are tokens. -/
structure ReadsStmt (word : List Token.Kind) (P : Stmt → Prop) : Prop where
  begins : ∃ k ws, word = k :: ws ∧ k.Begins
  read : ∀ {depth : Nat} {c : Cursor} {k : Token.Kind} {ks : List Token.Kind}, word.length < depth →
    k.Follows → c.ahead = word ++ k :: ks →
    Yields (stmtWithin depth) c (fun ss => ∃ s, ss = [s] ∧ P s) (k :: ks)

theorem ReadsStmt.mono {word : List Token.Kind} {P Q : Stmt → Prop} (h : ReadsStmt word P)
    (hPQ : ∀ s, P s → Q s) : ReadsStmt word Q where
  begins := h.begins
  read hdepth hk hc := (h.read hdepth hk hc).mono fun _ hss =>
    let ⟨s, hs, hP⟩ := hss
    ⟨s, hs, hPQ s hP⟩

theorem ReadsLine.readsStmt {word : List Token.Kind} {P : Stmt → Prop} (h : ReadsLine word P) :
    ReadsStmt (word ++ [.newline]) P where
  begins := by
    obtain ⟨k, ws, rfl, hk⟩ := h.start
    refine ⟨k, _, rfl, ?_⟩
    cases k <;> first | exact hk.elim | exact ⟨⟨rfl, rfl, rfl⟩, rfl, rfl⟩
  read {depth c k ks} hdepth _ hc := by
    obtain ⟨depth, rfl⟩ : ∃ n, depth = n + 1 := ⟨depth - 1, by omega⟩
    exact h.read depth c _ (by rw [hc]; simp)

section

variable {words : List (List Token.Kind)} {Ps : List (Stmt → Prop)} {k : Token.Kind}
  {ks : List Token.Kind}

theorem ReadsStmt.follows (h : List.Forall₂ ReadsStmt words Ps) (hk : k.Follows)
    (ks : List Token.Kind) :
    ∃ l ls, words.flatten ++ k :: ks = l :: ls ∧ l.Follows := by
  cases h with
  | nil => exact ⟨k, ks, rfl, hk⟩
  | cons hword _ =>
    obtain ⟨l, ws, rfl, hl⟩ := hword.begins
    exact ⟨l, _, rfl, hl.toFollows⟩

theorem ReadsStmt.length_le (h : List.Forall₂ ReadsStmt words Ps) :
    words.length ≤ words.flatten.length := by
  induction h with
  | nil => exact Nat.le_refl _
  | cons hword _ ih =>
    obtain ⟨k, ws, rfl, -⟩ := hword.begins
    simp only [List.flatten_cons, List.length_append, List.length_cons]
    omega

/-- The statements of a block are read one after the other. -/
theorem Yields.blockBody (h : List.Forall₂ ReadsStmt words Ps) {depth n : Nat} {c : Cursor}
    (hdepth : words.flatten.length < depth) (hn : words.length < n)
    (hc : c.ahead = words.flatten ++ .dedent :: ks) :
    Yields (Parse.blockBody (stmtWithin depth) n) c
      (fun ss => List.Forall₂ (fun P s => P s) Ps ss) (.dedent :: ks) := by
  induction h generalizing c n with
  | nil =>
    obtain ⟨n, rfl⟩ : ∃ m, n = m + 1 := ⟨n - 1, by omega⟩
    unfold Parse.blockBody
    refine .get ?_
    rw [Cursor.sees_of_ahead hc]
    exact .pure .nil hc
  | @cons word P words Ps hword hwords ih =>
    obtain ⟨n, rfl⟩ : ∃ m, n = m + 1 := ⟨n - 1, by omega⟩
    rw [List.flatten_cons, List.length_append] at hdepth
    rw [List.flatten_cons, List.append_assoc] at hc
    obtain ⟨l, ls, hls, hl⟩ := ReadsStmt.follows hwords .dedent ks
    have hseen : (c.sees .dedent || c.atEnd) = false := by
      obtain ⟨k, ws, rfl, hk⟩ := hword.begins
      rw [Cursor.atEnd, Cursor.sees_of_ahead hc, Cursor.sees_of_ahead hc, hk.dedent, hk.eof]
      rfl
    unfold Parse.blockBody
    refine .get ?_
    rw [hseen, if_neg Bool.false_ne_true]
    rw [hls] at hc
    refine (hword.read (by omega) hl hc).bind fun ss c'' hss hc'' => ?_
    obtain ⟨s, rfl, hs⟩ := hss
    have hskip : c''.skipNewlines = c'' := Cursor.skipNewlines_of_ahead hc'' hl.newline
    change Yields (Parse.blockBody (stmtWithin depth) n >>= _) c''.skipNewlines _ _
    rw [hskip]
    have hrest := ih (n := n) (by omega) (by simpa using hn) (hc''.trans hls.symm)
    exact hrest.bind fun ss c₃ hss hc₃ => .pure (.cons hs hss) hc₃

/-- A block is read from its colon on. -/
theorem Yields.block (h : List.Forall₂ ReadsStmt words Ps) {depth : Nat} {c : Cursor}
    (hdepth : words.flatten.length < depth)
    (hc : c.ahead = .symbol .colon :: .newline :: .indent :: (words.flatten ++ .dedent :: ks)) :
    Yields (Parse.block (stmtWithin depth)) c
      (fun ss => List.Forall₂ (fun P s => P s) Ps ss) ks := by
  unfold Parse.block
  refine .expect hc rfl (by simp) fun c₁ hc₁ => .accept hc₁ rfl (by simp) fun c₂ hc₂ => ?_
  rw [if_pos rfl]
  refine .accept hc₂ rfl (by simp) fun c₃ hc₃ => ?_
  rw [if_pos rfl]
  refine .rounds fun n hn => ?_
  have hlen : words.length < n := by
    have hwords := ReadsStmt.length_le h
    rw [hc₃, List.length_append] at hn
    omega
  refine (Yields.blockBody h hdepth hlen hc₃).bind fun ss c₄ hss hc₄ => ?_
  exact .expect hc₄ rfl (by simp) fun c₅ hc₅ => .pure hss hc₅

/-- A definition that starts with no decorator has none. -/
theorem Yields.noDecorators {c : Cursor} (hc : c.ahead = k :: ks)
    (hk : k.alike (.symbol .atSign) = false) (n : Nat) :
    Yields (Parse.decorators n) c (· = []) (k :: ks) := by
  cases n with
  | zero => exact .pure rfl hc
  | succ n =>
    unfold Parse.decorators
    refine .reject hc hk ?_
    rw [if_neg Bool.false_ne_true]
    exact .pure rfl hc

/-- A class with a base that is a name. -/
theorem ReadsStmt.class_ (name base : String) (h : List.Forall₂ ReadsStmt words Ps) :
    ReadsStmt (.keyword .class_ :: .ident name :: .symbol .openParen :: .ident base ::
        .symbol .closeParen :: .symbol .colon :: .newline :: .indent ::
          (words.flatten ++ [.dedent]))
      (fun s => ∃ span spanBase body, s = .class_ span name (some (.name spanBase base)) body ∧
        List.Forall₂ (fun P s => P s) Ps body) where
  begins := ⟨_, _, rfl, ⟨rfl, rfl, rfl⟩, rfl, rfl⟩
  read {depth c k ks} hdepth _ hc := by
    obtain ⟨depth, rfl⟩ : ∃ n, depth = n + 1 := ⟨depth - 1, by omega⟩
    have hlength : words.flatten.length < depth := by
      simp only [List.length_append, List.length_cons] at hdepth
      omega
    have hahead : c.ahead = .keyword .class_ :: .ident name :: .symbol .openParen :: .ident base ::
        .symbol .closeParen :: .symbol .colon :: .newline :: .indent ::
          (words.flatten ++ .dedent :: k :: ks) := by
      rw [hc]
      simp
    have hdefinition : Yields (classDefinition (stmtWithin depth)) c (fun s => ∃ span spanBase body,
        s = .class_ span name (some (.name spanBase base)) body ∧
          List.Forall₂ (fun P s => P s) Ps body) (k :: ks) := by
      unfold classDefinition
      refine .here fun start => .expect hahead rfl (by simp) fun c₁ hc₁ => .name hc₁
        fun c₂ hc₂ => ?_
      refine .accept hc₂ rfl (by simp) fun c₃ hc₃ => ?_
      dsimp only
      rw [if_pos rfl]
      refine .sees hc₃ ?_
      rw [if_neg (by simp [Token.Kind.alike]), map_eq_pure_bind, bind_assoc]
      have hbase := Yields.expr (.of_expr (fun depth => ReadsExpr.name base (depth + 1)) (by simp))
        (Token.Kind.Ends.of_closes rfl) hc₃
      refine Yields.bind hbase fun e c₄ he hc₄ => ?_
      obtain ⟨spanBase, rfl⟩ := he
      rw [pure_bind]
      refine .expect hc₄ rfl (by simp) fun c₅ hc₅ => ?_
      rw [pure_bind]
      refine (Yields.block h hlength hc₅).bind fun body c₆ hbody hc₆ => .blockSpanFrom _
        fun span => ?_
      exact .pure ⟨span, spanBase, body, rfl, hbody⟩ hc₆
    unfold stmtWithin
    refine .get ?_
    rw [Cursor.kind_of_ahead hc]
    exact hdefinition.bind fun s c' hs hc' => .pure ⟨s, rfl, hs⟩ hc'

end

/-! ## Texts -/

theorem Cursor.rest_ofTokens {tokens : List Token}
    (hlast : ∀ t, tokens.getLast? = some t → t.kind = .eof) (hne : tokens ≠ []) :
    (Cursor.ofTokens tokens).rest = tokens := by
  unfold Cursor.ofTokens
  dsimp only
  split
  · rfl
  · next t hnot hlast' =>
    obtain ⟨kind, span⟩ := t
    obtain rfl : kind = .eof := hlast _ hlast'
    exact (hnot span rfl).elim
  · next hnone => exact absurd (List.getLast?_eq_none_iff.1 hnone) hne

theorem Cursor.ahead_of_rest {c : Cursor} {tokens : List Token} {ks : List Token.Kind}
    (hc : c.rest = tokens) (hks : tokens.map Token.kind = ks) : c.ahead = ks := by
  rw [ahead, hc, hks]

theorem Cursor.ahead_ofTokens {tokens : List Token}
    (hlast : ∀ t, tokens.getLast? = some t → t.kind = .eof) (hne : tokens ≠ []) :
    (Cursor.ofTokens tokens).ahead = tokens.map Token.kind := by
  rw [ahead, rest_ofTokens hlast hne]

section

variable {tokens : List Token} {k : Token.Kind} {ks : List Token.Kind}
  (hlast : ∀ t, tokens.getLast? = some t → t.kind = .eof) (hk : k.alike .newline = false)
  (heof : k.alike .eof = false) (htokens : tokens.map Token.kind = k :: ks)
include hlast hk heof htokens

/-- Tokens are read as statements from the first one on. -/
theorem Parsed.ofTokens_eq : ∃ c : Cursor, c.rest = tokens ∧
    Parsed.ofTokens tokens = match Parse.stmt c with
      | .ok ss c' =>
        let r := Parsed.ofCursor c.bound Parsed.errorLimit c'.skipNewlines
        ⟨ss ++ r.body, r.errors⟩
      | .error e c' =>
        let r := Parsed.ofCursor c.bound (Parsed.errorLimit - 1) c'.synchronize.skipNewlines
        ⟨r.body, e :: r.errors⟩ := by
  have hrest := Cursor.rest_ofTokens hlast (by rintro rfl; cases htokens)
  have hahead : (Cursor.ofTokens tokens).ahead = k :: ks := by
    rw [Cursor.ahead, hrest, htokens]
  refine ⟨Cursor.ofTokens tokens, hrest, ?_⟩
  unfold Parsed.ofTokens
  rw [Cursor.skipNewlines_of_ahead hahead hk, Parsed.ofCursor, Cursor.atEnd,
    Cursor.sees_of_ahead hahead, heof, if_neg Bool.false_ne_true]
  simp only [show ¬ errorLimit ≤ 1 by decide, if_false]
  rfl

omit hlast hk heof htokens in
theorem Parsed.ofCursor_of_eof {n room : Nat} {c : Cursor} (hc : c.ahead = [.eof]) :
    Parsed.ofCursor n room c.skipNewlines = ⟨[], []⟩ := by
  rw [Cursor.skipNewlines_of_ahead hc rfl]
  cases n with
  | zero => rfl
  | succ n => rw [Parsed.ofCursor, Cursor.atEnd, Cursor.sees_of_ahead hc, if_pos (by rfl)]

omit hlast hk heof htokens in
/-- A text without statements is empty. -/
theorem Parsed.ofTokens_of_eof {tokens : List Token} (h : tokens.map Token.kind = [.eof]) :
    Parsed.ofTokens tokens = ⟨[], []⟩ := by
  obtain ⟨t, rfl, ht⟩ := List.map_eq_singleton_iff.1 h
  have hlast (u : Token) (hu : [t].getLast? = some u) : u.kind = .eof := by
    cases hu
    exact ht
  refine ofCursor_of_eof ?_
  rw [Cursor.ahead_ofTokens hlast (by simp), h]

/-- The statements of a text without errors start with what is read first. -/
theorem Parsed.first_of_ofTokens {body : List Stmt} (hbody : Parsed.ofTokens tokens = ⟨body, []⟩) :
    ∃ (c c' : Cursor) (ss : List Stmt), c.rest = tokens ∧ Parse.stmt c = .ok ss c' ∧
      body = ss ++ (Parsed.ofCursor c.bound Parsed.errorLimit c'.skipNewlines).body := by
  obtain ⟨c, hc, htokens⟩ := ofTokens_eq hlast hk heof htokens
  rw [hbody] at htokens
  cases hstmt : Parse.stmt c with
  | ok ss c' =>
    rw [hstmt] at htokens
    exact ⟨c, c', ss, hc, hstmt, congrArg Parsed.body htokens⟩
  | error e c' =>
    rw [hstmt] at htokens
    cases congrArg Parsed.errors htokens

/-- If a statement takes all tokens of a text without errors, it is all of the text. -/
theorem Parsed.stmt_of_ofTokens {body : List Stmt} (hbody : Parsed.ofTokens tokens = ⟨body, []⟩)
    (hends : ∀ (c c' : Cursor) ss, c.rest = tokens → Parse.stmt c = .ok ss c' → c'.ahead = [.eof]) :
    ∃ c c' : Cursor, c.rest = tokens ∧ Parse.stmt c = .ok body c' := by
  obtain ⟨c, c', ss, hc, hstmt, rfl⟩ := first_of_ofTokens hlast hk heof htokens hbody
  refine ⟨c, c', hc, hstmt.trans ?_⟩
  rw [ofCursor_of_eof (hends c c' ss hc hstmt), List.append_nil]

end

section

variable {words : List (List Token.Kind)} {Ps : List (Stmt → Prop)}

/-- Statements in front of others are read one after the other. -/
theorem Parsed.ofCursor_append (h : List.Forall₂ ReadsStmt words Ps) (n room : Nat) {c : Cursor}
    {k : Token.Kind} {ks : List Token.Kind} (hk : k.Follows)
    (hc : c.ahead = words.flatten ++ k :: ks) :
    ∃ body c', c'.ahead = k :: ks ∧ List.Forall₂ (fun P s => P s) Ps body ∧
      Parsed.ofCursor (words.length + n) room c =
        ⟨body ++ (Parsed.ofCursor n room c').body, (Parsed.ofCursor n room c').errors⟩ := by
  induction h generalizing c with
  | nil => exact ⟨[], c, hc, .nil, by rw [List.length_nil, Nat.zero_add, List.nil_append]⟩
  | @cons word P words Ps hword hwords ih =>
    rw [List.flatten_cons, List.append_assoc] at hc
    obtain ⟨l, ls, hls, hl⟩ := ReadsStmt.follows hwords hk ks
    have hend : c.atEnd = false := by
      obtain ⟨k, ws, rfl, hk⟩ := hword.begins
      rw [Cursor.atEnd, Cursor.sees_of_ahead hc, hk.eof]
    rw [hls] at hc
    have hstmt : Yields Parse.stmt c (fun ss => ∃ s, ss = [s] ∧ P s) (l :: ls) := by
      refine .rounds fun depth hdepth => hword.read ?_ hl hc
      rw [hc, List.length_append] at hdepth
      omega
    obtain ⟨ss, c₁, hc₁, ⟨s, rfl, hs⟩, hahead⟩ := hstmt
    obtain ⟨body, c', hc', hPs, hbody⟩ := ih (hahead.trans hls.symm)
    refine ⟨s :: body, c', hc', .cons hs hPs, ?_⟩
    rw [List.length_cons, Nat.succ_add, ofCursor, hend, if_neg Bool.false_ne_true, EStateM.run, hc₁]
    dsimp only
    rw [Cursor.skipNewlines_of_ahead hahead hl.newline, hbody]
    rfl

/-- Statements up to the end of a text are read one after the other. -/
theorem Parsed.ofCursor_of_stmts (h : List.Forall₂ ReadsStmt words Ps) {n : Nat} (room : Nat)
    {c : Cursor} (hn : words.length < n) (hc : c.ahead = words.flatten ++ [.eof]) :
    ∃ body, Parsed.ofCursor n room c = ⟨body, []⟩ ∧ List.Forall₂ (fun P s => P s) Ps body := by
  obtain ⟨n, rfl⟩ : ∃ m, n = words.length + (m + 1) := ⟨n - words.length - 1, by omega⟩
  obtain ⟨body, c', hc', hPs, hbody⟩ := ofCursor_append h (n + 1) room .eof hc
  have hend : ofCursor (n + 1) room c' = ⟨[], []⟩ := by
    rw [ofCursor, Cursor.atEnd, Cursor.sees_of_ahead hc', if_pos (by rfl)]
  rw [hbody, hend, List.append_nil]
  exact ⟨body, rfl, hPs⟩

theorem Parsed.ofTokens_of_stmts (h : List.Forall₂ ReadsStmt words Ps) {tokens : List Token}
    (hlast : ∀ t, tokens.getLast? = some t → t.kind = .eof)
    (htokens : tokens.map Token.kind = words.flatten ++ [.eof]) :
    ∃ body, Parsed.ofTokens tokens = ⟨body, []⟩ ∧ List.Forall₂ (fun P s => P s) Ps body := by
  have hahead : (Cursor.ofTokens tokens).ahead = words.flatten ++ [.eof] := by
    rw [Cursor.ahead_ofTokens hlast (by rintro rfl; simp at htokens), htokens]
  obtain ⟨l, ls, hls, hl⟩ := ReadsStmt.follows h .eof []
  have hskip := Cursor.skipNewlines_of_ahead (hahead.trans hls) hl.newline
  have hlength : words.length < (Cursor.ofTokens tokens).bound + 1 := by
    have hwords := ReadsStmt.length_le h
    have hbound := (Cursor.ofTokens tokens).length_ahead_le
    rw [hahead, List.length_append] at hbound
    omega
  unfold ofTokens
  dsimp only
  rw [hskip]
  exact ofCursor_of_stmts h _ hlength hahead

end

/-- A text is a script if it has errors neither as tokens nor as statements. -/
theorem Script.parse_eq_ok {text label : String} (script : Script) :
    parse text label = .ok script ↔ (Lexed.ofText text.toList).errors = [] ∧
      Parsed.ofTokens (Lexed.ofText text.toList).tokens = ⟨script.body, []⟩ ∧
      script = ⟨script.body, ⟨label, text⟩, 0⟩ := by
  unfold parse
  simp only [Source.chars]
  generalize Lexed.ofText text.toList = lexed
  cases herrors : lexed.errors with
  | cons e es => simp
  | nil =>
    dsimp only
    generalize Parsed.ofTokens lexed.tokens = parsed
    obtain ⟨body, errors⟩ := parsed
    cases errors with
    | cons e es => simp
    | nil =>
      simp only [Except.ok.injEq, true_and, Parsed.mk.injEq, and_true]
      constructor
      · rintro rfl
        exact ⟨rfl, rfl⟩
      · rintro ⟨rfl, h⟩
        exact h.symm

/-- A text of one line is a script of the statement that its tokens are read as. -/
theorem Script.parse_line {line : List Piece} (hline : Piece.IsLine [] line) {P : Stmt → Prop}
    (hread : ReadsStmt (line.map Piece.kind ++ [.newline]) P) {text : String}
    (htext : text.toList = Piece.text line) (label : String) :
    ∃ s, Script.parse text label = .ok ⟨[s], ⟨label, text⟩, 0⟩ ∧ P s := by
  obtain ⟨herrors, hkinds⟩ := Lexed.ofText_line hline
  rw [← htext] at herrors hkinds
  obtain ⟨body, hbody, hstmts⟩ := Parsed.ofTokens_of_stmts (.cons hread .nil)
    (Lexed.kind_getLast? _) (hkinds.trans (by simp))
  obtain ⟨s, more, hs, hmore, rfl⟩ := List.forall₂_cons_left_iff.1 hstmts
  cases hmore
  exact ⟨s, (parse_eq_ok _).2 ⟨herrors, hbody, rfl⟩, hs⟩

end StagedScript
