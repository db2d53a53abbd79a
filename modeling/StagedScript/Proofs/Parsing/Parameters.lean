import StagedScript.Proofs.Maker.Lines

/-!
# Parameters without defaults

Parameters without defaults are spelled by words that stand for nothing but themselves.  So they are
read alike wherever their words stand, whatever has become of the texts of strings around them.
-/

namespace StagedScript

open Parse
open Token (Kind)

variable {c c' d : Cursor} {before : List (Param Expr)}

/-- Whether a token may stand among parameters without defaults. -/
def Token.Kind.SpellsParams : Kind → Prop
  | .ident _ | .symbol .comma | .symbol .star | .symbol .power => True
  | _ => False

theorem Token.Kind.SpellsParams.inner {k : Kind} (h : k.SpellsParams) : k.Inner := by
  cases k <;> first | exact h.elim | simp [Kind.Inner, Kind.Flat]

/-- A parameter is new if it is read at all. -/
theorem Parse.unique_eq_ok {p q : Param Expr} {span : Span}
    (h : (if before.any (·.name == q.name) = true then
      (failAt span (.duplicateParam q.name) : Parse Unit) >>= fun _ => pure q else pure q) c =
      .ok p c') :
    p = q ∧ c' = c ∧ before.any (·.name == q.name) = false := by
  split at h
  · cases h
  · next hnew =>
    cases h
    exact ⟨rfl, rfl, Bool.not_eq_true _ ▸ hnew⟩

/-- A new parameter is read. -/
theorem Yields.newParam {q : Param Expr} (hnew : before.any (·.name == q.name) = false)
    {ks : List Kind} (hd : d.ahead = ks) {span : Span} :
    Yields (if before.any (·.name == q.name) = true then
      (failAt span (.duplicateParam q.name) : Parse Unit) >>= fun _ => Pure.pure q
        else Pure.pure q) d
        (· = q) ks := by
  rw [hnew, if_neg Bool.false_ne_true]
  exact .pure rfl hd

/-- A parameter without a default is read alike from its words wherever they stand. -/
theorem Parse.param_eq_ok {p : Param Expr} (h : param before c = .ok p c')
    (hp : p.default? = none) :
    ∃ k words, c.ahead = k :: words ++ c'.ahead ∧ (∀ l ∈ k :: words, l.SpellsParams) ∧
      ∀ (d : Cursor) (l : Kind) (ls : List Kind), d.ahead = k :: words ++ l :: ls →
        l.alike (.symbol .assign) = false → Yields (param before) d (· = p) (l :: ls) := by
  unfold param at h
  obtain ⟨_, _, hhere, h⟩ := EStateM.bind_eq_ok.1 h
  cases hhere
  split at h
  · cases h
  next hstarStar =>
  obtain ⟨b, c₁, hpower, h⟩ := EStateM.bind_eq_ok.1 h
  rcases accept_eq_ok (k := .symbol .power) trivial hpower with ⟨rfl, hk, rfl⟩ | ⟨rfl, rfl⟩
  · rw [if_pos rfl] at h
    obtain ⟨x, c₂, hname, h⟩ := EStateM.bind_eq_ok.1 h
    obtain ⟨hx, rfl⟩ := name_eq_ok hname
    obtain ⟨rfl, rfl, hnew⟩ := unique_eq_ok (q := ⟨x, .starStar⟩) h
    refine ⟨.symbol .power, [.ident x], ?_, by simp [Kind.SpellsParams], fun d l ls hd _ => ?_⟩
    · rw [Cursor.ahead_advance_of_kind hk (by simp), Cursor.ahead_advance_of_kind hx (by simp)]
      rfl
    · unfold param
      refine .here fun span => ?_
      rw [if_neg hstarStar]
      refine .accept hd rfl (by simp) fun d₁ hd₁ => ?_
      rw [if_pos rfl]
      exact .name hd₁ fun d₂ hd₂ => .newParam (q := ⟨x, .starStar⟩) hnew hd₂
  rw [if_neg Bool.false_ne_true] at h
  obtain ⟨b, c₁, hstar, h⟩ := EStateM.bind_eq_ok.1 h
  rcases accept_eq_ok (k := .symbol .star) trivial hstar with ⟨rfl, hk, rfl⟩ | ⟨rfl, rfl⟩
  · rw [if_pos rfl] at h
    split at h
    · cases h
    next hfirst =>
    obtain ⟨x, c₂, hname, h⟩ := EStateM.bind_eq_ok.1 h
    obtain ⟨hx, rfl⟩ := name_eq_ok hname
    obtain ⟨rfl, rfl, hnew⟩ := unique_eq_ok (q := ⟨x, .star⟩) h
    refine ⟨.symbol .star, [.ident x], ?_, by simp [Kind.SpellsParams], fun d l ls hd _ => ?_⟩
    · rw [Cursor.ahead_advance_of_kind hk (by simp), Cursor.ahead_advance_of_kind hx (by simp)]
      rfl
    · unfold param
      refine .here fun span => ?_
      rw [if_neg hstarStar]
      refine .reject hd rfl ?_
      rw [if_neg Bool.false_ne_true]
      refine .accept hd rfl (by simp) fun d₁ hd₁ => ?_
      rw [if_pos rfl, if_neg hfirst]
      exact .name hd₁ fun d₂ hd₂ => .newParam (q := ⟨x, .star⟩) hnew hd₂
  rw [if_neg Bool.false_ne_true] at h
  split at h
  · cases h
  next hplain =>
  obtain ⟨x, c₂, hname, h⟩ := EStateM.bind_eq_ok.1 h
  obtain ⟨hx, rfl⟩ := name_eq_ok hname
  obtain ⟨b, c₃, hassign, h⟩ := EStateM.bind_eq_ok.1 h
  rcases accept_eq_ok (k := .symbol .assign) trivial hassign with ⟨rfl, -, -⟩ | ⟨rfl, rfl⟩
  · -- What stands behind the sign is the default.
    rw [if_pos rfl] at h
    obtain ⟨e, c₄, -, h⟩ := EStateM.bind_eq_ok.1 h
    obtain ⟨rfl, -, -⟩ := unique_eq_ok (q := ⟨x, .plain (some e)⟩) h
    cases hp
  rw [if_neg Bool.false_ne_true] at h
  split at h
  · cases h
  next hnone =>
  obtain ⟨rfl, rfl, hnew⟩ := unique_eq_ok (q := ⟨x, .plain none⟩) h
  refine ⟨.ident x, [], ?_, by simp [Kind.SpellsParams], fun d l ls hd hl => ?_⟩
  · rw [Cursor.ahead_advance_of_kind hx (by simp)]
    rfl
  · unfold param
    refine .here fun span => ?_
    rw [if_neg hstarStar]
    refine .reject hd rfl ?_
    rw [if_neg Bool.false_ne_true]
    refine .reject hd rfl ?_
    rw [if_neg Bool.false_ne_true, if_neg hplain]
    refine .name hd fun d₁ hd₁ => .reject hd₁ hl ?_
    rw [if_neg Bool.false_ne_true, if_neg hnone]
    exact .newParam (q := ⟨x, .plain none⟩) hnew hd₁

/-- The parameters in front stay. -/
theorem Ensures.prefix_params (n : Nat) (before : List (Param Expr)) (c : Cursor) :
    Ensures (params n before) c fun ps _ => before <+: ps := by
  induction n generalizing before c with
  | zero => exact .pure (List.prefix_refl _)
  | succ n ih =>
    unfold params
    refine .last fun b c' => ?_
    split
    · exact .pure (List.prefix_refl _)
    · refine .last fun p c' => .last fun b c' => ?_
      split
      · exact (ih _ c').mono fun ps _ h => (List.prefix_append _ _).trans h
      · exact .pure (List.prefix_append _ _)

/-- In front of the bracket no more parameters are read. -/
theorem Yields.params_end {ks : List Kind} (hd : d.ahead = .symbol .closeParen :: ks) {m : Nat}
    (hm : 0 < m) : Yields (Parse.params m before) d (· = before) (.symbol .closeParen :: ks) := by
  obtain ⟨m, rfl⟩ : ∃ n, m = n + 1 := ⟨m - 1, by omega⟩
  unfold Parse.params
  refine .sees hd ?_
  rw [if_pos (by rfl)]
  exact .pure rfl hd

/-- Parameters without defaults are read alike from their words wherever they stand in front of a
bracket. -/
theorem Parse.params_eq_ok {n : Nat} {ps : List (Param Expr)} (h : params n before c = .ok ps c')
    (hps : ∀ p ∈ ps, p.default? = none) :
    ∃ words, c.ahead = words ++ c'.ahead ∧ (∀ l ∈ words, l.SpellsParams) ∧
      ∀ (d : Cursor) (m : Nat) (ls : List Kind), d.ahead = words ++ .symbol .closeParen :: ls →
        words.length < m → Yields (params m before) d (· = ps) (.symbol .closeParen :: ls) := by
  induction n generalizing before c with
  | zero =>
    cases h
    exact ⟨[], rfl, by simp, fun d m ls hd hm => .params_end hd hm⟩
  | succ n ih =>
    unfold params at h
    obtain ⟨_, _, hsees, h⟩ := EStateM.bind_eq_ok.1 h
    cases hsees
    split at h
    · cases h
      exact ⟨[], rfl, by simp, fun d m ls hd hm => .params_end hd hm⟩
    obtain ⟨p, c₁, hparam, h⟩ := EStateM.bind_eq_ok.1 h
    obtain ⟨b, c₂, hcomma, hrest⟩ := EStateM.bind_eq_ok.1 h
    have hp : p.default? = none := by
      refine hps p ?_
      split at hrest
      · exact (Ensures.prefix_params n _ _ ps c' hrest).subset (by simp)
      · cases hrest
        simp
    obtain ⟨k, words, hc, hwords, hread⟩ := param_eq_ok hparam hp
    have hk : k.alike (.symbol .closeParen) = false := by
      have hk := hwords k List.mem_cons_self
      cases hkind : k.alike (.symbol .closeParen) with
      | false => rfl
      | true =>
        rw [(Token.Kind.alike_iff (b := .symbol .closeParen) trivial).1 hkind] at hk
        exact hk.elim
    rcases accept_eq_ok (k := .symbol .comma) trivial hcomma with ⟨rfl, hkind, rfl⟩ | ⟨rfl, rfl⟩
    · -- Behind the comma there are further parameters, or none.
      rw [if_pos rfl] at hrest
      obtain ⟨more, hc₁, hmore, hreads⟩ := ih hrest
      refine ⟨k :: words ++ .symbol .comma :: more, ?_, ?_, fun d m ls hd hm => ?_⟩
      · rw [hc, Cursor.ahead_advance_of_kind hkind (by simp), hc₁]
        simp
      · exact List.forall_mem_append.2 ⟨hwords, List.forall_mem_cons.2 ⟨trivial, hmore⟩⟩
      · obtain ⟨m, rfl⟩ : ∃ n, m = n + 1 := ⟨m - 1, by omega⟩
        rw [List.append_assoc, List.cons_append] at hd
        rw [List.length_append, List.length_cons, List.length_cons] at hm
        unfold params
        refine .sees hd ?_
        rw [hk, if_neg Bool.false_ne_true]
        refine (hread d _ _ hd rfl).bind fun q d₁ hq hd₁ => ?_
        refine .accept hd₁ rfl (by simp) fun d₂ hd₂ => ?_
        rw [if_pos rfl, hq]
        exact hreads d₂ m ls hd₂ (by omega)
    · rw [if_neg Bool.false_ne_true] at hrest
      cases hrest
      refine ⟨k :: words, hc, hwords, fun d m ls hd hm => ?_⟩
      obtain ⟨m, rfl⟩ : ∃ n, m = n + 1 := ⟨m - 1, by omega⟩
      unfold params
      refine .sees hd ?_
      rw [hk, if_neg Bool.false_ne_true]
      refine (hread d _ ls hd rfl).bind fun q d₁ hq hd₁ => .reject hd₁ rfl ?_
      rw [if_neg Bool.false_ne_true, hq]
      exact .pure rfl hd₁

/-! ## Definitions with the same words -/

/-- Words without the texts of strings are the same words. -/
theorem Token.exists_of_akin {ks rest ls : List Kind} (h : List.Forall₂ Kind.Akin (ks ++ rest) ls)
    (hks : ∀ k ∈ ks, ∀ text, k ≠ .str text) :
    ∃ rest', ls = ks ++ rest' ∧ List.Forall₂ Kind.Akin rest rest' := by
  induction ks generalizing ls with
  | nil => exact ⟨ls, rfl, h⟩
  | cons k ks ih =>
    obtain ⟨hk, hks⟩ := List.forall_mem_cons.1 hks
    obtain ⟨l, ls, hkl, hls, rfl⟩ := List.forall₂_cons_left_iff.1 h
    obtain ⟨rest', rfl, hrest⟩ := ih hls hks
    exact ⟨rest', by rw [hkl.eq_of_ne_str hk]; rfl, hrest⟩

/-- Up to a token that is not among the first ones, the first ones are those of a line with the
token. -/
theorem Token.line_of_words {ks ls used left rest : List Kind} {k : Kind} (hk : k ∉ ks)
    (h : used ++ k :: left ++ rest = ks ++ k :: ls) :
    ∃ left', used ++ k :: left = ks ++ k :: left' := by
  rw [List.append_assoc, List.cons_append] at h
  rcases List.append_eq_append_iff.1 h with ⟨as, rfl, has⟩ | ⟨as, rfl, has⟩
  · cases as with
    | nil => exact ⟨left, by simp⟩
    | cons a as =>
      obtain ⟨rfl, -⟩ := List.cons.inj has
      exact absurd (by simp) hk
  · cases as with
    | nil => exact ⟨left, by simp⟩
    | cons a as =>
      obtain ⟨rfl, -⟩ := List.cons.inj has
      exact ⟨as ++ k :: left, by simp⟩

/-- What a definition whose parameters have no defaults is read from: its header, whose words spell
the parameters, and its block. -/
theorem Parse.header_of_definition {depth : Nat} {span : Span} {x : String} {ps : List (Param Expr)}
    {b : List Stmt} (h : definition (stmtWithin depth) c = .ok (.define span x [] ps b) c')
    (hps : ∀ p ∈ ps, p.default? = none) : ∃ names block,
      c.ahead = [.keyword .def_, .ident x, .symbol .openParen] ++ names ++
        .symbol .closeParen :: block ++ c'.ahead ∧
      (∀ l ∈ names, l.SpellsParams) ∧
      ∀ (d : Cursor) (m : Nat) (ls : List Kind), d.ahead = names ++ .symbol .closeParen :: ls →
        names.length < m → Yields (params m []) d (· = ps) (.symbol .closeParen :: ls) := by
  have hkind := (definition_start h).1.resolve_right fun h => h.1 rfl
  obtain ⟨_, _, _, c₁, c₂, hmoved, hparams, hclose, hblock, heq⟩ :=
    definition_eq_params (Cursor.ahead_advance_of_kind hkind (by simp)) h
  cases heq
  obtain ⟨names, hnames, hspells, hread⟩ := params_eq_ok hparams hps
  obtain ⟨block, hrest, -⟩ :=
    (consumes_block (consumes_stmtWithin depth) c₂.advance).reads _ _ hblock
  refine ⟨names, block, ?_, hspells, hread⟩
  rw [hmoved.ahead, hnames, Cursor.ahead_advance_of_kind hclose (by simp), hrest]
  simp

/-- Two definitions with the same words, but for the texts of strings, have the same parameters if
those of one have no defaults. -/
theorem Parse.params_eq_of_words {depth : Nat} {sub : Parse (List Stmt)} {span at_ : Span}
    {x y : String} {ps qs : List (Param Expr)} {a b : List Stmt} {d' : Cursor}
    (hc : definition (stmtWithin depth) c = .ok (.define span x [] ps a) c')
    (hps : ∀ p ∈ ps, p.default? = none) (hd : definition sub d = .ok (.define at_ y [] qs b) d')
    (hlined : Token.Lined d.ahead) {used ls more : List Kind} (hused : c.ahead = used ++ c'.ahead)
    (hakin : List.Forall₂ Kind.Akin (Token.words used) ls)
    (hwords : Token.words d.ahead = ls ++ more) :
    qs = ps := by
  obtain ⟨names, block, hahead, hspells, hread⟩ := header_of_definition hc hps
  obtain rfl := List.append_cancel_right (hused.symm.trans hahead)
  have hheader (k : Kind) (hk : k ∈ [.keyword .def_, .ident x, .symbol .openParen] ++ names) :
      k.Inner ∧ ∀ text, k ≠ .str text := by
    rcases List.mem_append.1 hk with hk | hk
    · simp only [List.mem_cons, List.not_mem_nil, or_false] at hk
      rcases hk with rfl | rfl | rfl <;> simp [Kind.Inner, Kind.Flat]
    · exact ⟨(hspells k hk).inner, fun text htext => by rw [htext] at hk; exact (hspells _ hk).elim⟩
  have hclosing (ks : List Kind) :
      Token.words (.symbol .closeParen :: ks) = .symbol .closeParen :: Token.words ks :=
    List.filter_cons_of_pos rfl
  rw [Token.words_append, Token.words_eq_self fun k hk => (hheader k hk).1, hclosing] at hakin
  obtain ⟨_, rfl, hbehind⟩ := Token.exists_of_akin hakin fun k hk => (hheader k hk).2
  obtain ⟨_, rest, hsame, -, rfl⟩ := List.forall₂_cons_left_iff.1 hbehind
  obtain rfl := hsame.eq_of_ne_str (by simp)
  -- The header of the second one is on a line, whose words go up to the bracket as well.
  have hkind := (definition_start hd).1.resolve_right fun h => h.1 rfl
  obtain ⟨_, _, _, d₁, d₂, hmoved, hparams, hclose, -, heq⟩ :=
    definition_eq_params (Cursor.ahead_advance_of_kind hkind (by simp)) hd
  cases heq
  have hfront : Token.words d₁.ahead = names ++ .symbol .closeParen :: (rest ++ more) := by
    rw [hmoved.ahead, Token.words_append, Token.words_eq_self (by simp [Kind.Inner, Kind.Flat])]
      at hwords
    simp only [List.cons_append, List.nil_append, List.append_assoc, List.cons.injEq] at hwords
    exact hwords.2.2.2
  obtain ⟨line, below, hline, hinner⟩ : ∃ line below,
      d₁.ahead = line ++ .newline :: below ∧ ∀ k ∈ line, k.Inner := by
    rw [hmoved.ahead] at hlined
    exact hlined.2.2.1 (by simp [Kind.Inner, Kind.Flat])
  obtain ⟨used, left, rfl, -, -⟩ := moved_of_params hinner hline hparams hclose
  rw [hline, Token.words_append, Token.words_eq_self hinner] at hfront
  obtain ⟨left', hnamed⟩ :=
    Token.line_of_words (fun hk => (hspells (.symbol .closeParen) hk).elim) hfront
  rw [hnamed, List.append_assoc, List.cons_append] at hline
  have hlength := d₁.length_ahead_le
  rw [hline, List.length_append, List.length_cons] at hlength
  obtain ⟨_, _, hagain, rfl, -⟩ := hread d₁ (d₁.bound + 1) _ hline (by omega)
  cases hagain.symm.trans hparams
  rfl

end StagedScript
