import StagedScript.Proofs.Data.Showing
import StagedScript.Proofs.Parsing.Grouping
import StagedScript.Proofs.Reading.Lists

/-!
# Writing plain data

The text of plain data is made of the tokens of the expression that makes it.
-/

namespace StagedScript

namespace Datum

/-! ## The expression -/

mutual

/-- The expression that makes plain data. -/
def expr : Datum → Expr
  | none_ => .none_ .nowhere
  | bool b => .bool .nowhere b
  | int n =>
    if n.toInt < 0 then .unary .nowhere .neg (.int .nowhere (Int64.ofNat n.toInt.natAbs))
    else .int .nowhere (Int64.ofNat n.toInt.natAbs)
  | text t => .str .nowhere t
  | tuple ds => .tuple .nowhere (exprs ds)
  | list ds => .list .nowhere (exprs ds)
  | dict es => .dict .nowhere (entryExprs es)

/-- The expressions that make several data. -/
def exprs : List Datum → List Expr
  | [] => []
  | d :: ds => d.expr :: exprs ds

/-- The expressions that make the entries of a dict. -/
def entryExprs : List (String × Datum) → List (Expr × Expr)
  | [] => []
  | (k, d) :: es => (.str .nowhere k, d.expr) :: entryExprs es

end

theorem exprs_eq (ds : List Datum) : exprs ds = ds.map expr := by
  induction ds with
  | nil => rfl
  | cons d ds ih => rw [exprs, ih, List.map_cons]

theorem entryExprs_eq (es : List (String × Datum)) :
    entryExprs es = es.map fun e => (.str .nowhere e.1, e.2.expr) := by
  induction es with
  | nil => rfl
  | cons e es ih => rw [entryExprs, ih, List.map_cons]

/-- The expression says nothing about where it stands. -/
theorem bare_expr (d : Datum) : d.expr.bare = d.expr := by
  have hall {ds : List Datum} (ih : ∀ d ∈ ds, d.expr.bare = d.expr) :
      Expr.mapSpans (fun _ => .nowhere) (exprs ds) = exprs ds := by
    induction ds with
    | nil => rfl
    | cons d ds ihs =>
      exact congrArg₂ List.cons (ih d (by simp)) (ihs fun d hd => ih d (by simp [hd]))
  induction d with
  | int n =>
    unfold expr
    split <;> rfl
  | tuple ds ih => exact congrArg (Expr.tuple .nowhere) (hall ih)
  | list ds ih => exact congrArg (Expr.list .nowhere) (hall ih)
  | dict es ih =>
    refine congrArg (Expr.dict .nowhere) ?_
    induction es with
    | nil => rfl
    | cons e es ihs =>
      exact congrArg₂ List.cons (Prod.ext rfl (ih e (by simp)))
        (ihs fun e he => ih e (by simp [he]))
  | _ => rfl

/-! ## The pieces -/

mutual

/-- The pieces of the text of plain data. -/
def pieces : Datum → List Char → List Piece
  | none_, gap => [Piece.word gap "None"]
  | bool b, gap => [Piece.word gap (if b then "True" else "False")]
  | int n, gap =>
    if n.toInt < 0 then [Piece.symbol gap .minus, Piece.number [] n.toInt.natAbs]
    else [Piece.number gap n.toInt.natAbs]
  | text t, gap => [Piece.literal gap t]
  | tuple ds, gap => Piece.tuple gap (fun gap p => p gap) (itemPieces ds)
  | list ds, gap => Piece.symbol gap .openBracket ::
    (Piece.list (fun gap p => p gap) (itemPieces ds) ++ [Piece.symbol [] .closeBracket])
  | dict es, gap => Piece.symbol gap .openBrace ::
    (Piece.list (fun gap p => p gap) (entryPieces es) ++ [Piece.symbol [] .closeBrace])

/-- The pieces of the texts of several data, each behind what is skipped. -/
def itemPieces : List Datum → List (List Char → List Piece)
  | [] => []
  | d :: ds => d.pieces :: itemPieces ds

/-- The pieces of the texts of the entries of a dict, each behind what is skipped. -/
def entryPieces : List (String × Datum) → List (List Char → List Piece)
  | [] => []
  | (k, d) :: es =>
    (fun gap => Piece.literal gap k :: Piece.symbol [] .colon :: d.pieces [' ']) :: entryPieces es

end

attribute [local simp] pieces

/-- The pieces of the text of an entry. -/
def entry (gap : List Char) (e : String × Datum) : List Piece :=
  Piece.literal gap e.1 :: Piece.symbol [] .colon :: e.2.pieces [' ']

theorem itemPieces_eq (ds : List Datum) : itemPieces ds = ds.map pieces := by
  induction ds with
  | nil => rfl
  | cons d ds ih => rw [itemPieces, ih, List.map_cons]

theorem entryPieces_eq (es : List (String × Datum)) :
    entryPieces es = es.map fun e gap => entry gap e := by
  induction es with
  | nil => rfl
  | cons e es ih => rw [entryPieces, ih, List.map_cons]; rfl

variable (gap : List Char)

theorem pieces_tuple (ds : List Datum) :
    (tuple ds).pieces gap = Piece.tuple gap (fun gap d => d.pieces gap) ds := by
  rw [pieces, itemPieces_eq, Piece.tuple_map]

theorem pieces_list (ds : List Datum) : (list ds).pieces gap = Piece.symbol gap .openBracket ::
    (Piece.list (fun gap d => d.pieces gap) ds ++ [Piece.symbol [] .closeBracket]) := by
  rw [pieces, itemPieces_eq, Piece.list_map]

theorem pieces_dict (es : List (String × Datum)) : (dict es).pieces gap =
    Piece.symbol gap .openBrace :: (Piece.list entry es ++ [Piece.symbol [] .closeBrace]) := by
  rw [pieces, entryPieces_eq, Piece.list_map]

/-! ## The text -/

theorem text_int (n : Int64) :
    Piece.text ((int n).pieces gap) = gap ++ (toString n.toInt).toList := by
  unfold pieces
  split
  · next hn =>
    obtain ⟨m, hm⟩ : ∃ m : Nat, n.toInt = Int.negSucc m := Int.eq_negSucc_of_lt_zero hn
    rw [hm]
    simp [Piece.text, Piece.symbol, Piece.number, Symbol.chars, toString, Int.repr, Nat.repr]
  · next hn =>
    obtain ⟨m, hm⟩ : ∃ m : Nat, n.toInt = m := Int.eq_ofNat_of_zero_le (by omega)
    rw [hm]
    simp [Piece.text, Piece.number, toString, Int.repr, Nat.repr]

/-- The pieces make the text. -/
theorem text_pieces (d : Datum) : Piece.text (d.pieces gap) = gap ++ d.repr.toList := by
  induction d generalizing gap with
  | none_ => simp [Piece.text, Piece.word, repr]
  | bool b => simp [Piece.text, Piece.word, repr]
  | int n => exact text_int gap n
  | text t => exact Piece.text_literal gap t
  | tuple ds ih =>
    rw [pieces_tuple, repr, reprs_eq]
    exact Piece.text_tuple (fun gap d hd => ih d hd gap) gap
  | list ds ih =>
    have hitem (gap : List Char) (d : Datum) (hd : d ∈ ds) :
        Piece.text (d.pieces gap) = gap ++ d.repr.toList := ih d hd gap
    have hlist := Piece.text_list hitem
    rw [pieces_list, repr, reprs_eq, Piece.text, Piece.text_append, hlist]
    simp [Piece.text, Piece.symbol, Symbol.chars]
  | dict es ih =>
    have hentry (gap : List Char) (e : String × Datum) (he : e ∈ es) : Piece.text (entry gap e) =
        gap ++ (strLiteral e.1 ++ ": " ++ e.2.repr).toList := by
      have hkey := Piece.text_literal gap e.1
      simp only [Piece.text, List.append_nil] at hkey
      rw [entry, Piece.text, Piece.text, ih e he, ← List.append_assoc, hkey]
      simp [Piece.symbol, Symbol.chars]
    have hlist := Piece.text_list hentry
    rw [pieces_dict, repr, entryReprs_eq, Piece.text, Piece.text_append, hlist]
    simp [Piece.text, Piece.symbol, Symbol.chars]

/-! ## The tokens -/

/-- The pieces are the tokens of the expression. -/
theorem kinds_pieces (d : Datum) :
    (d.pieces gap).map Piece.kind = d.expr.written fun _ => false := by
  induction d generalizing gap with
  | none_ => rfl
  | bool b => cases b <;> rfl
  | int n =>
    unfold pieces expr
    split <;> rfl
  | text t => rfl
  | tuple ds ih =>
    rw [pieces_tuple, expr, exprs_eq, Expr.written, Expr.writtenItems_eq, List.map_map,
      tupleWord_map]
    exact Piece.kinds_tuple (fun gap d hd => ih d hd gap) gap
  | list ds ih =>
    have hlist := Piece.kinds_list fun gap d hd => ih d hd gap
    rw [pieces_list, expr, exprs_eq, Expr.written, Expr.writtenItems_eq, List.map_map,
      withCommas_map, List.map_cons, List.map_append, hlist]
    rfl
  | dict es ih =>
    have hentry (gap : List Char) (e : String × Datum) (he : e ∈ es) :
        (entry gap e).map Piece.kind =
        Expr.entry (fun _ => false) (.str .nowhere e.1, e.2.expr) := by
      rw [entry, List.map_cons, List.map_cons, ih e he]
      rfl
    have hlist := Piece.kinds_list hentry
    rw [pieces_dict, expr, entryExprs_eq, Expr.written, Expr.writtenEntries_eq, List.map_map,
      withCommas_map, List.map_cons, List.map_append, hlist]
    rfl

/-! ## The layout -/

theorem inside_pieces (d : Datum) (n : Nat) : Layout.Inside n (d.pieces gap) n := by
  induction d generalizing gap n with
  | none_ => exact .word gap _
  | bool b => exact .word gap _
  | int i =>
    unfold pieces
    split
    · have hminus : Layout.Inside n [Piece.symbol gap .minus] n := .symbol _ ⟨rfl, rfl⟩
      exact hminus.append (.number _ _)
    · exact .number _ _
  | text t => exact .quoted _ _ _ t
  | tuple ds ih =>
    rw [pieces_tuple]
    exact .tuple gap fun gap d hd => ih d hd gap (n + 1)
  | list ds ih =>
    rw [pieces_list]
    exact .brackets rfl rfl (.list fun gap d hd => ih d hd gap (n + 1))
  | dict es ih =>
    rw [pieces_dict]
    refine .brackets rfl rfl (.list fun gap e he => ?_)
    have hkey : Layout.Inside (n + 1) [Piece.literal gap e.1] (n + 1) := .quoted _ _ _ _
    have hcolon : Layout.Inside (n + 1) [Piece.symbol [] .colon] (n + 1) := .symbol _ ⟨rfl, rfl⟩
    exact hkey.append (hcolon.append (ih e he [' '] (n + 1)))

/-! ## Reading -/

/-- The characters that the text of plain data does not end in front of. -/
def goesOn (c : Char) : Bool :=
  Word.isPart c || Piece.continuesNumber c || (c == '\'' || c == '"')

variable {gap} {rest : List Char}

/-- The integers that have a literal are those whose negation is an integer. -/
theorem fits_natAbs {n : Int64} (hn : n ≠ Int64.minValue) : fits n.toInt.natAbs = true := by
  have hle := n.le_toInt
  have hlt := n.toInt_lt
  have hne : n.toInt ≠ -9223372036854775808 := fun h => hn (Int64.toInt_inj.1 h)
  rw [fits_iff]
  omega

/-- A sign in front of a number stands alone. -/
theorem minus_atStart? (m : Nat) (rest : List Char) :
    Symbol.atStart? ('-' :: (Nat.toDigits 10 m ++ rest)) = some .minus := by
  obtain ⟨c, cs, hcs⟩ := List.exists_cons_of_ne_nil (Nat.toDigits_ne_nil (b := 10) (n := m))
  have hdigit : c.isDigit = true :=
    Nat.isDigit_of_mem_toDigits (n := m) (b := 10) (by decide) (by decide) (by simp [hcs])
  have hc : c ≠ '=' := by
    rintro rfl
    cases hdigit
  rw [hcs]
  simp [Symbol.atStart?, Symbol.all, Symbol.chars, List.isPrefixOf, Ne.symm hc]

/-- The pieces of data that can be written are what is read in front of a text that does not go on
with its last one. -/
theorem fit_pieces {d : Datum} (hd : d.Writable) (hgap : ∀ c ∈ gap, Lexeme.isBlank c = true)
    (hrest : Without goesOn rest) : Piece.Fit (d.pieces gap) rest := by
  -- Words, numbers and literals each go on with characters of their own, and nothing else does.
  have hword (rest : List Char) (h : Without goesOn rest) : Without Word.isPart rest := fun c hc =>
    (Bool.or_eq_false_iff.1 (Bool.or_eq_false_iff.1 (h c hc)).1).1
  have hnumber (rest : List Char) (h : Without goesOn rest) : Without Piece.continuesNumber rest :=
    fun c hc => (Bool.or_eq_false_iff.1 (Bool.or_eq_false_iff.1 (h c hc)).1).2
  have hquote (rest : List Char) (h : Without goesOn rest) :
      Without (fun c => c == '\'' || c == '"') rest :=
    fun c hc => (Bool.or_eq_false_iff.1 (h c hc)).2
  induction d generalizing gap rest with
  | none_ => exact ⟨Piece.fits_word rfl hgap (hword _ hrest), trivial⟩
  | bool b => exact ⟨Piece.fits_word (by cases b <;> rfl) hgap (hword _ hrest), trivial⟩
  | int n =>
    cases hd with
    | int hn =>
    unfold pieces
    split
    · have hfit : (Piece.number [] n.toInt.natAbs).Fits rest :=
        Piece.fits_number (fits_natAbs hn) Piece.blanks_none (hnumber _ hrest)
      have hminus := minus_atStart? n.toInt.natAbs rest
      rw [← List.append_nil (Nat.toDigits 10 n.toInt.natAbs)] at hminus
      exact ⟨Piece.fits_symbol hgap hminus, hfit, trivial⟩
    · exact ⟨Piece.fits_number (fits_natAbs hn) hgap (hnumber _ hrest), trivial⟩
  | text t => exact ⟨Piece.fits_literal t (hquote _ hrest) hgap, trivial⟩
  | tuple ds ih =>
    cases hd with
    | tuple hds =>
    rw [pieces_tuple]
    exact Piece.fit_tuple (p := goesOn) rfl (fun d hd _ _ => ih d hd (hds d hd)) rfl hgap
  | list ds ih =>
    cases hd with
    | list hds =>
    have hend : Piece.Fit [Piece.symbol [] .closeBracket] rest :=
      ⟨Piece.fits_symbol Piece.blanks_none rfl, trivial⟩
    -- The items go on neither with the comma between them nor with the bracket behind them.
    have hlist : Piece.Fit (Piece.list (fun gap d => d.pieces gap) ds) (']' :: rest) :=
      Piece.fit_list (p := goesOn) rfl (fun d hd _ _ => ih d hd (hds d hd)) (.cons rfl)
    rw [pieces_list]
    exact ⟨Piece.fits_symbol hgap rfl, hlist.append hend⟩
  | dict es ih =>
    cases hd with
    | dict _ hes =>
    have hentry (e : String × Datum) (he : e ∈ es) (gap rest : List Char)
        (hgap : ∀ c ∈ gap, Lexeme.isBlank c = true) (hrest : Without goesOn rest) :
        Piece.Fit (entry gap e) rest := by
      have hvalue := ih e he (hes e he) Piece.blanks_one hrest
      exact ⟨Piece.fits_literal e.1 (.cons rfl) hgap, Piece.fits_symbol Piece.blanks_none rfl,
        hvalue⟩
    have hend : Piece.Fit [Piece.symbol [] .closeBrace] rest :=
      ⟨Piece.fits_symbol Piece.blanks_none rfl, trivial⟩
    have hlist : Piece.Fit (Piece.list entry es) ('\x7d' :: rest) :=
      Piece.fit_list (p := goesOn) rfl hentry (.cons rfl)
    rw [pieces_dict]
    exact ⟨Piece.fits_symbol hgap rfl, hlist.append hend⟩

end Datum

end StagedScript
