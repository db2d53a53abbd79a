import StagedScript.Proofs.Data.Writing
import StagedScript.Proofs.Parsing.Statements
import StagedScript.Proofs.Programs
import StagedScript.Proofs.Records.Class
import StagedScript.Proofs.Tables

/-!
# Reading back what is shown

The text that shows plain data is an expression, and a program that binds a name to it binds the
name to the same data.
-/

/-!
## Making plain data

The expression for plain data has a value that is made of it, wherever the expression stands.
-/

namespace StagedScript

namespace Datum

variable (call : Caller) (f : Frame)

/-- What evaluating an expression for the datum comes to: the store has grown and holds the
datum. -/
def Makes (d : Datum) (e : Expr) : Prop :=
  ∀ s : Store, ∃ v s', Run.eval call f e s = .ok v s' ∧ s.Grows s' ∧ s'.Holds v d

section

variable {call f} {ds : List Datum} {es : List Expr}

/-- Items are made one after the other. -/
theorem makes_all (h : List.Forall₂ (Makes call f) ds es) (s : Store) :
    ∃ vs s', Run.evalAll call f es s = .ok vs s' ∧ s.Grows s' ∧ List.Forall₂ s'.Holds vs ds := by
  induction h generalizing s with
  | nil => exact ⟨[], s, by unfold Run.evalAll; rfl, .refl s, .nil⟩
  | @cons d e ds es he _ ih =>
    obtain ⟨v, s₁, hv, hgrows, hholds⟩ := he s
    obtain ⟨vs, s₂, hvs, hgrows', hall⟩ := ih s₁
    refine ⟨v :: vs, s₂, ?_, hgrows.trans hgrows', .cons (hgrows'.holds hholds) hall⟩
    unfold Run.evalAll
    rw [EStateM.bind_ok hv, EStateM.bind_ok hvs]
    rfl

/-- Entries are made one after the other. -/
theorem makes_entries {es : List (String × Datum)} {ps : List (Expr × Expr)}
    (h : List.Forall₂ (fun e p => (∃ span, p.1 = .str span e.1) ∧ Makes call f e.2 p.2) es ps)
    (s : Store) :
    ∃ vs s', Run.evalEntries call f ps s = .ok vs s' ∧ s.Grows s' ∧
      vs.map Prod.fst = es.map Prod.fst ∧
      List.Forall₂ s'.Holds (vs.map Prod.snd) (es.map Prod.snd) := by
  induction h generalizing s with
  | nil => exact ⟨[], s, by unfold Run.evalEntries; rfl, .refl s, rfl, .nil⟩
  | @cons e p es ps he _ ih =>
    obtain ⟨k, d⟩ := e
    obtain ⟨_, value⟩ := p
    obtain ⟨⟨span, rfl⟩, hvalue⟩ := he
    -- The key is a text that is made anew, although only its characters are kept.
    obtain ⟨v, s₁, hv, hgrows, hholds⟩ := hvalue s.newIdentity.2
    obtain ⟨vs, s₂, hvs, hgrows', hkeys, hall⟩ := ih s₁
    refine ⟨(k, v) :: vs, s₂, ?_, (Store.Grows.newIdentity s).trans (hgrows.trans hgrows'),
      congrArg (k :: ·) hkeys, .cons (hgrows'.holds hholds) hall⟩
    have hkey : Run.eval call f (.str span k) s = .ok (.str s.nextIdentity k) s.newIdentity.2 := by
      unfold Run.eval
      rfl
    have htext : Run.dictKey (.str s.nextIdentity k) s.newIdentity.2 = .ok k s.newIdentity.2 := rfl
    unfold Run.evalEntries
    rw [EStateM.bind_ok hkey, EStateM.bind_ok htext, EStateM.bind_ok hv, EStateM.bind_ok hvs]
    rfl

end

/-! ### Expressions up to their spans -/

theorem forall₂_of_exprs {ds : List Datum} {es : List Expr}
    (h : Expr.mapSpans (fun _ => .nowhere) es = exprs ds) :
    List.Forall₂ (fun d e => e.bare = d.expr) ds es := by
  induction ds generalizing es with
  | nil =>
    cases es with
    | nil => exact .nil
    | cons e es => cases h
  | cons d ds ih =>
    cases es with
    | nil => cases h
    | cons e es =>
      obtain ⟨he, hes⟩ := List.cons.inj h
      exact .cons he (ih hes)

section

variable {e : Expr}

theorem eq_str_of_bare {t : String} (h : e.bare = .str .nowhere t) : ∃ span, e = .str span t := by
  cases e <;> cases h
  exact ⟨_, rfl⟩

theorem eq_int_of_bare {n : Int64} (h : e.bare = .int .nowhere n) : ∃ span, e = .int span n := by
  cases e <;> cases h
  exact ⟨_, rfl⟩

theorem eq_unary_of_bare {op : UnaryOp} {a : Expr} (h : e.bare = .unary .nowhere op a) :
    ∃ span a', e = .unary span op a' ∧ a'.bare = a := by
  cases e <;> cases h
  exact ⟨_, _, rfl, rfl⟩

theorem eq_tuple_of_bare {es : List Expr} (h : e.bare = .tuple .nowhere es) :
    ∃ span es', e = .tuple span es' ∧ Expr.mapSpans (fun _ => .nowhere) es' = es := by
  cases e <;> cases h
  exact ⟨_, _, rfl, rfl⟩

theorem eq_list_of_bare {es : List Expr} (h : e.bare = .list .nowhere es) :
    ∃ span es', e = .list span es' ∧ Expr.mapSpans (fun _ => .nowhere) es' = es := by
  cases e <;> cases h
  exact ⟨_, _, rfl, rfl⟩

theorem eq_dict_of_bare {ps : List (Expr × Expr)} (h : e.bare = .dict .nowhere ps) :
    ∃ span ps', e = .dict span ps' ∧ Expr.mapEntrySpans (fun _ => .nowhere) ps' = ps := by
  cases e <;> cases h
  exact ⟨_, _, rfl, rfl⟩

end

theorem forall₂_of_entryExprs {es : List (String × Datum)} {ps : List (Expr × Expr)}
    (h : Expr.mapEntrySpans (fun _ => .nowhere) ps = entryExprs es) :
    List.Forall₂ (fun e p => (∃ span, p.1 = .str span e.1) ∧ p.2.bare = e.2.expr) es ps := by
  induction es generalizing ps with
  | nil =>
    cases ps with
    | nil => exact .nil
    | cons p ps => cases h
  | cons e es ih =>
    cases ps with
    | nil => cases h
    | cons p ps =>
      obtain ⟨hp, hps⟩ := List.cons.inj h
      obtain ⟨hkey, hvalue⟩ := Prod.mk.inj hp
      exact .cons ⟨eq_str_of_bare hkey, hvalue⟩ (ih hps)

/-! ### Integers -/

/-- The negation of a literal is the integer that it was written for. -/
theorem neg_natAbs {n : Int64} (hn : n ≠ Int64.minValue) (hneg : n.toInt < 0) :
    fits (-(Int64.ofNat n.toInt.natAbs).toInt) = true ∧
      Int64.ofInt (-(Int64.ofNat n.toInt.natAbs).toInt) = n := by
  have habs : (Int64.ofNat n.toInt.natAbs).toInt = n.toInt.natAbs :=
    toNat_ofNat_of_fits (fits_natAbs hn)
  have heq : -(Int64.ofNat n.toInt.natAbs).toInt = n.toInt := by omega
  have hle := n.le_toInt
  have hlt := n.toInt_lt
  rw [heq]
  exact ⟨fits_iff.2 (by omega), Int64.ofInt_toInt n⟩

theorem ofNat_natAbs {n : Int64} (hn : n ≠ Int64.minValue) (hpos : ¬ n.toInt < 0) :
    Int64.ofNat n.toInt.natAbs = n := by
  have habs : (Int64.ofNat n.toInt.natAbs).toInt = n.toInt.natAbs :=
    toNat_ofNat_of_fits (fits_natAbs hn)
  exact Int64.toInt_inj.1 (by omega)

/-! ### All data -/

/-- The expression for an integer is its literal, or the negation of that of its absolute value. -/
theorem makes_int {n : Int64} (hn : n ≠ Int64.minValue) {e : Expr} (he : e.bare = (int n).expr) :
    Makes call f (int n) e := by
  intro s
  refine ⟨.int n, s, ?_, .refl s, .int hn⟩
  unfold expr at he
  split at he
  · next hneg =>
    -- The literal is an integer, and so is its negation: the least integer has been left out.
    obtain ⟨hfits, hvalue⟩ := neg_natAbs hn hneg
    obtain ⟨span, a, rfl, ha⟩ := eq_unary_of_bare he
    obtain ⟨spanLiteral, rfl⟩ := eq_int_of_bare ha
    have hoperand : Run.eval call f (.int spanLiteral (Int64.ofNat n.toInt.natAbs)) s =
        .ok (.int (Int64.ofNat n.toInt.natAbs)) s := by
      unfold Run.eval
      rfl
    have hnegation : Arithmetic.unary .neg (.int (Int64.ofNat n.toInt.natAbs)) "int" =
        .ok (.int n) := by
      unfold Arithmetic.unary Arithmetic.fit
      simp only [Value.int?, hfits, if_true, hvalue]
      rfl
    unfold Run.eval
    rw [EStateM.bind_ok hoperand]
    change Run.ofExcept (Arithmetic.unary .neg _ "int") s = _
    rw [hnegation]
    rfl
  · next hpos =>
    obtain ⟨span, rfl⟩ := eq_int_of_bare he
    rw [ofNat_natAbs hn hpos]
    unfold Run.eval
    rfl

/-- The expression for data that can be written makes it. -/
theorem makes_expr {d : Datum} (hd : d.Writable) {e : Expr} (he : e.bare = d.expr) :
    Makes call f d e := by
  induction d generalizing e with
  | none_ =>
    cases e <;> cases he
    exact fun s => ⟨.none_, s, by unfold Run.eval; rfl, .refl s, .none_⟩
  | bool b =>
    cases e <;> cases he
    exact fun s => ⟨.bool b, s, by unfold Run.eval; rfl, .refl s, .bool b⟩
  | int n =>
    cases hd with
    | int hn => exact makes_int call f hn he
  | text t =>
    obtain ⟨span, rfl⟩ := eq_str_of_bare he
    exact fun s => ⟨.str s.nextIdentity t, s.newIdentity.2, by unfold Run.eval; rfl, .newIdentity s,
      .text _ t⟩
  | tuple ds ih =>
    cases hd with
    | tuple hds =>
    obtain ⟨span, es, rfl, hes⟩ := eq_tuple_of_bare he
    intro s
    have hmake : ∀ d ∈ ds, ∀ e : Expr, e.bare = d.expr → Makes call f d e :=
      fun d hd e he => ih d hd (hds d hd) he
    have hall := (List.forall₂_and_left ds es).2 ⟨hmake, forall₂_of_exprs hes⟩
    obtain ⟨vs, s₁, hvs, hgrows, hholds⟩ := makes_all (hall.imp fun d e h => h.1 e h.2) s
    refine ⟨.tuple s₁.nextIdentity vs, s₁.newIdentity.2, ?_, hgrows.trans (.newIdentity s₁),
      .tuple _ ((Store.Grows.newIdentity s₁).holdsAll hholds)⟩
    unfold Run.eval
    rw [EStateM.bind_ok hvs]
    rfl
  | list ds ih =>
    cases hd with
    | list hds =>
    obtain ⟨span, es, rfl, hes⟩ := eq_list_of_bare he
    intro s
    have hmake : ∀ d ∈ ds, ∀ e : Expr, e.bare = d.expr → Makes call f d e :=
      fun d hd e he => ih d hd (hds d hd) he
    have hall := (List.forall₂_and_left ds es).2 ⟨hmake, forall₂_of_exprs hes⟩
    obtain ⟨vs, s₁, hvs, hgrows, hholds⟩ := makes_all (hall.imp fun d e h => h.1 e h.2) s
    have hnew : (s₁.newList vs.toArray).2.lists[s₁.lists.size]? = some vs.toArray := by
      change (s₁.lists.push vs.toArray)[s₁.lists.size]? = _
      rw [Array.getElem?_push, if_pos rfl]
    refine ⟨.list ⟨s₁.lists.size⟩, (s₁.newList vs.toArray).2, ?_, hgrows.trans (.newList s₁ _),
      .list hnew ?_⟩
    · unfold Run.eval
      rw [EStateM.bind_ok hvs]
      rfl
    · rw [List.toList_toArray]
      exact (Store.Grows.newList s₁ _).holdsAll hholds
  | dict es ih =>
    cases hd with
    | dict hnodup hes =>
    obtain ⟨span, ps, rfl, hps⟩ := eq_dict_of_bare he
    intro s
    have hmake : ∀ e ∈ es, ∀ p : Expr, p.bare = e.2.expr → Makes call f e.2 p :=
      fun e he p hp => ih e he (hes e he) hp
    have hall := (List.forall₂_and_left es ps).2 ⟨hmake, forall₂_of_entryExprs hps⟩
    obtain ⟨vs, s₁, hvs, hgrows, hkeys, hholds⟩ := makes_entries
      (hall.imp fun e p h => ⟨h.2.1, h.1 p.2 h.2.2⟩) s
    -- No name is written twice, so the table has the entries as they are written.
    let t : Table Value := ⟨vs, by rw [Entries.keys, hkeys]; exact hnodup⟩
    have hnew : (s₁.newDict t).2.dicts[s₁.dicts.size]? = some t := by
      change (s₁.dicts.push t)[s₁.dicts.size]? = _
      rw [Array.getElem?_push, if_pos rfl]
    refine ⟨.dict ⟨s₁.dicts.size⟩, (s₁.newDict t).2, ?_, hgrows.trans (.newDict s₁ t),
      .dict hnew hkeys ((Store.Grows.newDict s₁ t).holdsAll hholds)⟩
    unfold Run.eval
    rw [EStateM.bind_ok hvs, show Table.ofList vs = t from Table.ofList_entries t]
    rfl

end Datum

namespace Datum

variable {d : Datum}

/-- The pieces of a line that binds a name to plain data. -/
def bindingPieces (x : String) (d : Datum) : List Piece :=
  Piece.word [] x :: Piece.symbol [' '] .assign :: d.pieces [' ']

theorem text_bindingPieces (x : String) (d : Datum) :
    Piece.text (bindingPieces x d) = (x ++ " = " ++ d.repr).toList := by
  rw [bindingPieces, Piece.text, Piece.text, text_pieces]
  simp [Piece.word, Piece.symbol, Symbol.chars]

theorem isLine_binding {x : String} (hx : Word.isName x = true) (hd : d.Writable) :
    Piece.IsLine [] (bindingPieces x d) where
  fit rest hrest := by
    have hassign : (Piece.symbol [' '] .assign).Fits (Piece.text (d.pieces [' ']) ++ rest) := by
      rw [text_pieces]
      exact Piece.fits_symbol Piece.blanks_one rfl
    exact ⟨Piece.fits_word (Word.isIdentifier_of_isName hx) Piece.blanks_none (.cons rfl), hassign,
      fit_pieces hd Piece.blanks_one (hrest.without rfl)⟩
  first := by
    refine ⟨_, _, rfl, rfl, (Layout.Inside.kind_word x).1, (Layout.Inside.kind_word x).2, ?_⟩
    exact (Layout.Inside.symbol _ ⟨rfl, rfl⟩).append (inside_pieces [' '] d 0)

/-- The expression for plain data has no calls. -/
theorem argsInOrder_expr (d : Datum) : d.expr.ArgsInOrder := by
  have hall {ds : List Datum} (ih : ∀ d ∈ ds, d.expr.ArgsInOrder) : Expr.AllInOrder (exprs ds) := by
    induction ds with
    | nil => trivial
    | cons d ds ihs => exact ⟨ih d (by simp), ihs fun d hd => ih d (by simp [hd])⟩
  induction d with
  | tuple ds ih => exact hall ih
  | list ds ih => exact hall ih
  | dict es ih =>
    change Expr.EntriesInOrder (entryExprs es)
    induction es with
    | nil => trivial
    | cons e es ihs => exact ⟨trivial, ih e (by simp), ihs fun e he => ih e (by simp [he])⟩
  | int n =>
    unfold expr
    split <;> trivial
  | _ => trivial

/-- The text of plain data behind a name and an equals sign is a statement. -/
theorem parse_binding {x : String} (hx : Word.isName x = true) (hd : d.Writable) (label : String) :
    ∃ span spanName e,
      Script.parse (x ++ " = " ++ d.repr) label =
        .ok ⟨[.assign span [.name spanName x] e], ⟨label, x ++ " = " ++ d.repr⟩, 0⟩ ∧
      e.bare = d.expr := by
  -- The text is one line of the pieces, the pieces are tokens, and these are read as the
  -- expression.
  have hwhole : ReadsWhole (d.expr.item fun _ => false) (·.bare = d.expr.bare) :=
    fun depth hdepth => (d.expr.reads_written _ d.argsInOrder_expr).item hdepth
  have hline := ReadsLine.binding x hwhole
  have hwords : (bindingPieces x d).map Piece.kind =
      .ident x :: .symbol .assign :: d.expr.item fun _ => false := by
    rw [bindingPieces, List.map_cons, List.map_cons, kinds_pieces]
    exact congrArg (· :: _) (Word.kind_of_isName hx)
  rw [← hwords] at hline
  obtain ⟨s, hparse, span, spanName, e, rfl, he⟩ := Script.parse_line (isLine_binding hx hd)
    hline.readsStmt (text_bindingPieces x d).symm label
  exact ⟨span, spanName, e, hparse, he.trans d.bare_expr⟩

end Datum

/-! ## Programs -/

/-- Assigning data to a name binds the name to it. -/
theorem Run.exec_binding (call : Caller) (rounds : Nat) (f : Frame) {d : Datum} {x : String}
    {span spanName : Span} {e : Expr} (he : Datum.Makes call f d e) {s : Store}
    (hlocals : f.locals.index < s.namespaces.size) :
    ∃ v s', Run.exec call rounds f (.assign span [.name spanName x] e) s = .ok .next s' ∧
      s.Grows s' ∧ s'.Holds v d ∧ (s'.bindings f.locals).get? x = some v := by
  obtain ⟨v, s₁, hv, hgrows, hholds⟩ := he s
  refine ⟨v, s₁.bind f.locals x v, ?_, hgrows.trans (.bind s₁ _ _ _),
    (Store.Grows.bind s₁ _ _ _).holds hholds, ?_⟩
  · have hassign : Run.assign call f (.name spanName x) v s₁ = .ok () (s₁.bind f.locals x v) := by
      unfold Run.assign
      rfl
    unfold Run.exec
    rw [EStateM.bind_ok hv]
    simp only [List.forM_eq_forM, List.forM_cons, bind_assoc]
    rw [EStateM.bind_ok hassign]
    rfl
  · have hlt : f.locals.index < s₁.namespaces.size := by rwa [hgrows.namespaces]
    unfold Store.bindings
    change Table.get? (((s₁.namespaces.modify f.locals.index _)[f.locals.index]?).getD _) _ = _
    rw [Array.getElem?_modify, if_pos rfl, Array.getElem?_eq_getElem hlt]
    change Table.get? (Table.insert _ x v) x = _
    rw [Table.get?_insert, if_pos rfl]

/-- What is shown of plain data can be read back.  The text that binds a name to it is a program,
and wherever this is executed it binds the name to data that is made of the same, part by part, and
is equal to what was shown; and what was shown is still what it was. -/
theorem Store.repr_reads_back {s : Store} {v : Value} {d : Datum} (hv : s.Holds v d)
    (label : String) :
    ∃ p, Program.ofText ("__v = " ++ s.repr v) label = .ok p ∧
      ∀ (host : Host) (fuel : Nat) (m : Machine) (g : NamespaceRef)
        (extraction? : Option NamespaceRef),
        (extraction?.getD g).index < s.namespaces.size →
        ∃ w s', p.run host fuel m g extraction? s = .ok () s' ∧
          (s'.bindings (extraction?.getD g)).get? "__v" = some w ∧
          s'.Holds w d ∧ s'.Holds v d ∧ s'.equal w v = some true := by
  have hname : Word.isName "__v" = true := by decide
  obtain ⟨span, spanName, e, hparse, he⟩ := Datum.parse_binding hname hv.writable label
  rw [hv.repr_eq]
  refine ⟨_, Program.ofText_of_parse hparse rfl, fun host fuel m g extraction? hg => ?_⟩
  obtain ⟨w, s', hexec, hgrows, hw, hget⟩ := Run.exec_binding (callIn host fuel m) fuel
    ⟨extraction?.getD g, g, none, ⟨label, "__v" ++ " = " ++ d.repr⟩, 0⟩
    (Datum.makes_expr _ _ hv.writable he) hg
  exact ⟨w, s', Program.run_of_exec rfl hexec, hget, hw, hgrows.holds hv,
    hw.equal (hgrows.holds hv)⟩

/-- The data of a list with nothing, an integer, a tuple with a text and a dict. -/
def sampleDatum : Datum :=
  .list [.none_, .int (-3), .tuple [.text "it's"], .dict [("k", .bool true)]]

example : sampleDatum.repr = "[None, -3, (\"it's\",), \x7b'k': True\x7d]" := by decide +kernel

/-- A store with the list. -/
def sampleDatumStore : Store :=
  { Store.empty with
    lists := #[#[.none_, .int (-3), .tuple 1 [.str 0 "it's"], .dict ⟨0⟩]]
    dicts := #[⟨[("k", .bool true)], by simp [Entries.keys]⟩]
    namespaces := #[.empty]
    nextIdentity := 2 }

theorem sampleDatum_reads_back : sampleDatumStore.Holds (.list ⟨0⟩) sampleDatum ∧
    ∃ p, Program.ofText ("__v = " ++ sampleDatumStore.repr (.list ⟨0⟩)) "sample" = .ok p ∧
      ∃ w s', p.run .bare 1 .fresh ⟨0⟩ none sampleDatumStore = .ok () s' ∧
        (s'.bindings ⟨0⟩).get? "__v" = some w ∧ s'.Holds w sampleDatum ∧
        s'.Holds (.list ⟨0⟩) sampleDatum ∧ s'.equal w (.list ⟨0⟩) = some true := by
  have hholds : sampleDatumStore.Holds (.list ⟨0⟩) sampleDatum := by
    refine .list rfl (.cons .none_ (.cons (.int (by decide)) (.cons ?_ (.cons ?_ .nil))))
    · exact .tuple 1 (.cons (.text 0 "it's") .nil)
    · exact .dict rfl rfl (.cons (.bool true) .nil)
  obtain ⟨p, hp, hrun⟩ := Store.repr_reads_back hholds "sample"
  exact ⟨hholds, p, hp, hrun .bare 1 .fresh ⟨0⟩ none (by decide)⟩

end StagedScript
