import Mathlib.Algebra.Group.Nat.Defs
import StagedScript.Proofs.Parsing.Statements
import StagedScript.Proofs.Reading.Lists
import StagedScript.Proofs.Writing.Emission
import StagedScript.Record.Define
import StagedScript.Record.Type

/-!
# Reading the text of a record class

The text of a record class is read as the class with its documentation and what it gives for every
name.
-/

/-!
## The text of a record class

The text that a record type is made from, line by line.
-/

namespace StagedScript.RecordType

/-- The lines of the class that say what its records are like. -/
def headLines (name : String) (fields : List String) : List String :=
  [.ofList ("class ".toList ++ (name.toList ++ "(_slots):".toList)),
    .ofList ("    '".toList ++ (name.toList ++ ("(".toList ++
      ((", ".intercalate fields).toList ++ ")'".toList)))),
    .ofList ("    _fields = ".toList ++ (Shape.tupleText (fields.map strLiteral)).toList),
    .ofList ("    _arity = ".toList ++ (toString fields.length).toList),
    .ofList ("    _repr_fmt = '(".toList ++
      ((", ".intercalate (fields.map (· ++ "=%r"))).toList ++ ")'".toList)),
    .ofList "    _mapping = OrderedDict".toList]

/-- The line for a field. -/
def fieldLine (x : String) (i : Nat) : String :=
  .ofList (x.toList ++ (" = _slot(".toList ++ ((toString i).toList ++ ")".toList)))

section

variable (name : String) (fields : List String)

/-- The lines of the template of a class. -/
def templateLines : List String :=
  ["class \x7btypename\x7d(_slots):", "    '\x7btypename\x7d(\x7barg_list\x7d)'",
    "    _fields = \x7bfield_names\x7d", "    _arity = \x7bnum_fields\x7d",
    "    _repr_fmt = '(\x7brepr_fmt\x7d)'", "    _mapping = OrderedDict"]

theorem blockOf_classTemplate : Emit.blockOf classTemplate = templateLines := by decide +kernel

theorem format_doc : (classBindings name fields).format "    '\x7btypename\x7d(\x7barg_list\x7d)'" =
    .ok (.ofList ("    '".toList ++ (name.toList ++ ("(".toList ++
      ((", ".intercalate fields).toList ++ ")'".toList))))) := by
  have hread : Template.read 0 "    '\x7btypename\x7d(\x7barg_list\x7d)'".toList =
      ("    '".toList.map .char ++ .name "typename" ::
        ("(".toList.map .char ++ .name "arg_list" :: ")'".toList.map .char), none) := by
    with_unfolding_all rfl
  refine Bindings.format_of_read rfl hread ?_
  rw [Template.fillPieces_chars, Template.fillPieces_name (x := "typename") rfl,
    Template.fillPieces_chars, Template.fillPieces_name (x := "arg_list") rfl,
    ← List.append_nil (")'".toList.map _), Template.fillPieces_chars]
  rfl

/-- The lines of the template are filled with what describes the class. -/
theorem forM_templateLines (e : Emission Unit) :
    templateLines.forM (Emit.line (classBindings name fields)) e =
      .ok () (e.pushed (headLines name fields)) := by
  have hclass : (classBindings name fields).format "class \x7btypename\x7d(_slots):" = .ok _ :=
    Bindings.format_one rfl "class " "(_slots):" (by with_unfolding_all rfl) rfl
  have hfields : (classBindings name fields).format "    _fields = \x7bfield_names\x7d" = .ok _ :=
    Bindings.format_one rfl "    _fields = " "" (by with_unfolding_all rfl) rfl
  have harity : (classBindings name fields).format "    _arity = \x7bnum_fields\x7d" = .ok _ :=
    Bindings.format_one rfl "    _arity = " "" (by with_unfolding_all rfl) rfl
  have hformat : (classBindings name fields).format "    _repr_fmt = '(\x7brepr_fmt\x7d)'" =
      .ok _ :=
    Bindings.format_one rfl "    _repr_fmt = '(" ")'" (by with_unfolding_all rfl) rfl
  have hmapping : (classBindings name fields).format "    _mapping = OrderedDict" =
      .ok (.ofList "    _mapping = OrderedDict".toList) := by
    have hread : Template.read 0 "    _mapping = OrderedDict".toList =
        ("    _mapping = OrderedDict".toList.map .char, none) := by with_unfolding_all rfl
    refine Bindings.format_of_read rfl hread ?_
    rw [← List.append_nil ("    _mapping = OrderedDict".toList.map _), Template.fillPieces_chars]
    rfl
  refine Emit.forM_ok (.cons (Emit.line_ok hclass) (.cons (Emit.line_ok (format_doc name fields))
    (.cons (Emit.line_ok ?_) (.cons (Emit.line_ok ?_) (.cons (Emit.line_ok hformat)
    (.cons (Emit.line_ok hmapping) .nil)))))) e
  · simpa using hfields
  · simpa using harity

theorem forM_fieldLines (e : Emission Unit) :
    (fields.zipIdx.forM fun (x, i) => Emit.line (fieldBindings x i) fieldTemplate : Emit Unit Unit)
      e =
      .ok () (e.pushed (fields.zipIdx.map fun (x, i) => fieldLine x i)) := by
  refine Emit.forM_ok ?_ e
  rw [List.forall₂_map_right_iff]
  refine List.forall₂_same.2 fun e _ => ?_
  obtain ⟨x, i⟩ := e
  refine Emit.line_ok ?_
  have hread : Template.read 0 fieldTemplate.toList =
      (.name "name" :: (" = _slot(".toList.map .char ++ .name "index" :: ")".toList.map .char),
        none) := by
    with_unfolding_all rfl
  refine Bindings.format_of_read rfl hread ?_
  rw [Template.fillPieces_name (x := "name") rfl, Template.fillPieces_chars,
    Template.fillPieces_name (x := "index") rfl, ← List.append_nil (")".toList.map _),
    Template.fillPieces_chars]
  rfl

/-- The lines of the text of a class. -/
def sourceLines : List String :=
  headLines name fields ++ fields.zipIdx.map fun (x, i) => "    " ++ fieldLine x i

/-- The text of a class is made of its lines. -/
theorem render_eq : render name fields = .ok ("\n".intercalate (sourceLines name fields)) := by
  have hwrite : write name fields ⟨.empty .standard, ()⟩ =
      .ok () ⟨⟨.standard, 0, (sourceLines name fields).toArray⟩, ()⟩ := by
    have hblock (e : Emission Unit) : Emit.block (classBindings name fields) classTemplate e =
        .ok () (e.pushed (headLines name fields)) := by
      unfold Emit.block
      rw [blockOf_classTemplate]
      exact forM_templateLines name fields e
    unfold write
    rw [EStateM.bind_ok (hblock _)]
    have hindented (texts : List String) :
        texts.map (Buffer.indented ⟨.standard, 0, #[]⟩) = texts := by
      refine (List.map_congr_left fun text _ => ?_).trans texts.map_id
      simp [Buffer.indented]
    -- Without fields there is no block of accessors, and the depth stays as it is.
    by_cases hfields : fields = []
    · subst hfields
      change EStateM.Result.ok () _ = _
      simp only [Emission.pushed, Buffer.empty, hindented, sourceLines]
      simp
    · have hdeeper : Emit.deeper
          (fields.zipIdx.forM fun (x, i) => Emit.line (fieldBindings x i) fieldTemplate)
          (Emission.pushed ⟨.empty .standard, ()⟩ (headLines name fields)) = _ :=
        Emit.deeper_ok (by simpa using hfields) (forM_fieldLines fields _)
      rw [if_pos (by simpa using hfields), hdeeper]
      simp [Emission.pushed, Buffer.empty, hindented, sourceLines, Emission.enter, Emission.leave]
      exact fun _ _ _ => rfl
  unfold render
  rw [hwrite]
  simp [Buffer.text]

end

end StagedScript.RecordType

/-!
## The lines of a record class

Every line of the text of a record class gives a value for a name, its documentation aside.  What is
written for such a value is read as the expression for it.
-/

namespace StagedScript

/-- What the text of a record class gives for a name. -/
inductive ClassItem where
  /-- A tuple of texts. -/
  | texts (xs : List String)
  /-- A number. -/
  | number (n : Nat)
  /-- A text. -/
  | text (t : String)
  /-- What another name is bound to. -/
  | name (x : String)
  /-- The accessor of a slot. -/
  | slot (i : Nat)

namespace ClassItem

/-- The item can be written as it is. -/
def Plain : ClassItem → Prop
  | texts xs => ∀ x ∈ xs, Word.isIdentifier x = true
  | number n => fits n = true
  | text t => t.toList ≠ [] ∧ ∀ c ∈ t.toList, Piece.isPlainInText c = true
  | name x => Word.isName x = true
  | slot i => fits i = true

/-- The expression stands for the item. -/
def Says : ClassItem → Expr → Prop
  | texts xs, e => ∃ span es, e = .tuple span es ∧
      List.Forall₂ (fun x e => ∃ span, e = Expr.str span x) xs es
  | number n, e => ∃ span, e = .int span (Int64.ofNat n)
  | text t, e => ∃ span, e = .str span t
  | name x, e => ∃ span, e = .name span x
  | slot i, e => ∃ span spanName spanIndex,
      e = .call span (.name spanName "_slot") [⟨.positional, .int spanIndex (Int64.ofNat i)⟩]

/-- The pieces of an item, behind a blank. -/
def pieces : ClassItem → List Piece
  | texts xs => Piece.tuple [' '] (fun gap x => [Piece.quote gap x]) xs
  | number n => [Piece.number [' '] n]
  | text t => [Piece.quote [' '] t]
  | name x => [Piece.word [' '] x]
  | slot i => [Piece.word [' '] "_slot", Piece.symbol [] .openParen, Piece.number [] i,
      Piece.symbol [] .closeParen]

/-! ### Reading -/

/-- What is written for an item is read as an expression for it. -/
theorem reads (item : ClassItem) (h : item.Plain) (depth : Nat) :
    ReadsExpr (Parse.exprWithin (depth + 2)) (item.pieces.map Piece.kind) item.Says := by
  cases item with
  | texts xs =>
    have hword (gap : List Char) (x : String) (_ : x ∈ xs) :
        [Piece.quote gap x].map Piece.kind = [Token.Kind.str x] := rfl
    rw [pieces, Piece.kinds_tuple hword]
    exact ReadsExpr.tuple (fun x _ => (ReadsExpr.str x depth).item) fun x _ => ⟨_, _, rfl, rfl⟩
  | number n => exact ReadsExpr.int _ _
  | text t => exact ReadsExpr.str _ _
  | name x =>
    change ReadsExpr _ [Word.kind x] _
    rw [Word.kind_of_isName h]
    exact ReadsExpr.name _ _
  | slot i =>
    intro least c k ks hk hc
    have hcall := ReadsExpr.call "_slot" (ReadsExpr.int (Int64.ofNat i) depth)
      ⟨_, _, rfl, rfl, rfl, by simp, by simp, by simp⟩ least c k ks hk hc
    refine hcall.mono fun e he => ?_
    obtain ⟨span, spanName, arg, rfl, spanIndex, rfl⟩ := he
    exact ⟨span, spanName, spanIndex, rfl⟩

theorem pieces_kinds_ne_nil (item : ClassItem) : item.pieces.map Piece.kind ≠ [] := by
  cases item with
  | texts xs => rcases xs with _ | ⟨x, _ | ⟨y, ys⟩⟩ <;> simp [pieces, Piece.tuple]
  | _ => simp [pieces]

/-! ### Writing -/

theorem isPlainInText_of_isPart {c : Char} (h : Word.isPart c = true) :
    Piece.isPlainInText c = true := by
  have hne (d : Char) (hd : Word.isPart d = false) : c ≠ d := by
    rintro rfl
    rw [hd] at h
    cases h
  simp [Piece.isPlainInText, hne '\'' rfl, hne '\\' rfl, hne '\n' rfl]

theorem fits_quote_of_isIdentifier {gap rest : List Char} {x : String}
    (hx : Word.isIdentifier x = true) (hgap : ∀ c ∈ gap, Lexeme.isBlank c = true) :
    (Piece.quote gap x).Fits rest :=
  Piece.fits_quote (Word.isPart_of_isIdentifier hx).1
    (fun c hc => isPlainInText_of_isPart ((Word.isPart_of_isIdentifier hx).2 c hc)) hgap

/-- What is written for an item is what is read in front of the end of a line. -/
theorem fit (item : ClassItem) (h : item.Plain) {rest : List Char} (hrest : Piece.EndsLine rest) :
    Piece.Fit item.pieces rest := by
  cases item with
  | texts xs =>
    have hquote (x : String) (hx : x ∈ xs) (gap rest : List Char)
        (hgap : ∀ c ∈ gap, Lexeme.isBlank c = true) : Piece.Fit [Piece.quote gap x] rest :=
      ⟨fits_quote_of_isIdentifier (h x hx) hgap, trivial⟩
    exact Piece.fit_tuple (p := fun _ => false) rfl (fun x hx gap rest hgap _ =>
      hquote x hx gap rest hgap) rfl Piece.blanks_one
  | number n => exact ⟨Piece.fits_number h Piece.blanks_one (hrest.without rfl), trivial⟩
  | text t => exact ⟨Piece.fits_quote h.1 h.2 Piece.blanks_one, trivial⟩
  | name x =>
    have hx : Word.isIdentifier x = true := (Bool.and_eq_true_iff.1 h).1
    exact ⟨Piece.fits_word hx Piece.blanks_one (hrest.without rfl), trivial⟩
  | slot i =>
    exact ⟨Piece.fits_word rfl Piece.blanks_one (.cons rfl),
      Piece.fits_symbol Piece.blanks_none rfl, Piece.fits_number h Piece.blanks_none (.cons rfl),
      Piece.fits_symbol Piece.blanks_none rfl, trivial⟩

theorem inside (item : ClassItem) : Layout.Inside 0 item.pieces 0 := by
  cases item with
  | texts xs =>
    have hquote (gap : List Char) (x : String) (_ : x ∈ xs) :
        Layout.Inside 1 [Piece.quote gap x] 1 :=
      .quoted _ _ _ x
    exact .tuple _ hquote
  | number n => exact .number _ n
  | text t => exact .quoted _ _ _ t
  | name x => exact .word _ x
  | slot i => exact (Layout.Inside.word _ _).append (.brackets rfl rfl (.number _ i))

end ClassItem

end StagedScript

namespace StagedScript.RecordType

/-- What the text of a class gives for the names in its body. -/
def bindings (fields : List String) : List (String × ClassItem) :=
  [("_fields", .texts fields), ("_arity", .number fields.length),
    ("_repr_fmt", .text (plainFormat fields)), ("_mapping", .name "OrderedDict")]
    ++ fields.zipIdx.map fun (x, i) => (x, .slot i)

/-- The documentation of a class. -/
def docText (name : String) (fields : List String) : String :=
  name ++ "(" ++ ", ".intercalate fields ++ ")"

/-- What is in front of the lines of the body. -/
def margin : List Char := "    ".toList

/-- The pieces of the first line. -/
def headerPieces (name : String) : List Piece :=
  [Piece.word [] "class", Piece.word [' '] name, Piece.symbol [] .openParen, Piece.word [] "_slots",
    Piece.symbol [] .closeParen, Piece.symbol [] .colon]

/-- The pieces of the line that gives something for a name. -/
def bindingPieces (b : String × ClassItem) : List Piece :=
  Piece.word margin b.1 :: Piece.symbol [' '] .assign :: b.2.pieces

/-! ## The lines -/

theorem margin_blank : ∀ c ∈ margin, Lexeme.isBlank c = true := by
  simp [margin, Lexeme.isBlank]

theorem text_item (item : ClassItem) : ∃ cs, Piece.text item.pieces = ' ' :: cs := by
  cases item with
  | texts xs =>
    rcases xs with _ | ⟨x, _ | ⟨y, ys⟩⟩
    · exact ⟨_, rfl⟩
    · exact ⟨_, rfl⟩
    · exact ⟨_, rfl⟩
  | _ => exact ⟨_, rfl⟩

theorem isLine_header {name : String} (hname : Word.isIdentifier name = true) :
    Piece.IsLine [] (headerPieces name) where
  fit rest _ := ⟨Piece.fits_word rfl Piece.blanks_none (.cons rfl),
    Piece.fits_word hname Piece.blanks_one (.cons rfl), Piece.fits_symbol Piece.blanks_none rfl,
    Piece.fits_word rfl Piece.blanks_none (.cons rfl),
    Piece.fits_symbol Piece.blanks_none rfl, Piece.fits_symbol Piece.blanks_none rfl, trivial⟩
  first := by
    refine ⟨_, _, rfl, rfl, (Layout.Inside.kind_word "class").1,
      (Layout.Inside.kind_word "class").2, ?_⟩
    have hbase : Layout.Inside 1 [Piece.word [] "_slots"] 1 := .word _ _
    exact (Layout.Inside.word _ _).append
      ((Layout.Inside.brackets rfl rfl hbase).append (.symbol _ ⟨rfl, rfl⟩))

theorem isLine_quote {text : String} (h : (ClassItem.text text).Plain) :
    Piece.IsLine margin [Piece.quote margin text] where
  fit _ _ := ⟨Piece.fits_quote h.1 h.2 margin_blank, trivial⟩
  first := ⟨_, _, rfl, rfl, by simp [Piece.quote, Piece.quoted], by rintro c ⟨⟩, .nil⟩

theorem isLine_binding {b : String × ClassItem} (hx : Word.isIdentifier b.1 = true)
    (hitem : b.2.Plain) : Piece.IsLine margin (bindingPieces b) where
  fit rest hrest := by
    obtain ⟨cs, hcs⟩ := text_item b.2
    have hassign : (Piece.symbol [' '] .assign).Fits (Piece.text b.2.pieces ++ rest) :=
      Piece.fits_symbol Piece.blanks_one (by rw [hcs]; rfl)
    exact ⟨Piece.fits_word hx margin_blank (.cons rfl), hassign, b.2.fit hitem hrest⟩
  first := by
    refine ⟨_, _, rfl, rfl, (Layout.Inside.kind_word b.1).1, (Layout.Inside.kind_word b.1).2, ?_⟩
    exact (Layout.Inside.symbol _ ⟨rfl, rfl⟩).append b.2.inside

/-- Names that a record type can have: they are names of the language, and neither given twice nor
among the names that the text of the class needs. -/
structure Defines (name : String) (fields : List String) : Prop where
  type : Word.isName name = true
  named : ∀ x ∈ fields, Word.isName x = true
  distinct : fields.Nodup
  unreserved : ∀ x ∈ fields, x ∉ "_slot" :: reserved
  few : fields.length < 2 ^ 63

variable {name : String} {fields : List String}

theorem fits_of_le {n : Nat} (hn : n < 2 ^ 63) : StagedScript.fits n = true := by
  rw [fits_iff]
  omega

theorem plain_of_isName {x : String} (h : Word.isName x = true) :
    ∀ c ∈ x.toList, Piece.isPlainInText c = true := fun c hc =>
  ClassItem.isPlainInText_of_isPart
    ((Word.isPart_of_isIdentifier (Word.isIdentifier_of_isName h)).2 c hc)

theorem plain_docText (h : Defines name fields) : (ClassItem.text (docText name fields)).Plain := by
  refine ⟨by simp [docText], ?_⟩
  simp only [docText, String.toList_append, String.toList_intercalate, List.forall_mem_append]
  refine ⟨⟨⟨plain_of_isName h.type, List.all_eq_true.1 (by decide +kernel)⟩,
    forall_mem_intercalate (List.all_eq_true.1 (by decide +kernel)) ?_⟩,
    List.all_eq_true.1 (by decide +kernel)⟩
  rintro text htext
  obtain ⟨x, hx, rfl⟩ := List.mem_map.1 htext
  exact plain_of_isName (h.named x hx)

theorem plain_plainFormat (h : Defines name fields) :
    (ClassItem.text (plainFormat fields)).Plain := by
  refine ⟨by simp [plainFormat], ?_⟩
  simp only [plainFormat, String.toList_append, String.toList_intercalate, List.forall_mem_append]
  refine ⟨⟨List.all_eq_true.1 (by decide +kernel),
    forall_mem_intercalate (List.all_eq_true.1 (by decide +kernel)) ?_⟩,
    List.all_eq_true.1 (by decide +kernel)⟩
  rintro text htext
  simp only [List.mem_map] at htext
  obtain ⟨_, ⟨x, hx, rfl⟩, rfl⟩ := htext
  rw [String.toList_append]
  exact List.forall_mem_append.2 ⟨plain_of_isName (h.named x hx),
    List.all_eq_true.1 (by decide +kernel)⟩

/-- What a class gives can be written as it is. -/
theorem plain_bindings (h : Defines name fields) {b : String × ClassItem}
    (hb : b ∈ bindings fields) :
    Word.isName b.1 = true ∧ b.2.Plain := by
  rcases List.mem_append.1 hb with hb | hb
  · simp only [List.mem_cons, List.not_mem_nil, or_false] at hb
    rcases hb with rfl | rfl | rfl | rfl
    · exact ⟨show Word.isName "_fields" = true by decide,
        fun x hx => Word.isIdentifier_of_isName (h.named x hx)⟩
    · exact ⟨show Word.isName "_arity" = true by decide, fits_of_le h.few⟩
    · exact ⟨show Word.isName "_repr_fmt" = true by decide, plain_plainFormat h⟩
    · exact ⟨show Word.isName "_mapping" = true by decide,
        show Word.isName "OrderedDict" = true by decide⟩
  · obtain ⟨⟨x, i⟩, hx, rfl⟩ := List.mem_map.1 hb
    have hi := List.snd_lt_of_mem_zipIdx hx
    have hlt : i < fields.length := by simpa using hi
    exact ⟨h.named x (List.fst_mem_of_mem_zipIdx hx), fits_of_le (Nat.lt_trans hlt h.few)⟩

/-! ## The text -/

theorem literal_of_isIdentifier {x : String} (h : Word.isIdentifier x = true) :
    (strLiteral x).toList = '\'' :: (x.toList ++ ['\'']) := by
  have hparts := (Word.isPart_of_isIdentifier h).2
  have hne {c : Char} (hc : c ∈ x.toList) (d : Char) (hd : Word.isPart d = false) : c ≠ d := by
    rintro rfl
    rw [hparts c hc] at hd
    cases hd
  have hquote : Quote.choose x.toList = '\'' := by
    unfold Quote.choose
    have hnone : x.toList.contains '\'' = false := by
      rw [List.contains_eq_any_beq, List.any_eq_false]
      exact fun c hc => by simpa using (hne hc '\'' rfl).symm
    rw [hnone]
    rfl
  have hescape : x.toList.flatMap (Quote.escape '\'') = x.toList := by
    refine (List.flatMap_congr fun c hc => ?_).trans (List.flatMap_singleton' x.toList)
    unfold Quote.escape
    split
    · exact absurd rfl (hne hc _ rfl)
    · exact absurd rfl (hne hc _ rfl)
    · exact absurd rfl (hne hc _ rfl)
    · exact absurd rfl (hne hc _ rfl)
    · rw [if_neg (hne hc _ rfl)]
  rw [strLiteral, String.toList_ofList, Quote.literal, hquote, hescape]
  rfl

theorem text_texts {xs : List String} (hxs : ∀ x ∈ xs, Word.isIdentifier x = true) :
    Piece.text (ClassItem.texts xs).pieces =
      ' ' :: (Shape.tupleText (xs.map strLiteral)).toList := by
  have hquote (gap : List Char) (x : String) (hx : x ∈ xs) :
      Piece.text [Piece.quote gap x] = gap ++ (strLiteral x).toList := by
    rw [literal_of_isIdentifier (hxs x hx)]
    simp [Piece.text, Piece.quote, Piece.quoted]
  exact Piece.text_tuple hquote [' ']

/-- The lines of the text of a class are made of their pieces. -/
theorem sourceLines_eq (h : Defines name fields) : sourceLines name fields =
    (headerPieces name :: [Piece.quote margin (docText name fields)] ::
      (bindings fields).map bindingPieces).map fun ps => String.ofList (Piece.text ps) := by
  have hclass : Piece.text (headerPieces name) =
      "class ".toList ++ (name.toList ++ "(_slots):".toList) := by
    simp [headerPieces, Piece.text, Piece.word, Piece.symbol, Symbol.chars]
  have hfields := text_texts fun x hx => Word.isIdentifier_of_isName (h.named x hx)
  have hslot (x : String) (i : Nat) : String.ofList (Piece.text (bindingPieces (x, .slot i))) =
      "    " ++ fieldLine x i := by
    rw [← String.toList_inj]
    simp [bindingPieces, fieldLine, ClassItem.pieces, Piece.text, Piece.word, Piece.symbol,
      Piece.number, Symbol.chars, margin]
  unfold sourceLines headLines bindings
  simp only [List.map_cons, List.map_map, List.cons_append, List.nil_append]
  rw [hclass]
  refine congrArg₂ _ rfl (congrArg₂ _ ?_ (congrArg₂ _ ?_ (congrArg₂ _ ?_ (congrArg₂ _ ?_
    (congrArg₂ _ ?_ ?_)))))
  · simp [docText, Piece.text, Piece.quote, Piece.quoted, margin]
  · simp [bindingPieces, Piece.text, hfields, Piece.word, Piece.symbol, Symbol.chars, margin]
  · simp [bindingPieces, ClassItem.pieces, Piece.text, Piece.word, Piece.symbol, Piece.number,
      Symbol.chars, margin]
  · simp [bindingPieces, ClassItem.pieces, Piece.text, Piece.word, Piece.symbol, Piece.quote,
      Piece.quoted, Symbol.chars, margin, plainFormat]
  · simp [bindingPieces, ClassItem.pieces, Piece.text, Piece.word, Piece.symbol,
      Symbol.chars, margin]
  · exact List.map_congr_left fun e _ => (hslot e.1 e.2).symm

theorem toList_source (h : Defines name fields) :
    ("\n".intercalate (sourceLines name fields)).toList =
    Piece.text (headerPieces name) ++ ([Piece.quote margin (docText name fields)] ::
      (bindings fields).map bindingPieces).flatMap ('\n' :: Piece.text ·) := by
  rw [sourceLines_eq h, List.map_cons, String.toList_intercalate, List.map_cons,
    intercalate_eq_append, String.toList_ofList]
  refine congrArg _ ?_
  rw [List.flatMap_map, List.flatMap_map]
  refine List.flatMap_congr fun ps _ => ?_
  change ['\n'] ++ (String.ofList (Piece.text ps)).toList = _
  rw [String.toList_ofList]
  rfl

/-- The statement binds a name to what the class gives for it. -/
def Binds (b : String × ClassItem) (s : Stmt) : Prop :=
  ∃ span spanName e, s = .assign span [.name spanName b.1] e ∧ b.2.Says e

/-- The text of a class is read as the class with its documentation and its bindings. -/
theorem parse_source (h : Defines name fields) (label : String) :
    ∃ span spanBase spanDoc spanText rest,
      Script.parse ("\n".intercalate (sourceLines name fields)) label =
        .ok ⟨[.class_ span name (some (.name spanBase "_slots"))
            (.expr spanDoc (.str spanText (docText name fields)) :: rest)],
          ⟨label, "\n".intercalate (sourceLines name fields)⟩, 0⟩ ∧
      List.Forall₂ Binds (bindings fields) rest := by
  have hlines : ∀ l ∈ [Piece.quote margin (docText name fields)] ::
      (bindings fields).map bindingPieces, Piece.IsLine margin l := by
    intro l hl
    rcases List.mem_cons.1 hl with rfl | hl
    · exact isLine_quote (plain_docText h)
    · obtain ⟨b, hb, rfl⟩ := List.mem_map.1 hl
      have hplain := plain_bindings h hb
      exact isLine_binding (Word.isIdentifier_of_isName hplain.1) hplain.2
  obtain ⟨herrors, hkinds⟩ := Lexed.ofText_block
    (isLine_header (Word.isIdentifier_of_isName h.type)) (by decide) hlines
  rw [← toList_source h] at herrors hkinds
  -- The documentation is read as an expression, and every other line as an assignment.
  have hreads : List.Forall₂ ReadsStmt
      ([.str (docText name fields), .newline] ::
        (bindings fields).map fun b => (bindingPieces b).map Piece.kind ++ [.newline])
      ((fun s => ∃ span spanText, s = .expr span (.str spanText (docText name fields))) ::
        (bindings fields).map Binds) := by
    refine .cons (ReadsLine.text _).readsStmt ?_
    rw [List.forall₂_map_left_iff, List.forall₂_map_right_iff]
    refine List.forall₂_same.2 fun b hb => ?_
    have hplain := plain_bindings h hb
    have hline := ReadsLine.binding b.1 (.of_expr (b.2.reads hplain.2) b.2.pieces_kinds_ne_nil)
    rw [← Word.kind_of_isName hplain.1] at hline
    exact hline.readsStmt
  have hclass := ReadsStmt.class_ name "_slots" hreads
  obtain ⟨_, hbody, hstmts⟩ := Parsed.ofTokens_of_stmts (.cons hclass .nil) (Lexed.kind_getLast? _)
    (hkinds.trans (by
      simp [headerPieces, Piece.word, Piece.symbol, Word.kind_of_isName h.type, Piece.quote,
        Piece.quoted, List.flatMap_def, Function.comp_def,
        show Word.kind "class" = .keyword .class_ from rfl,
        Word.kind_of_isName (show Word.isName "_slots" = true by decide)]))
  obtain ⟨_, _, ⟨span, spanBase, ss, rfl, hss⟩, hnone, rfl⟩ := List.forall₂_cons_left_iff.1 hstmts
  cases hnone
  cases hss with
  | cons hdoc hrest =>
  obtain ⟨spanDoc, spanText, rfl⟩ := hdoc
  rw [List.forall₂_map_left_iff] at hrest
  exact ⟨span, spanBase, spanDoc, spanText, _, (Script.parse_eq_ok _).2 ⟨herrors, hbody, rfl⟩,
    hrest⟩

end StagedScript.RecordType
