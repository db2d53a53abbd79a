import StagedScript.Proofs.Closures
import StagedScript.Proofs.Parsing.Blocks
import StagedScript.Proofs.Parsing.Statements
import StagedScript.Proofs.Programs
import StagedScript.Proofs.Reading.Hanging
import StagedScript.Proofs.Reading.Lists

/-!
# The header of a maker

The first line of a maker gives its name and its parameters.  It is read as such, and what is behind
it is the body of the maker.
-/

/-!
## Makers

The text around a function defines its maker and nothing else.  So what is executed to make the
function anew is known step by step: the maker is made, found under its name, and called with the
values of the names.
-/

namespace StagedScript

open Run

/-! ### Plain parameters -/

/-- Parameters that take one argument each and have no default. -/
def Param.plain (δ : Type) (names : List String) : List (Param δ) := names.map (⟨·, .plain none⟩)

theorem Param.names_plain (δ : Type) (names : List String) :
    Param.names (Param.plain δ names) = names := by
  simp [Param.names, Param.plain, Function.comp_def]

theorem Param.filter_isPlain_plain (δ : Type) (names : List String) :
    (Param.plain δ names).filter Param.isPlain = Param.plain δ names := by
  refine List.filter_eq_self.2 fun p hp => ?_
  obtain ⟨name, -, rfl⟩ := List.mem_map.1 hp
  rfl

theorem Run.evalParams_plain (call : Caller) (f : Frame) (names : List String) :
    evalParams call f (Param.plain Expr names) = pure (Param.plain Value names) := by
  induction names with
  | nil => rfl
  | cons name names ih =>
    change (pure (.plain none) >>= fun kind => evalParams call f (Param.plain Expr names) >>=
      fun ps => pure (⟨name, kind⟩ :: ps)) = _
    rw [ih]
    rfl

namespace Function

/-- A function with plain parameters is called with a value for each by its name. -/
theorem bindArguments_plain (f : Function) (vars : Table Value)
    (hparams : f.params = Param.plain Value vars.keys) :
    Run.bindArguments f ⟨[], vars⟩ = pure vars := by
  have hplain : f.plainNames = vars.keys := by
    rw [plainNames, hparams, Param.filter_isPlain_plain, Param.names_plain]
  have hnames (es : List (String × Value)) (hes : ∀ e ∈ es, e.1 ∈ vars.keys) :
      f.checkNames 0 es = .ok () := by
    induction es with
    | nil => rfl
    | cons e es ih =>
      have he : f.plainNames.contains e.1 = true := by
        rw [hplain]
        simpa using hes e (by simp)
      rw [checkNames, List.take_zero, if_neg (by simp), he, Bool.true_or, if_pos rfl]
      exact ih fun e he => hes e (List.mem_cons_of_mem _ he)
  -- The parameters have the names of the values in their order, and none is left for a default.
  have hfillings (es : List (String × Value)) (hes : ∀ e ∈ es, vars.get? e.1 = some e.2) :
      f.fillings ⟨[], vars⟩ (Param.plain Value (Entries.keys es)) [] =
        .ok (es.map fun e => (e.1, .value e.2)) := by
    induction es with
    | nil => rfl
    | cons e es ih =>
      have hvalue : (vars.get? e.1).or none = some e.2 := by rw [hes e (by simp), Option.some_or]
      change f.fillings ⟨[], vars⟩ (⟨e.1, .plain none⟩ :: Param.plain Value (Entries.keys es)) [] =
        _
      unfold fillings
      dsimp only
      rw [hvalue]
      dsimp only
      rw [ih fun e he => hes e (List.mem_cons_of_mem _ he)]
      rfl
  have hplaces : f.checkPlaces 0 = .ok () := by
    rw [checkPlaces, if_pos (by simp)]
  have hall : f.bindArguments ⟨[], vars⟩ = .ok (vars.entries.map fun e => (e.1, .value e.2)) := by
    unfold Function.bindArguments
    rw [hparams, List.length_nil, hplaces, hnames _ fun e he => List.mem_map.2 ⟨e, he, rfl⟩]
    exact hfillings vars.entries fun e he => Table.get?_of_mem he
  have hvalues (es : List (String × Value)) :
      (es.map fun e => (e.1, Filling.value e.2)).mapM (fun e => do
        return (e.1, ← e.2.toValue)) = (pure es : Run (List (String × Value))) := by
    induction es with
    | nil => rfl
    | cons e es ih =>
      rw [List.map_cons, List.mapM_cons, ih]
      rfl
  unfold Run.bindArguments
  rw [hall]
  change ((vars.entries.map fun e => (e.1, Filling.value e.2)).mapM _ >>= fun es =>
    pure (Table.ofList es) : Run (Table Value)) = _
  rw [hvalues, pure_bind, vars.ofList_entries]

end Function

/-! ### The maker -/

/-- The function that makes another one anew, as the definition of it in a script makes it. -/
def Script.maker (script : Script) (globals : NamespaceRef) (names : List String) (span : Span)
    (body : List Stmt) : Function where
  name := SpecializeError.makerName
  definition := ⟨SpecializeError.makerName, [], Param.plain Expr names, body⟩
  params := Param.plain Value names
  globals := globals
  captured := .empty
  origin := ⟨script.source, script.lineOffset, span⟩

/-- The store with a maker that is bound to its name in a namespace of its own. -/
def Store.withMaker (s : Store) (maker : Function) : Store :=
  ((s.newNamespace .empty).2.newFunction maker).2.bind ⟨s.namespaces.size⟩
    SpecializeError.makerName (.function ⟨s.functions.size⟩)

/-- The maker is the one further function. -/
theorem Store.getFunction?_withMaker (s : Store) (maker : Function) (r : FunctionRef) :
    (s.withMaker maker).getFunction? r =
      if r.index = s.functions.size then some maker else s.getFunction? r := by
  simp [Store.withMaker, Store.bind, Store.modifyBindings, Store.newFunction, Store.newNamespace,
    Store.getFunction?, Array.getElem?_push]

/-- The statement that defines a maker for names, and that alone, is what the script has. -/
def Script.DefinesMaker (script : Script) (names : List String) (span : Span) (body : List Stmt) :
    Prop := script.body = [.define span SpecializeError.makerName [] (Param.plain Expr names) body]

/-- Executing the definition of a maker makes it and binds it to its name. -/
theorem Program.execute_maker (call : Caller) (rounds : Nat) (p : Program) {names : List String}
    {span : Span} {body : List Stmt} (hp : p.DefinesMaker names span body) (globals : NamespaceRef)
    (s : Store) :
    p.execute call rounds globals (some ⟨s.namespaces.size⟩) (s.newNamespace .empty).2 =
      .ok () (s.withMaker (p.maker globals names span body)) := by
  unfold Program.execute Run.execTop
  rw [hp]
  unfold Run.execAll Run.exec Run.define
  rw [Run.evalAll, pure_bind]
  dsimp only
  rw [Run.evalParams_plain, pure_bind]
  rfl

theorem Store.get?_bindings_withMaker (s : Store) (maker : Function) :
    ((s.withMaker maker).bindings ⟨s.namespaces.size⟩).get? SpecializeError.makerName =
      some (.function ⟨s.functions.size⟩) :=
  Store.get?_bindings_bind _ _ (by simp [Store.newFunction, Store.newNamespace])

/-- A function is made anew by its maker, unless control statements are misplaced. -/
theorem Closure.make_eq (call : Caller) (rounds : Nat) {c : Closure} {script : Script}
    (hscript : c.unrolled = .ok script) {span : Span} {body : List Stmt}
    (hbody : script.DefinesMaker c.vars.keys span body) (s : Store) :
    c.make call rounds s = match Stmt.misplacedIn? .function body with
      | none => Specialize.ofRun (call (.function ⟨s.functions.size⟩) ⟨[], c.vars⟩)
          (s.withMaker (script.maker c.function.globals c.vars.keys span body))
      | some (at_, what) => .error (.compile ⟨script.location at_, .misplaced what, 0⟩) s := by
  -- The body of the maker is all that control statements can be misplaced in.
  have hmisplaced : script.misplaced? = Stmt.misplacedIn? .function body := by
    rw [Script.misplaced?, hbody, Stmt.misplacedIn?, Stmt.misplaced?, Stmt.misplacedIn?]
    exact Option.or_none
  unfold Closure.make
  rw [hscript]
  cases hplaced : Stmt.misplacedIn? .function body with
  | none =>
    change (Specialize.ofExcept .compile (Program.ofScript script script.source.label) >>= _) s = _
    rw [Program.ofScript_of_placed (hmisplaced.trans hplaced)]
    have hexecuted : Specialize.ofRun (Program.execute call rounds
        ⟨script, hmisplaced.trans hplaced⟩ c.function.globals (some ⟨s.namespaces.size⟩))
        (s.newNamespace .empty).2 =
          .ok () (s.withMaker (script.maker c.function.globals c.vars.keys span body)) := by
      unfold Specialize.ofRun
      rw [Program.execute_maker call rounds ⟨script, hmisplaced.trans hplaced⟩ hbody]
    have hviewed (t : Store) : Specialize.ofRun (Run.view (·.bindings ⟨s.namespaces.size⟩)) t =
        .ok (t.bindings ⟨s.namespaces.size⟩) t := rfl
    refine (EStateM.bind_ok hexecuted).trans ((EStateM.bind_ok (hviewed _)).trans ?_)
    rw [s.get?_bindings_withMaker]
  | some what =>
    obtain ⟨at_, what⟩ := what
    change (Specialize.ofExcept .compile (Program.ofScript script script.source.label) >>= _) s = _
    rw [Program.ofScript_of_misplaced (hmisplaced.trans hplaced)]
    rfl

open Parse

/-! ## Reading parameters -/

section

variable {c c' : Cursor} {ks : List Token.Kind}

/-- The tokens of plain parameters. -/
def Param.words (names : List String) : List Token.Kind :=
  withCommas (fun x => [Token.Kind.ident x]) names

theorem Param.mem_words {names : List String} {k : Token.Kind} (hk : k ∈ words names) :
    k = .symbol .comma ∨ ∃ x, k = .ident x := by
  induction names with
  | nil => cases hk
  | cons x names ih =>
    by_cases hne : names = []
    · subst hne
      exact .inr ⟨x, List.mem_singleton.1 hk⟩
    · rw [words, withCommas_cons _ _ hne] at hk
      rcases List.mem_append.1 hk with hk | hk
      · exact .inr ⟨x, List.mem_singleton.1 hk⟩
      · rcases List.mem_cons.1 hk with rfl | hk
        · exact .inl rfl
        · exact ih hk

theorem Param.any_plain {p : Param Expr → Bool} {names : List String}
    (hp : ∀ x, p ⟨x, .plain none⟩ = false) : (Param.plain Expr names).any p = false := by
  rw [plain, List.any_map, List.any_eq_false]
  intro x _
  rw [Function.comp_apply, hp]
  exact Bool.false_ne_true

theorem Yields.param {before : List String} {x : String} {k : Token.Kind} (hx : x ∉ before)
    (hc : c.ahead = .ident x :: k :: ks) (hk : k.alike (.symbol .assign) = false) :
    Yields (Parse.param (Param.plain Expr before)) c (· = ⟨x, .plain none⟩) (k :: ks) := by
  have hnew : (Param.plain Expr before).any (·.name == x) = false := by
    rw [Param.plain, List.any_map, List.any_eq_false]
    rintro y hy h
    exact hx (eq_of_beq h ▸ hy)
  have hstarStar : (Param.plain Expr before).any Param.isStarStar = false :=
    Param.any_plain fun _ => rfl
  have hstar : (Param.plain Expr before).any Param.isStar = false := Param.any_plain fun _ => rfl
  have hdefault : (Param.plain Expr before).any (·.default?.isSome) = false :=
    Param.any_plain fun _ => rfl
  unfold Parse.param
  refine .here fun span => ?_
  simp only [hstarStar, hstar, hdefault, Bool.false_eq_true, if_false]
  refine .reject hc rfl (.reject hc rfl (.name hc fun c₁ hc₁ => .reject hc₁ hk ?_))
  simp only [Bool.false_eq_true, if_false, pure_bind, hnew]
  exact .pure rfl hc₁

theorem Yields.params {before names : List String} (hnames : (before ++ names).Nodup) {n : Nat}
    (hn : names.length < n) (hc : c.ahead = Param.words names ++ .symbol .closeParen :: ks) :
    Yields (Parse.params n (Param.plain Expr before)) c (· = Param.plain Expr (before ++ names))
      (.symbol .closeParen :: ks) := by
  induction names generalizing before n c with
  | nil =>
    obtain ⟨n, rfl⟩ : ∃ m, n = m + 1 := ⟨n - 1, by omega⟩
    unfold Parse.params
    refine .sees hc ?_
    rw [if_pos (by rfl), List.append_nil]
    exact .pure rfl hc
  | cons x names ih =>
    obtain ⟨n, rfl⟩ : ∃ m, n = m + 1 := ⟨n - 1, by omega⟩
    have hx : x ∉ before := fun hx => by
      rw [List.nodup_append] at hnames
      exact hnames.2.2 x hx x (by simp) rfl
    have hplain : Param.plain Expr before ++ [⟨x, .plain none⟩] =
        Param.plain Expr (before ++ [x]) := by
      simp [Param.plain]
    unfold Parse.params
    cases names with
    | nil =>
      have hc' : c.ahead = .ident x :: .symbol .closeParen :: ks := hc
      refine .sees hc' ?_
      rw [if_neg (by simp [Token.Kind.alike])]
      refine (Yields.param hx hc' rfl).bind fun p c₁ hp hc₁ => .reject hc₁ rfl ?_
      rw [if_neg Bool.false_ne_true, hp, hplain]
      exact .pure rfl hc₁
    | cons y ys =>
      have hc' : c.ahead = .ident x :: .symbol .comma ::
          (Param.words (y :: ys) ++ .symbol .closeParen :: ks) := hc
      refine .sees hc' ?_
      rw [if_neg (by simp [Token.Kind.alike])]
      refine (Yields.param hx hc' rfl).bind fun p c₁ hp hc₁ => .accept hc₁ rfl (by simp)
        fun c₂ hc₂ => ?_
      rw [if_pos rfl, hp, hplain]
      have hnames' : (before ++ [x] ++ y :: ys).Nodup := by simpa using hnames
      have hrest := ih hnames' (n := n) (by simp only [List.length_cons] at hn ⊢; omega) hc₂
      rwa [List.append_assoc] at hrest

/-! ## Reading the definition -/

/-- The tokens say where a block ends. -/
theorem Parse.block_eq_ok {sub : Parse (List Stmt)} (hsub : ∀ c, Consumes .balanced sub c)
    {body : List Stmt} {rest : List Token.Kind} (hks : Token.Balanced ks)
    (hc : c.ahead = .symbol .colon :: .newline :: .indent :: (ks ++ .dedent :: rest))
    (h : block sub c = .ok body c') : c'.ahead = rest := by
  unfold block at h
  obtain ⟨_, c₁, -, hc₁, h⟩ := (Yields.expected hc rfl (by simp)).of_bind h
  obtain ⟨_, c₂, rfl, hc₂, h⟩ := (Yields.accepted hc₁ rfl (by simp)).of_bind h
  rw [if_pos rfl] at h
  unfold Parse.accept at h
  rw [bind_assoc] at h
  obtain ⟨b, _, hsees, h⟩ := EStateM.bind_eq_ok.1 h
  cases hsees
  rw [Cursor.sees_of_ahead hc₂] at h
  have hbody (c : Cursor) : Consumes .balanced (do blockBody sub (← rounds)) c :=
    .rounds fun n => consumes_blockBody hsub n c
  obtain ⟨used, hused, hbalanced⟩ := indented_eq_ok hbody (Cursor.kind_of_ahead hc₂) h
  have hahead := hc₂.symm.trans hused
  rw [List.cons_inj_right] at hahead
  obtain rfl := hks.unique hbalanced hahead
  exact (List.cons.inj (List.append_cancel_left hahead)).2.symm

/-- A block needs lines. -/
theorem Parse.block_ne_ok {sub : Parse (List Stmt)} {body : List Stmt}
    (hc : c.ahead = .symbol .colon :: .newline :: .eof :: ks) (h : block sub c = .ok body c') :
    False := by
  unfold block at h
  obtain ⟨_, c₁, -, hc₁, h⟩ := (Yields.expected hc rfl (by simp)).of_bind h
  obtain ⟨_, c₂, rfl, hc₂, h⟩ := (Yields.accepted hc₁ rfl (by simp)).of_bind h
  rw [if_pos rfl] at h
  unfold Parse.accept at h
  rw [bind_assoc] at h
  obtain ⟨b, _, hsees, h⟩ := EStateM.bind_eq_ok.1 h
  cases hsees
  rw [Cursor.sees_of_ahead hc₂] at h
  cases h

/-- A function with plain parameters is defined by its header and its body. -/
theorem Parse.definition_eq_ok {sub : Parse (List Stmt)} {x : String} {names : List String}
    {s : Stmt} (hnames : names.Nodup)
    (hc : c.ahead = .keyword .def_ :: .ident x :: .symbol .openParen ::
      (Param.words names ++ .symbol .closeParen :: ks))
    (h : definition sub c = .ok s c') :
    ∃ span body c₁, c₁.ahead = ks ∧ block sub c₁ = .ok body c' ∧
      s = .define span x [] (Param.plain Expr names) body := by
  unfold definition at h
  obtain ⟨_, _, hhere, h⟩ := EStateM.bind_eq_ok.1 h
  cases hhere
  obtain ⟨n, _, hrounds, h⟩ := EStateM.bind_eq_ok.1 h
  cases hrounds
  obtain ⟨ds, c₁, rfl, hc₁, h⟩ := (Yields.noDecorators hc rfl _).of_bind h
  obtain ⟨b, _, hsees, h⟩ := EStateM.bind_eq_ok.1 h
  cases hsees
  rw [Cursor.sees_of_ahead hc₁] at h
  obtain ⟨_, c₂, hadvance, h⟩ := EStateM.bind_eq_ok.1 h
  cases hadvance
  have hc₂ := Cursor.ahead_advance hc₁ (by simp)
  obtain ⟨_, c₃, rfl, hc₃, h⟩ := (Yields.named hc₂).of_bind h
  obtain ⟨_, c₄, -, hc₄, h⟩ := (Yields.expected hc₃ rfl (by simp)).of_bind h
  obtain ⟨n, _, hrounds, h⟩ := EStateM.bind_eq_ok.1 h
  cases hrounds
  -- There are at least as many tokens ahead as parameters, so the reader has rounds enough.
  have hn : names.length < c₄.bound + 1 := by
    have hwords : names.length ≤ (Param.words names).length :=
      length_le_withCommas _ names fun _ _ => by simp
    have hlength := c₄.length_ahead_le
    rw [hc₄, List.length_append] at hlength
    omega
  have hnames' : ([] ++ names).Nodup := by simpa using hnames
  have hparams := Yields.params hnames' hn hc₄
  obtain ⟨ps, c₅, rfl, hc₅, h⟩ := hparams.of_bind h
  obtain ⟨_, c₆, -, hc₆, h⟩ := (Yields.expected hc₅ rfl (by simp)).of_bind h
  obtain ⟨body, c₇, hblock, h⟩ := EStateM.bind_eq_ok.1 h
  cases h
  exact ⟨_, body, c₆, hc₆, hblock, rfl⟩

/-- A statement that starts with the keyword of a definition is one. -/
theorem Parse.stmtWithin_eq_definition {depth : Nat} {ss : List Stmt}
    (hc : c.ahead = .keyword .def_ :: ks) (h : stmtWithin depth c = .ok ss c') :
    ∃ d s, depth = d + 1 ∧ ss = [s] ∧ definition (stmtWithin d) c = .ok s c' := by
  cases depth with
  | zero => cases h
  | succ d =>
    unfold stmtWithin at h
    obtain ⟨_, _, hget, h⟩ := EStateM.bind_eq_ok.1 h
    cases hget
    rw [Cursor.kind_of_ahead hc] at h
    obtain ⟨s, _, hs, h⟩ := EStateM.bind_eq_ok.1 h
    cases h
    exact ⟨d, s, rfl, rfl, hs⟩

end

/-! ## The text of the header -/

namespace Maker

/-- The pieces of the header. -/
def header (names : List String) : List Piece :=
  Piece.word [] "def" :: Piece.word [' '] SpecializeError.makerName ::
    ((Piece.symbol [] .openParen ::
      (Piece.list (fun gap x => [Piece.word gap x]) names ++ [Piece.symbol [] .closeParen])) ++
      [Piece.symbol [] .colon])

variable {names : List String}

theorem kinds_header (hnames : ∀ x ∈ names, Word.isName x = true) :
    (header names).map Piece.kind = .keyword .def_ :: .ident SpecializeError.makerName ::
      .symbol .openParen :: (Param.words names ++ [.symbol .closeParen, .symbol .colon]) := by
  have hlist : (Piece.list (fun gap x => [Piece.word gap x]) names).map Piece.kind =
      withCommas (fun x => [.ident x]) names :=
    Piece.kinds_list fun _ x hx => congrArg (fun k => [k]) (Word.kind_of_isName (hnames x hx))
  simp only [header, List.map_cons, List.map_append, hlist]
  simp [Param.words, Piece.word, Piece.symbol, Word.kind_of_isName (show Word.isName
    SpecializeError.makerName = true by decide), show Word.kind "def" = .keyword .def_ from rfl]

theorem text_header : Piece.text (header names) =
    ("def " ++ SpecializeError.makerName ++ "(" ++ ", ".intercalate names ++ "):").toList := by
  have hlist : Piece.text (Piece.list (fun gap x => [Piece.word gap x]) names) =
      (", ".intercalate names).toList := by
    have hword (gap : List Char) (x : String) (_ : x ∈ names) :
        Piece.text [Piece.word gap x] = gap ++ (id x).toList := by simp [Piece.text, Piece.word]
    rw [Piece.text_list hword, List.map_id, Shape.commas]
  simp only [header, Piece.text, Piece.text_append, hlist]
  simp [Piece.word, Piece.symbol, Symbol.chars]

theorem isLine_header (hnames : ∀ x ∈ names, Word.isName x = true) :
    Piece.IsLine [] (header names) where
  fit rest _ := by
    have hwords (x : String) (hx : x ∈ names) := (Bool.and_eq_true_iff.1 (hnames x hx)).1
    have hclose (rest : List Char) : Piece.Fit [Piece.symbol [] .closeParen] rest :=
      ⟨Piece.fits_symbol Piece.blanks_none rfl, trivial⟩
    have hlist : Piece.Fit (Piece.list (fun gap x => [Piece.word gap x]) names)
        (')' :: ':' :: rest) :=
      Piece.fit_list rfl (fun x hx _ _ hgap hrest =>
        ⟨Piece.fits_word (hwords x hx) hgap hrest, trivial⟩) (.cons rfl)
    refine ⟨Piece.fits_word rfl Piece.blanks_none (.cons rfl),
      Piece.fits_word rfl Piece.blanks_one (.cons rfl), Piece.Fit.append ?_
        ⟨Piece.fits_symbol Piece.blanks_none rfl, trivial⟩⟩
    exact ⟨Piece.fits_symbol Piece.blanks_none rfl, hlist.append (hclose _)⟩
  first := by
    refine ⟨_, _, rfl, rfl, (Layout.Inside.kind_word "def").1,
      (Layout.Inside.kind_word "def").2, ?_⟩
    have hparens : Layout.Inside 0 (Piece.symbol [] .openParen ::
        (Piece.list (fun gap x => [Piece.word gap x]) names ++ [Piece.symbol [] .closeParen])) 0 :=
      .brackets rfl rfl (.list fun gap x _ => .word gap x)
    exact (Layout.Inside.word _ _).append (hparens.append (.symbol _ ⟨rfl, rfl⟩))

/-! ## Scripts of a maker -/

/-- The statement that the header of a maker starts is its definition. -/
theorem stmt_eq_ok {c c' : Cursor} {ss : List Stmt} {ks : List Token.Kind} (hnames : names.Nodup)
    (hc : c.ahead = .keyword .def_ :: .ident SpecializeError.makerName :: .symbol .openParen ::
      (Param.words names ++ .symbol .closeParen :: ks))
    (h : Parse.stmt c = .ok ss c') : ∃ span body depth c₁, c₁.ahead = ks ∧
      block (stmtWithin depth) c₁ = .ok body c' ∧
      ss = [.define span SpecializeError.makerName [] (Param.plain Expr names) body] := by
  unfold Parse.stmt at h
  obtain ⟨_, _, hrounds, h⟩ := EStateM.bind_eq_ok.1 h
  cases hrounds
  obtain ⟨depth, s, -, rfl, hs⟩ := stmtWithin_eq_definition hc h
  obtain ⟨span, body, c₁, hc₁, hblock, rfl⟩ := definition_eq_ok hnames hc hs
  exact ⟨span, body, depth, c₁, hc₁, hblock, rfl⟩

/-- A text of the header and lines with a margin below it is the definition of a maker. -/
theorem definesMaker_of_parse (hnodup : names.Nodup) (hnames : ∀ x ∈ names, Word.isName x = true)
    {width : Nat} (hwidth : 0 < width) {rest : List Char}
    (hmargin : List.replicate width ' ' <+: rest) (hangs : Hangs width rest) {text label : String}
    (htext : text.toList = Piece.text (header names) ++ '\n' :: rest) {script : Script}
    (h : Script.parse text label = .ok script) :
    ∃ span body, script.DefinesMaker names span body := by
  obtain ⟨herrors, hparsed, -⟩ := (Script.parse_eq_ok script).1 h
  rw [htext] at herrors hparsed
  have htokens := Lexed.ofText_hanging (isLine_header hnames) hwidth hmargin hangs herrors
  rw [kinds_header hnames] at htokens
  obtain ⟨ks, hkinds, hends⟩ : ∃ ks : List Token.Kind,
      (Lexed.ofText (Piece.text (header names) ++ '\n' :: rest)).tokens.map Token.kind =
        .keyword .def_ :: .ident SpecializeError.makerName :: .symbol .openParen ::
          (Param.words names ++ .symbol .closeParen :: ks) ∧
      ∀ c c' : Cursor, ∀ depth body, c.ahead = ks →
        block (stmtWithin depth) c = .ok body c' → c'.ahead = [.eof] := by
    -- Below the header there is nothing, which is no block, or one block up to the end.
    rcases htokens with htokens | ⟨ks, htokens, hks⟩
    · refine ⟨[.symbol .colon, .newline, .eof], by rw [htokens]; simp,
        fun c c' depth body hc hblock => ?_⟩
      exact (block_ne_ok hc hblock).elim
    · refine ⟨.symbol .colon :: .newline :: .indent :: (ks ++ [.dedent, .eof]),
        by rw [htokens]; simp, fun c c' depth body hc hblock => ?_⟩
      exact block_eq_ok (consumes_stmtWithin depth) hks hc hblock
  obtain ⟨c, c', hc, hss⟩ := Parsed.stmt_of_ofTokens (Lexed.kind_getLast? _) rfl rfl
    hkinds hparsed fun c c' ss hc hss => by
      obtain ⟨-, body, depth, c₁, hc₁, hblock, -⟩ :=
        stmt_eq_ok hnodup (Cursor.ahead_of_rest hc hkinds) hss
      exact hends c₁ c' depth body hc₁ hblock
  obtain ⟨span, body, -, -, -, -, hbody⟩ := stmt_eq_ok hnodup (Cursor.ahead_of_rest hc hkinds) hss
  exact ⟨span, body, hbody⟩

end Maker

end StagedScript
