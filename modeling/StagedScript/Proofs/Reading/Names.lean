import StagedScript.Proofs.Closures
import StagedScript.Proofs.Parsing.Named
import StagedScript.Proofs.Reading.Tiling
import StagedScript.Proofs.Records.Defined
import StagedScript.Proofs.Specializing.Reported

/-!
# Names and reserved words as texts

A text can stand as a name if and only if it is read as that name alone, and it is a reserved word
if and only if it is read as one word that is none.  So a name that is accepted for a record type,
for a field or for a value is the same name where it is written into a text.
-/

namespace StagedScript

namespace Word

/-- A text is read as one name: alone, and in front of anything that does not make a longer word of
it. -/
structure ReadsBack (x : String) : Prop where
  alone : (Lexed.ofText x.toList).errors = [] ∧
    (Lexed.ofText x.toList).tokens.map Token.kind = [.ident x, .newline, .eof]
  within : ∀ (start room : Nat) (rest : List Char), Without isPart rest →
    let stop := start + Text.byteLength x.toList
    let behind := Token.scanFrom stop (room + 1) rest
    Token.scanFrom start (room + 1) (x.toList ++ rest) =
      (⟨.ident x, ⟨start, stop⟩⟩ :: behind.1, behind.2)

/-! ## Words -/

theorem isIdentifier_of_isReserved {w : String} (h : isReserved w = true) :
    isIdentifier w = true := by
  have hall : ∀ x ∈ reserved, isIdentifier x = true := by decide +kernel
  exact hall w (List.contains_iff_mem.1 h)

theorem kind_of_isReserved {w : String} (h : isReserved w = true) :
    (∃ k, kind w = .keyword k) ∨ kind w = .reserved w := by
  unfold kind
  split
  · exact .inl ⟨_, rfl⟩
  · rw [if_pos h]
    exact .inr rfl

theorem kind_cases (w : String) :
    kind w = .ident w ∨ (∃ k, kind w = .keyword k) ∨ kind w = .reserved w := by
  unfold kind
  split
  · exact .inr (.inl ⟨_, rfl⟩)
  · split
    · exact .inr (.inr rfl)
    · exact .inl rfl

/-- What is read as a reserved word is one. -/
theorem isReserved_of_kind {word w : String} (h : kind word = .reserved w) :
    isReserved w = true := by
  unfold kind at h
  split at h
  · cases h
  · split at h
    · next hword =>
      cases h
      exact hword
    · cases h

/-- The tokens of a text that is one word. -/
theorem ofText_eq {w : String} (h : isIdentifier w = true) : Lexed.ofText w.toList =
    let stop := Text.byteLength w.toList
    ⟨[⟨kind w, ⟨0, stop⟩⟩, Layout.mark .newline stop, Layout.mark .eof stop], []⟩ := by
  have hread : Piece.Read [Piece.word [] w] [] := ⟨Piece.fits_word h (by simp) .nil, .nil⟩
  have htext := Lexed.ofText_text hread
  simp only [Piece.text, Piece.word, List.nil_append, List.append_nil] at htext
  rw [htext]
  -- No word opens or closes a bracket.
  obtain hk | ⟨k, hk⟩ | hk := kind_cases w
  all_goals
    simp only [Layout.through, Text.byteLength, Nat.zero_add, hk]
    rfl

/-- A name that is accepted is read back. -/
theorem readsBack_of_isName {x : String} (h : isName x = true) : ReadsBack x := by
  have hword := isIdentifier_of_isName h
  have hkind := kind_of_isName h
  refine ⟨?_, fun start room rest hrest => ?_⟩
  · rw [ofText_eq hword, hkind]
    exact ⟨rfl, rfl⟩
  · have hfits : (Piece.word [] x).Fits rest := Piece.fits_word hword (by simp) hrest
    obtain ⟨-, c, cs, hchars, hread⟩ := hfits
    have hchars : x.toList = c :: cs := hchars
    have hread : Lexeme.read c (cs ++ rest) = (.token (kind x), cs.length) := hread
    rw [hkind] at hread
    rw [hchars, List.cons_append, Token.scanFrom_token hread, List.take_left, List.drop_left]

/-- A text is read as one name if and only if it is an identifier that is not reserved. -/
theorem isName_iff_tokens (w : String) : isIdentifier w = true ∧ isReserved w = false ↔
    (Lexed.ofText w.toList).errors = [] ∧
      (Lexed.ofText w.toList).tokens.map Token.kind = [.ident w, .newline, .eof] := by
  constructor
  · rintro ⟨hword, hreserved⟩
    exact (readsBack_of_isName (by rw [isName, hword, hreserved]; rfl)).alone
  · rintro ⟨herrors, hkinds⟩
    obtain ⟨t, ht, hk⟩ : ∃ t ∈ (Lexed.ofText w.toList).tokens, t.kind = .ident w :=
      List.mem_map.1 (hkinds ▸ List.mem_cons_self)
    have hname := Lexed.isName_ofText herrors ht hk
    simpa [isName] using hname

/-- A text is read as one word that is not a name if and only if it is reserved. -/
theorem isReserved_iff_tokens (w : String) : isReserved w = true ↔
    (Lexed.ofText w.toList).errors = [] ∧ ∃ t,
      (Lexed.ofText w.toList).tokens.filter Layout.isInner = [t] ∧
        t.span = ⟨0, Text.byteLength w.toList⟩ ∧
        ((∃ k, t.kind = .keyword k) ∨ t.kind = .reserved w) := by
  constructor
  · intro h
    rw [ofText_eq (isIdentifier_of_isReserved h)]
    refine ⟨rfl, ⟨kind w, ⟨0, Text.byteLength w.toList⟩⟩, ?_, rfl, kind_of_isReserved h⟩
    obtain ⟨k, hk⟩ | hk := kind_of_isReserved h
    all_goals
      rw [hk]
      rfl
  · rintro ⟨herrors, t, hwords, hspan, hkind⟩
    obtain ⟨ht, hinner⟩ := List.mem_filter.1 (hwords ▸ List.mem_singleton_self t)
    rcases hkind with ⟨k, hk⟩ | hk
    · obtain ⟨ps, tail, htext, hread, hplace⟩ := Lexed.exists_pieces herrors ht hinner
      obtain ⟨htokens, -⟩ := hread.tile []
      obtain ⟨-, -, -, chars, hslice, hspelled⟩ := htokens t hplace
      have hwhole := Text.slice?_append [] w.toList []
      rw [List.nil_append, ← htext, hspan] at hslice
      simp only [Text.byteLength, Nat.zero_add, List.nil_append, List.append_nil] at hwhole
      rw [hwhole] at hslice
      rw [hk] at hspelled
      have hchars : w.toList = k.text.toList := (Option.some.inj hslice).trans hspelled
      rw [String.toList_injective hchars]
      exact isReserved_text k
    · obtain ⟨word, -, hword⟩ := Lexed.word_ofText herrors ht (by rw [hk]; rfl)
      exact isReserved_of_kind (hword.trans hk)

end Word

/-! ## Names that are accepted -/

theorem Fields.isName_rename (names : List String) : ∀ x ∈ rename names, Word.isName x = true := by
  intro x hx
  obtain ⟨i, hi⟩ := List.mem_iff_getElem?.1 hx
  rw [getElem?_rename] at hi
  obtain ⟨y, -, rfl⟩ := Option.map_eq_some_iff.1 hi
  split
  · next h =>
    have hvalid := h.1
    rw [isValid, Bool.and_eq_true] at hvalid
    exact hvalid.1
  · exact isName_numbered i

/-- The names that a record type is defined with are accepted. -/
theorem Define.isName_of_define {host : Host} {fuel : Nat} {options : DefineOptions} {name : String}
    {names : List String} {s s' : Store} {r : RecordTypeRef}
    (h : define host fuel options name names s = .ok r s') :
    ∀ x ∈ name :: if options.rename then Fields.rename names else names, Word.isName x = true := by
  cases hvalid : Fields.fault? name (if options.rename then Fields.rename names else names)
      options.rename with
  | none => exact (Fields.fault?_eq_none_iff.1 hvalid).1
  | some what =>
    unfold define at h
    dsimp only at h
    rw [hvalid] at h
    cases h

theorem Closure.isName_of_mem_given {v : Value} {given : Table Value} {s s' : Store} {c : Closure}
    (h : ofFunction v given s = .ok c s') : ∀ x ∈ given.keys, Word.isName x = true := by
  obtain ⟨counted, passing, s₁, hcounted, -⟩ := vars_of_ofFunction h
  intro x hx
  obtain ⟨e, he, rfl⟩ := List.mem_map.1 hx
  exact forall_isName_of_fixedAll hcounted e he

/-- The texts that can stand as names are those that are read as one name, and the reserved words
are those that are read as one other word.  So the names with which a record type is defined, those
that renaming gives, and those that are given for a closure, are read as themselves. -/
theorem Word.reads_back :
    (∀ w, isIdentifier w = true ∧ isReserved w = false ↔ (Lexed.ofText w.toList).errors = [] ∧
      (Lexed.ofText w.toList).tokens.map Token.kind = [.ident w, .newline, .eof]) ∧
    (∀ w, isReserved w = true ↔ (Lexed.ofText w.toList).errors = [] ∧ ∃ t,
      (Lexed.ofText w.toList).tokens.filter Layout.isInner = [t] ∧
        t.span = ⟨0, Text.byteLength w.toList⟩ ∧
        ((∃ k, t.kind = .keyword k) ∨ t.kind = .reserved w)) ∧
    (∀ host fuel options name names s r s',
      Define.define host fuel options name names s = .ok r s' →
        ∀ x ∈ name :: if options.rename then Fields.rename names else names, ReadsBack x) ∧
    (∀ names, ∀ x ∈ Fields.rename names, ReadsBack x) ∧
    ∀ v given s c s', Closure.ofFunction v given s = .ok c s' → ∀ x ∈ given.keys, ReadsBack x := by
  refine ⟨isName_iff_tokens, isReserved_iff_tokens, ?_, ?_, ?_⟩
  · intro host fuel options name names s r s' h x hx
    exact readsBack_of_isName (Define.isName_of_define h x hx)
  · exact fun names x hx => readsBack_of_isName (Fields.isName_rename names x hx)
  · intro v given s c s' h x hx
    exact readsBack_of_isName (Closure.isName_of_mem_given h x hx)

/-- A word that starts with a reserved one is a name; of the names of fields, the reserved one is
replaced. -/
theorem Word.samples_read_back : isName "iff" = true ∧ isReserved "lambda" = true ∧
    (∃ r s', Define.define .probe 1 ⟨false, true, true⟩ "P" ["abc", "lambda"] .empty = .ok r s') ∧
    (∃ c s', Closure.ofFunction (.function ⟨0⟩) (.ofList [("iff", .bool true)]) sampleBehind =
      .ok c s') ∧
    (Lexed.ofText "iff".toList).tokens.map Token.kind = [.ident "iff", .newline, .eof] ∧
    (Lexed.ofText "lambda".toList).errors = [] ∧
    ReadsBack "P" ∧ ReadsBack "abc" ∧ ReadsBack "_1" ∧ ReadsBack "iff" := by
  have hreserved : isReserved "lambda" = true := by decide
  have hrename : Fields.rename ["abc", "lambda"] = ["abc", "_1"] := by decide +kernel
  have hfew : ["abc", "lambda"].length < 2 ^ 63 := by decide
  have hfault : Fields.fault? "P" (Fields.rename ["abc", "lambda"]) true = none := by decide +kernel
  obtain ⟨r, s', hdefine, -⟩ :=
    RecordType.define_ok .probe Nat.one_pos ⟨false, true, true⟩ (if_pos rfl).symm hfew hfault .empty
  have hgiven : ((Closure.ofFunction (.function ⟨0⟩) (.ofList [("iff", .bool true)])).run'
      sampleBehind).isSome = true := by decide +kernel
  obtain ⟨c, s'', hclosure⟩ := EStateM.exists_of_isSome hgiven
  obtain ⟨hnames, hwords, hdefined, hrenamed, hclosed⟩ := reads_back
  have hfields := hdefined _ _ _ _ _ _ _ _ hdefine
  exact ⟨by decide, hreserved, ⟨r, s', hdefine⟩, ⟨c, s'', hclosure⟩,
    ((hnames "iff").1 (by decide)).2, ((hwords "lambda").1 hreserved).1,
    hfields "P" (by simp), hfields "abc" (by simp [hrename]),
    hrenamed ["abc", "lambda"] "_1" (by simp [hrename]),
    hclosed _ _ _ _ _ hclosure "iff" (by decide)⟩

end StagedScript
