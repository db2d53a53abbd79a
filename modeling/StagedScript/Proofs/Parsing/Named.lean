import StagedScript.Proofs.Parsing.Formed
import StagedScript.Proofs.Parsing.Nested
import StagedScript.Proofs.Reading.Reread

/-!
# The names in a tree

Every name in a tree that has been read from a text is a word of the text that can stand as a name.
-/

namespace StagedScript

/-- All of these can stand as names. -/
def Word.AllNames (xs : List String) : Prop := ∀ x ∈ xs, isName x = true

open Word (AllNames)

theorem Word.isName_of_kind {word x : String} (hword : isIdentifier word = true)
    (h : kind word = .ident x) : isName x = true := by
  unfold kind at h
  cases hkeyword : Keyword.ofText? word with
  | some k =>
    rw [hkeyword] at h
    cases h
  | none =>
    rw [hkeyword] at h
    dsimp only at h
    split at h
    · cases h
    · next hreserved =>
      cases h
      simp only [isName, hword, hreserved, Bool.not_false, Bool.and_self]

/-- Whether a kind is one of those that words are read as. -/
def Token.Kind.isVerbal : Token.Kind → Bool
  | .ident _ | .keyword _ | .reserved _ => true
  | _ => false

/-- The tokens of words are read from words. -/
theorem Lexeme.word_of_read {c : Char} {cs : List Char} {k : Token.Kind} {n : Nat}
    (hk : k.isVerbal = true) (h : read c cs = (.token k, n)) :
    ∃ word, Word.isIdentifier word = true ∧ Word.kind word = k := by
  rcases plain_of_token h with rfl | ⟨rfl, more, rfl⟩ | hplain
  · cases h
    cases hk
  · cases h
    cases hk
  rw [read_plain hplain] at h
  split at h
  · next hstart =>
    refine ⟨_, ?_, Lexeme.token.inj (Prod.mk.inj h).1⟩
    simp only [Word.isIdentifier, String.toList_ofList, hstart, List.all_takeWhile, Bool.and_self]
  split at h
  · unfold number at h
    dsimp only at h
    split at h
    · next k hkind =>
      cases h
      generalize Numeral.literal (c :: cs) = l at hkind
      obtain ⟨l, m⟩ := l
      cases l with
      | int radix digits =>
        obtain ⟨_, -, rfl⟩ := Option.map_eq_some_iff.1 hkind
        cases hk
      | float parts =>
        cases hkind
        cases hk
    · cases h
  split at h
  · unfold quoted at h
    split at h
    · cases h
      cases hk
    · cases h
  · unfold symbol at h
    split at h
    · cases h
      cases hk
    · cases h

/-- The tokens of pieces are read from their characters. -/
theorem Piece.Read.exists_read {ps : List Piece} {tail : List Char} (h : Read ps tail) {start : Nat}
    {t : Token} (ht : t ∈ place start ps) : ∃ c cs n, Lexeme.read c cs = (.token t.kind, n) := by
  induction ps generalizing start with
  | nil => cases ht
  | cons p ps ih =>
    rcases List.mem_cons.1 ht with rfl | ht
    · obtain ⟨c, cs, -, hread⟩ := h.1.token
      exact ⟨c, _, _, hread⟩
    · exact ih h.2 ht

/-- The tokens of a text that are no marks of its layout are those of its pieces. -/
theorem Lexed.exists_pieces {text : List Char} (herrors : (ofText text).errors = []) {t : Token}
    (ht : t ∈ (ofText text).tokens) (hinner : Layout.isInner t = true) :
    ∃ ps tail, text = Piece.text ps ++ tail ∧ Piece.Read ps tail ∧ t ∈ Piece.place 0 ps := by
  have hword : t ∈ (ofText text).tokens.filter Layout.isInner := List.mem_filter.2 ⟨ht, hinner⟩
  rw [Layout.filter_isInner_ofText] at hword
  have hscan : (Token.scan text).2 = [] := (List.append_eq_nil_iff.1 herrors).1
  obtain ⟨ps, tail, htext, hread, htokens⟩ := Token.pieces_of_scanFrom (Prod.ext rfl hscan)
  exact ⟨ps, tail, htext, hread, htokens ▸ (List.mem_filter.1 hword).1⟩

theorem Layout.isInner_of_isVerbal {t : Token} (h : t.kind.isVerbal = true) : isInner t = true := by
  unfold isInner
  split <;> simp_all [Token.Kind.isVerbal]

/-- The words among the tokens of a text are words. -/
theorem Lexed.word_ofText {text : List Char} (herrors : (ofText text).errors = []) {t : Token}
    (ht : t ∈ (ofText text).tokens) (hk : t.kind.isVerbal = true) :
    ∃ word, Word.isIdentifier word = true ∧ Word.kind word = t.kind := by
  obtain ⟨ps, tail, -, hread, hplace⟩ := exists_pieces herrors ht (Layout.isInner_of_isVerbal hk)
  obtain ⟨c, cs, n, hread⟩ := hread.exists_read hplace
  exact Lexeme.word_of_read hk hread

/-- The names among the tokens of a text can stand as names. -/
theorem Lexed.isName_ofText {text : List Char} (herrors : (ofText text).errors = []) {t : Token}
    (ht : t ∈ (ofText text).tokens) {x : String} (hx : t.kind = .ident x) :
    Word.isName x = true := by
  obtain ⟨word, hword, hkind⟩ := word_ofText herrors ht (by rw [hx]; rfl)
  exact Word.isName_of_kind hword (hkind.trans hx)

/-- A script is well-formed, the names in it can stand as names, and no body in it is empty. -/
theorem Script.formed_of_parse {text label : String} {script : Script}
    (h : parse text label = .ok script) :
    ∀ s ∈ script.body, s.Formed (fun x => Word.isName x = true) (· ≠ []) := by
  obtain ⟨herrors, hparsed, -⟩ := (parse_eq_ok script).1 h
  have hsound : (Cursor.ofTokens (Lexed.ofText text.toList).tokens).Sound fun x => Word.isName x =
      true :=
    Cursor.sound_ofText fun _ ht _ hx => Lexed.isName_ofText herrors ht hx
  exact Parsed.formed_ofCursor hsound.skipNewlines hparsed

/-- The names in a script can stand as names. -/
theorem Script.allNames_of_parse {text label : String} {script : Script}
    (h : parse text label = .ok script) : AllNames (Stmt.mentionsAll script.body) :=
  Stmt.forall_mem_mentionsAll fun s hs => (formed_of_parse h s hs).mentions

end StagedScript
