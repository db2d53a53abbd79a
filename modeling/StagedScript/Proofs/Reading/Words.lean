import StagedScript.Proofs.Reading.Arrangement
import StagedScript.Shape.Text

/-!
# Single pieces

Which characters are read as a word, a sign, a string or a number, depends on the character behind
them alone.
-/

namespace StagedScript

/-- The text does not start with a character of a kind. -/
def Without (p : Char → Bool) (cs : List Char) : Prop := ∀ c ∈ cs.head?, p c = false

namespace Without

variable {p : Char → Bool}

theorem nil : Without p [] := fun _ h => by cases h

theorem cons {c : Char} {cs : List Char} (h : p c = false) : Without p (c :: cs) := by
  intro d hd
  cases hd
  exact h

theorem append {cs ds : List Char} (hcs : Without p cs) (hds : Without p ds) :
    Without p (cs ++ ds) := by
  cases cs with
  | nil => exact hds
  | cons c cs => exact .cons (hcs c rfl)

theorem takeWhile_append {cs rest : List Char} (hcs : ∀ c ∈ cs, p c = true) (h : Without p rest) :
    (cs ++ rest).takeWhile p = cs := by
  rw [List.takeWhile_append_of_pos hcs]
  cases rest with
  | nil => simp
  | cons c rest => rw [List.takeWhile_cons_of_neg (by simp [h c rfl]), List.append_nil]

end Without

/-- Blanks are skipped in front of anything else. -/
theorem Skips.blanks {gap rest : List Char} (hgap : ∀ c ∈ gap, Lexeme.isBlank c = true)
    (h : Without Lexeme.isBlank rest) : Skips gap rest := by
  cases gap with
  | nil => exact .nil
  | cons c cs =>
    have hread : Lexeme.read c (cs ++ ([] ++ rest)) = (.gap, cs.length) := by
      unfold Lexeme.read
      rw [if_pos (hgap c (by simp)), List.nil_append,
        Without.takeWhile_append (fun d hd => hgap d (by simp [hd])) h]
    have hstep := Skips.step hread .nil
    rwa [List.append_nil] at hstep

/-- Spaces are skipped in front of anything else. -/
theorem Skips.spaces (n : Nat) {rest : List Char} (h : Without Lexeme.isBlank rest) :
    Skips (List.replicate n ' ') rest :=
  .blanks (fun c hc => by rw [(List.mem_replicate.1 hc).2]; rfl) h

namespace Lexeme

/-- The characters that need no second look: no blank, no line end, no comment and no backslash. -/
def plain (c : Char) : Prop :=
  isBlank c = false ∧ c ≠ '#' ∧ c ≠ '\\' ∧ c ≠ '\n' ∧ c ≠ '\r'

theorem plain_of {p : Char → Bool} {c : Char} (hc : p c = true)
    (h : [' ', '\t', '\x0c', '#', '\\', '\n', '\r'].any p = false) : plain c := by
  have hne (d : Char) (hd : d ∈ [' ', '\t', '\x0c', '#', '\\', '\n', '\r']) : c ≠ d := by
    rintro rfl
    exact List.any_eq_false.1 h _ hd hc
  refine ⟨?_, hne _ (by simp), hne _ (by simp), hne _ (by simp), hne _ (by simp)⟩
  simp [isBlank, hne]

theorem read_plain {c : Char} (hc : plain c) (cs : List Char) :
    read c cs = if Word.isStart c then word c cs
      else if c.isDigit then number c cs
      else if c = '"' ∨ c = '\'' then quoted c cs
      else symbol c cs := by
  obtain ⟨h1, h2, h3, h4, h5⟩ := hc
  unfold read
  rw [if_neg (by simp [h1]), if_neg h2, if_neg h3, if_neg h4, if_neg h5]

end Lexeme

namespace Word

theorem isIdentifier_of_isName {x : String} (h : Word.isName x = true) :
    Word.isIdentifier x = true := (Bool.and_eq_true_iff.1 h).1

theorem isPart_of_isIdentifier {x : String} (h : isIdentifier x = true) :
    x.toList ≠ [] ∧ ∀ c ∈ x.toList, isPart c = true := by
  unfold isIdentifier at h
  cases hx : x.toList with
  | nil =>
    rw [hx] at h
    cases h
  | cons c cs =>
    rw [hx] at h
    obtain ⟨hc, hcs⟩ := Bool.and_eq_true_iff.1 h
    refine ⟨by simp, fun d hd => ?_⟩
    rcases List.mem_cons.1 hd with rfl | hd
    · simp only [isStart, Bool.or_eq_true] at hc
      simp only [isPart, Char.isAlphanum, Bool.or_eq_true]
      rcases hc with hc | hc
      · exact .inl (.inl hc)
      · exact .inr hc
    · exact List.all_eq_true.1 hcs d hd

theorem newline_not_mem_of_isName {x : String} (h : Word.isName x = true) : '\n' ∉ x.toList := by
  intro hmem
  have hpart := (isPart_of_isIdentifier (isIdentifier_of_isName h)).2 _ hmem
  cases hpart

end Word

/-! ## Bodies of strings -/

/-- Between quotes, a body that ends with the text it is in stands for another text: each of its
items is a character for itself, or an escape. -/
inductive Quoted.Body (quote : Char) : List Char → List Char → Prop
  | nil : Body quote [] []
  | plain {c : Char} {body text : List Char} : c ≠ quote → c ≠ '\\' → c ≠ '\n' →
      Body quote body text → Body quote (c :: body) (c :: text)
  | escaped {c d : Char} {body text : List Char} : Quoted.escape? c = some d →
      Body quote body text → Body quote ('\\' :: c :: body) (d :: text)

namespace Quoted.Body

variable {quote : Char} {body text : List Char}

theorem short_eq (h : Body quote body text) (hquote : quote = '\'' ∨ quote = '"')
    (rest : List Char) : Quoted.short quote (body ++ quote :: rest) = .closed body.length := by
  have hnext (cs : List Char) : ∃ d ds, cs ++ quote :: rest = d :: ds := by
    cases cs <;> exact ⟨_, _, rfl⟩
  induction h with
  | nil => cases rest <;> simp [Quoted.short]
  | @plain c body text hc hescape hnewline _ ih =>
    obtain ⟨d, ds, hds⟩ := hnext body
    rw [hds] at ih
    rw [List.cons_append, hds, Quoted.short, if_neg hc, if_neg hescape, if_neg hnewline, ih]
    rfl
  | @escaped c d body text hc _ ih =>
    have hne : '\\' ≠ quote := by rcases hquote with rfl | rfl <;> decide
    have hnewline : c ≠ '\n' := by
      rintro rfl
      cases hc
    rw [List.cons_append, List.cons_append, Quoted.short, if_neg hne, if_pos rfl,
      if_neg hnewline, ih]
    rfl

theorem decode_eq (h : Body quote body text) : Quoted.decode body = text := by
  induction h with
  | nil => rfl
  | @plain c body text _ hescape _ _ ih =>
    rw [Quoted.decode, ih]
    rintro d ds rfl
    exact absurd rfl hescape
  | @escaped c d body text hc _ ih =>
    rw [Quoted.decode, hc, ← ih]

theorem of_plain {cs : List Char} (h : ∀ c ∈ cs, c ≠ quote ∧ c ≠ '\\' ∧ c ≠ '\n') :
    Body quote cs cs := by
  induction cs with
  | nil => exact .nil
  | cons c cs ih =>
    obtain ⟨hc, hescape, hnewline⟩ := h c (by simp)
    exact .plain hc hescape hnewline (ih fun d hd => h d (by simp [hd]))

/-- What is written for the characters of a text stands for the text. -/
theorem escape (hquote : quote = '\'' ∨ quote = '"') (cs : List Char) :
    Body quote (cs.flatMap (Quote.escape quote)) cs := by
  induction cs with
  | nil => exact .nil
  | cons c cs ih =>
    rw [List.flatMap_cons]
    unfold Quote.escape
    split
    · exact .escaped rfl ih
    · exact .escaped rfl ih
    · exact .escaped rfl ih
    · exact .escaped rfl ih
    · next hescape hnewline _ _ =>
      split
      · next hc =>
        subst hc
        exact .escaped (by rcases hquote with rfl | rfl <;> rfl) ih
      · next hc => exact .plain hc hescape hnewline ih

/-- A body between two quotes does not start with three of them. -/
theorem not_long (h : Body quote body text) (hquote : quote = '\'' ∨ quote = '"') {rest : List Char}
    (hrest : body = [] → Without (· == quote) rest) :
    [quote, quote, quote].isPrefixOf (quote :: (body ++ [quote] ++ rest)) = false := by
  cases h with
  | nil =>
    cases rest with
    | nil => simp [List.isPrefixOf]
    | cons c rest =>
      have hc : (c == quote) = false := hrest rfl c rfl
      simp [List.isPrefixOf, Ne.symm (beq_eq_false_iff_ne.1 hc)]
  | plain hc => simp [List.isPrefixOf, Ne.symm hc]
  | escaped => rcases hquote with rfl | rfl <;> simp [List.isPrefixOf]

end Quoted.Body

namespace Piece

/-! ## Words -/

/-- A word as a piece. -/
def word (gap : List Char) (x : String) : Piece := ⟨gap, Word.kind x, x.toList⟩

theorem fits_word {gap rest : List Char} {x : String} (hx : Word.isIdentifier x = true)
    (hgap : ∀ c ∈ gap, Lexeme.isBlank c = true) (hrest : Without Word.isPart rest) :
    (word gap x).Fits rest := by
  unfold Word.isIdentifier at hx
  obtain ⟨c, cs, hcs⟩ : ∃ c cs, x.toList = c :: cs := by
    cases h : x.toList with
    | nil => rw [h] at hx; cases hx
    | cons c cs => exact ⟨c, cs, rfl⟩
  rw [hcs] at hx
  obtain ⟨hstart, hparts⟩ := Bool.and_eq_true_iff.1 hx
  have hplain : Lexeme.plain c := Lexeme.plain_of hstart (by decide +kernel)
  refine ⟨.blanks hgap ?_, c, cs, hcs, ?_⟩
  · change Without _ (x.toList ++ rest)
    rw [hcs]
    exact .cons hplain.1
  · rw [Lexeme.read_plain hplain, if_pos hstart, Lexeme.word,
      Without.takeWhile_append (fun d hd => List.all_eq_true.1 hparts d hd) hrest]
    rw [word, ← hcs, String.ofList_toList]

/-! ## Signs -/

/-- A symbol as a piece. -/
def symbol (gap : List Char) (s : Symbol) : Piece := ⟨gap, .symbol s, s.chars⟩

theorem fits_symbol {gap rest : List Char} {s : Symbol} (hgap : ∀ c ∈ gap, Lexeme.isBlank c = true)
    (hs : Symbol.atStart? (s.chars ++ rest) = some s) : (symbol gap s).Fits rest := by
  obtain ⟨c, cs, hcs⟩ : ∃ c cs, s.chars = c :: cs := by
    cases s <;> exact ⟨_, _, rfl⟩
  have hplain : Lexeme.plain c := by
    cases s <;> cases hcs <;> simp [Lexeme.plain, Lexeme.isBlank]
  have hsign : ¬ Word.isStart c = true ∧ ¬ c.isDigit = true ∧ ¬ (c = '"' ∨ c = '\'') := by
    cases s <;> cases hcs <;> decide
  refine ⟨.blanks hgap ?_, c, cs, hcs, ?_⟩
  · change Without _ (s.chars ++ rest)
    rw [hcs]
    exact .cons hplain.1
  · rw [hcs, List.cons_append] at hs
    rw [Lexeme.read_plain hplain, if_neg hsign.1, if_neg hsign.2.1, if_neg hsign.2.2,
      Lexeme.symbol, hs]
    simp [symbol, hcs]

/-- The end of a line as a piece. -/
def newline (gap : List Char) : Piece := ⟨gap, .newline, ['\n']⟩

theorem fits_newline {gap : List Char} (hgap : ∀ c ∈ gap, Lexeme.isBlank c = true)
    (rest : List Char) : (newline gap).Fits rest :=
  ⟨.blanks hgap (.cons rfl), '\n', [], rfl, rfl⟩

/-! ## Strings -/

/-- A text between quotes as a piece. -/
def quoted (gap : List Char) (quote : Char) (body : List Char) (text : String) : Piece :=
  ⟨gap, .str text, quote :: (body ++ [quote])⟩

/-- A body is read between its quotes, unless nothing stands between them and a third one behind. -/
theorem fits_quoted {gap body rest : List Char} {quote : Char} {text : String}
    (hquote : quote = '\'' ∨ quote = '"') (hbody : Quoted.Body quote body text.toList)
    (hrest : body = [] → Without (· == quote) rest) (hgap : ∀ c ∈ gap, Lexeme.isBlank c = true) :
    (quoted gap quote body text).Fits rest := by
  have hblank : Lexeme.isBlank quote = false := by rcases hquote with rfl | rfl <;> rfl
  refine ⟨.blanks hgap (.cons hblank), quote, body ++ [quote], rfl, ?_⟩
  have hdrop : (quote :: (body ++ [quote] ++ rest)).drop 1 = body ++ quote :: rest := by simp
  have hliteral : Quoted.literal quote (quote :: (body ++ [quote] ++ rest)) =
      .whole text.toList (body.length + 2) := by
    unfold Quoted.literal
    dsimp only
    rw [hbody.not_long hquote hrest, if_neg (by simp), hdrop, hbody.short_eq hquote]
    dsimp only
    rw [List.take_left, hbody.decode_eq]
  have hread : Lexeme.read quote (body ++ [quote] ++ rest) =
      Lexeme.quoted quote (body ++ [quote] ++ rest) := by
    rcases hquote with rfl | rfl <;> rfl
  rw [hread, Lexeme.quoted, hliteral]
  simp [quoted, String.ofList_toList]

/-- A character of a string that stands for itself between single quotes. -/
def isPlainInText (c : Char) : Bool := c != '\'' && c != '\\' && c != '\n'

/-- A text between single quotes as a piece. -/
def quote (gap : List Char) (text : String) : Piece := quoted gap '\'' text.toList text

theorem fits_quote {gap rest : List Char} {text : String} (htext : text.toList ≠ [])
    (hplain : ∀ c ∈ text.toList, isPlainInText c = true)
    (hgap : ∀ c ∈ gap, Lexeme.isBlank c = true) : (quote gap text).Fits rest := by
  refine fits_quoted (.inl rfl) (.of_plain fun c hc => ?_) (fun h => absurd h htext) hgap
  have hc := hplain c hc
  simpa only [isPlainInText, Bool.and_eq_true, bne_iff_ne, and_assoc] using hc

/-- A text as the string literal for it. -/
def literal (gap : List Char) (text : String) : Piece :=
  quoted gap (Quote.choose text.toList)
    (text.toList.flatMap (Quote.escape (Quote.choose text.toList))) text

/-- A string literal is read as the text that it was made for. -/
theorem fits_literal {gap rest : List Char} (text : String)
    (hrest : Without (fun c => c == '\'' || c == '"') rest)
    (hgap : ∀ c ∈ gap, Lexeme.isBlank c = true) : (literal gap text).Fits rest := by
  have hquote : Quote.choose text.toList = '\'' ∨ Quote.choose text.toList = '"' := by
    unfold Quote.choose
    split
    · exact .inr rfl
    · exact .inl rfl
  refine fits_quoted hquote (.escape hquote _) (fun _ c hc => ?_) hgap
  have hc := Bool.or_eq_false_iff.1 (hrest c hc)
  rcases hquote with h | h
  · rw [h]; exact hc.1
  · rw [h]; exact hc.2

theorem text_literal (gap : List Char) (x : String) :
    text [literal gap x] = gap ++ (strLiteral x).toList := by
  simp [text, literal, quoted, strLiteral, Quote.literal]

/-! ## Numbers -/

theorem isPart_of_isDigit {c : Char} (hc : c.isDigit = true) :
    Numeral.isPart 10 c = true ∧ Numeral.digit? c = some (c.toNat - '0'.toNat) ∧ c ≠ '_' := by
  have hrange : '0' ≤ c ∧ c ≤ '9' := by
    simpa [Char.isDigit, Char.le_def, UInt32.le_iff_toNat_le] using hc
  have hdigit : Numeral.digit? c = some (c.toNat - '0'.toNat) := by
    unfold Numeral.digit?
    rw [if_pos hrange]
  have hlt : c.toNat - '0'.toNat < 10 := by
    have := hrange.2
    simp only [Char.le_def, UInt32.le_iff_toNat_le] at this
    have : c.toNat ≤ 57 := this
    have : '0'.toNat = 48 := rfl
    omega
  refine ⟨?_, hdigit, ?_⟩
  · simp only [Numeral.isPart, Numeral.isDigit, hdigit, decide_eq_true hlt, Bool.true_or]
  · rintro rfl
    cases hc

theorem isAlpha_of_isDigit {c : Char} (hc : c.isDigit = true) : c.isAlpha = false := by
  have hle : c.val.toNat ≤ 57 := by
    simp only [Char.isDigit, Bool.and_eq_true, decide_eq_true_eq, ge_iff_le,
      UInt32.le_iff_toNat_le] at hc
    exact hc.2
  have hupper : 'A'.val.toNat = 65 := rfl
  have hlower : 'a'.val.toNat = 97 := rfl
  change (decide (c.val ≥ 'A'.val ∧ c.val ≤ 'Z'.val) ||
    (decide (c.val ≥ 'a'.val) && decide (c.val ≤ 'z'.val))) = false
  simp only [ge_iff_le, UInt32.le_iff_toNat_le, Bool.or_eq_false_iff, Bool.and_eq_false_iff,
    decide_eq_false_iff_not, hupper, hlower]
  omega

theorem value_toDigits (n : Nat) : Numeral.value 10 (Nat.toDigits 10 n) = n := by
  have hdigits (cs : List Char) (hcs : ∀ c ∈ cs, c.isDigit = true) :
      cs.filterMap Numeral.digit? = cs.map fun c => c.toNat - '0'.toNat := by
    induction cs with
    | nil => rfl
    | cons c cs ih =>
      rw [List.filterMap_cons_some (isPart_of_isDigit (hcs c (by simp))).2.1, List.map_cons,
        ih fun d hd => hcs d (by simp [hd])]
  unfold Numeral.value
  rw [hdigits _ fun c hc => Nat.isDigit_of_mem_toDigits (by decide) (by decide) hc, List.foldl_map]
  rw [← Nat.ofDigitChars_eq_foldl, Nat.ofDigitChars_toDigits (by decide) (by decide)]

/-- A whole number as a piece. -/
def number (gap : List Char) (n : Nat) : Piece := ⟨gap, .int (Int64.ofNat n), Nat.toDigits 10 n⟩

/-- The characters that a whole number does not end in front of. -/
def continuesNumber (c : Char) : Bool :=
  Numeral.isPart 10 c || c == '.' || c.isAlpha

theorem literal_toDigits {n : Nat} {rest : List Char} (hrest : Without continuesNumber rest) :
    Numeral.literal (Nat.toDigits 10 n ++ rest) =
      (.int 10 (Nat.toDigits 10 n), (Nat.toDigits 10 n).length) := by
  have hall (c : Char) (hc : c ∈ Nat.toDigits 10 n) : c.isDigit = true :=
    Nat.isDigit_of_mem_toDigits (by decide) (by decide) hc
  have hhead (c : Char) (hc : c ∈ rest.head?) :
      Numeral.isPart 10 c = false ∧ c ≠ '.' ∧ c.isAlpha = false := by
    have := hrest c hc
    simpa [continuesNumber, and_assoc] using this
  have htake : (Nat.toDigits 10 n ++ rest).takeWhile (Numeral.isPart 10) = Nat.toDigits 10 n :=
    Without.takeWhile_append (fun c hc => (isPart_of_isDigit (hall c hc)).1)
      fun c hc => (hhead c hc).1
  have hexponent : Numeral.exponent? rest = none := by
    cases rest with
    | nil => rfl
    | cons c cs =>
      have hc := (hhead c rfl).2.2
      have he : ¬ (c == 'e' || c == 'E') = true := by
        simp only [Bool.or_eq_true, beq_iff_eq]
        rintro (rfl | rfl) <;> cases hc
      unfold Numeral.exponent?
      dsimp only
      rw [if_neg he]
  have hdecimal : Numeral.decimal (Nat.toDigits 10 n ++ rest) =
      (.int 10 (Nat.toDigits 10 n), (Nat.toDigits 10 n).length) := by
    unfold Numeral.decimal
    dsimp only
    rw [htake, List.drop_left]
    split
    · next d r _ => exact absurd rfl (hhead '.' rfl).2.1
    · rw [hexponent]
  -- A letter that announces another base is not among what follows.
  have hbase (m : Char) (hm : m.isAlpha = false) :
      Numeral.bases.find? (·.marks.contains m) = none := by
    have hne (c : Char) (hc : c.isAlpha = true) : m ≠ c := by
      rintro rfl
      rw [hc] at hm
      cases hm
    simp [Numeral.bases, hne]
  unfold Numeral.literal
  split
  · next m r heq =>
    have hm : m.isAlpha = false := by
      cases h : Nat.toDigits 10 n with
      | nil => exact absurd h Nat.toDigits_ne_nil
      | cons d ds =>
        rw [h, List.cons_append] at heq
        cases ds with
        | nil =>
          rw [List.nil_append] at heq
          cases heq
          exact (hhead m rfl).2.2
        | cons d' ds =>
          cases heq
          exact isAlpha_of_isDigit (hall m (by simp [h]))
    rw [hbase m hm]
    exact hdecimal
  · exact hdecimal

theorem fits_number {gap rest : List Char} {n : Nat} (hn : fits n = true)
    (hgap : ∀ c ∈ gap, Lexeme.isBlank c = true) (hrest : Without continuesNumber rest) :
    (number gap n).Fits rest := by
  obtain ⟨c, cs, hcs⟩ : ∃ c cs, Nat.toDigits 10 n = c :: cs :=
    List.exists_cons_of_ne_nil Nat.toDigits_ne_nil
  have hdigit : c.isDigit = true :=
    Nat.isDigit_of_mem_toDigits (n := n) (b := 10) (by decide) (by decide) (by simp [hcs])
  have hplain : Lexeme.plain c := Lexeme.plain_of hdigit (by decide +kernel)
  have hstart : ¬ Word.isStart c = true := by
    simp [Word.isStart, isAlpha_of_isDigit hdigit, (isPart_of_isDigit hdigit).2.2]
  refine ⟨.blanks hgap ?_, c, cs, hcs, ?_⟩
  · change Without _ (Nat.toDigits 10 n ++ rest)
    rw [hcs]
    exact .cons hplain.1
  · have hliteral := literal_toDigits (n := n) hrest
    have hvalue : Numeral.int? 10 (Nat.toDigits 10 n) = some (Int64.ofNat n) := by
      unfold Numeral.int?
      have hsome : ¬ ((Nat.toDigits 10 n).filterMap Numeral.digit?).isEmpty = true := by
        rw [hcs, List.filterMap_cons_some (isPart_of_isDigit hdigit).2.1]
        simp
      rw [if_neg hsome, value_toDigits, if_pos hn]
    rw [hcs, List.cons_append] at hliteral
    rw [Lexeme.read_plain hplain, if_neg hstart, if_pos hdigit, Lexeme.number, hliteral]
    rw [hcs] at hvalue
    simp [Numeral.Literal.kind?, hvalue, number]

end Piece

end StagedScript
