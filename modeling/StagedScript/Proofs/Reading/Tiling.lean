import Mathlib.Data.Nat.Digits.Defs
import StagedScript.Proofs.Reading.Reread

/-!
# Nothing of a text is lost

The tokens of a text without lexical errors stand in order and do not overlap.  All that stands
between them is filler: blanks, joined lines and comments.  The characters of a token are those
that its kind is written with, and an integer is the number that its digits write by their places.
-/

/-!
## How tokens are written
-/

namespace StagedScript

namespace Numeral

/-- Digits of a base, with underscores among them, write a number by their places.  Letters are
digits in either case. -/
def Writes (radix : Nat) (cs : List Char) (n : Nat) : Prop :=
  ∃ ds : List Nat, ds ≠ [] ∧
    List.Forall₂ (fun c d => d < radix ∧ c.toLower = Nat.digitChar d) (cs.filter (· ≠ '_')) ds ∧
    n = Nat.ofDigits radix ds.reverse

/-- What stands in front of the digits of a base. -/
def marks : Nat → List (List Char)
  | 10 => [[]]
  | 16 => [['0', 'x'], ['0', 'X']]
  | 8 => [['0', 'o'], ['0', 'O']]
  | 2 => [['0', 'b'], ['0', 'B']]
  | _ => []

/-- The characters write an integer in one of the bases. -/
def Spells (chars : List Char) (n : Int64) : Prop :=
  ∃ radix, ∃ mark ∈ marks radix, ∃ digits m,
    chars = mark ++ digits ∧ Writes radix digits m ∧ n.toInt = m

end Numeral

/-- The characters are those that a kind is written with.  The text of a string and the value of a
float have many forms, and the kinds that stand for the layout of a text have none. -/
def Token.Kind.Spelled (chars : List Char) : Token.Kind → Prop
  | .int n => Numeral.Spells chars n
  | .float _ | .str _ => True
  | .ident word | .reserved word => chars = word.toList
  | .keyword k => chars = k.text.toList
  | .symbol s => chars = s.chars
  | .newline => chars = ['\n'] ∨ chars = ['\r', '\n']
  | .indent | .dedent | .eof => False

/-- In front of a text, characters that stand for nothing: blanks, backslashes that join two lines,
and last a comment, which goes up to the end of its line. -/
inductive Filler : List Char → List Char → Prop
  | none {rest : List Char} : Filler [] rest
  | blank {c : Char} {gap rest : List Char} : c = ' ' ∨ c = '\t' ∨ c = '\x0c' → Filler gap rest →
      Filler (c :: gap) rest
  | join {gap rest : List Char} : Filler gap rest → Filler ('\\' :: '\n' :: gap) rest
  | joinReturn {gap rest : List Char} : Filler gap rest → Filler ('\\' :: '\r' :: '\n' :: gap) rest
  | comment {note rest : List Char} : '\n' ∉ note → (∀ c ∈ rest.head?, c = '\n') →
      Filler ('#' :: note) rest

namespace Token

/-- The stretches in front of tokens, between them and behind them, within a longer stretch. -/
def gaps (start stop : Nat) : List Token → List Span
  | [] => [⟨start, stop⟩]
  | t :: ts => ⟨start, t.span.start⟩ :: gaps t.span.stop stop ts

/-- Tokens stand one behind the other. -/
structure Spaced (ts : List Token) : Prop where
  /-- Every token stands for characters. -/
  nonempty : ∀ t ∈ ts, t.span.start < t.span.stop
  /-- Every token ends before the ones behind it start. -/
  ordered : ts.Pairwise fun t u => t.span.stop ≤ u.span.start

theorem Spaced.sublist {ts us : List Token} (h : Spaced us) (hts : ts.Sublist us) : Spaced ts :=
  ⟨fun t ht => h.nonempty t (hts.subset ht), h.ordered.sublist hts⟩

/-- A text is made up of tokens, with filler around them. -/
structure Tile (ts : List Token) (text : List Char) : Prop extends Spaced ts where
  /-- A token starts and stops between characters, and those in it are what it is written with. -/
  spelled : ∀ t ∈ ts, ∃ chars,
    Text.slice? t.span.start t.span.stop text = some chars ∧ t.kind.Spelled chars
  /-- All that is not in a token is filler. -/
  filled : ∀ gap ∈ gaps 0 (Text.byteLength text) ts, ∃ chars rest,
    Text.slice? gap.start gap.stop text = some chars ∧
      Text.dropBytes? gap.stop text = some rest ∧ Filler chars rest

end Token

/-! ## Filler -/

/-- A run of characters that ends where its longest form does. -/
theorem Without.of_takeWhile {p : Char → Bool} {cs rest : List Char}
    (h : ((cs ++ rest).takeWhile p).length = cs.length) :
    (∀ c ∈ cs, p c = true) ∧ Without p rest := by
  induction cs with
  | nil =>
    refine ⟨by simp, fun c hc => ?_⟩
    obtain ⟨more, rfl⟩ := List.head?_eq_some_iff.1 hc
    by_contra hne
    rw [List.nil_append, List.takeWhile_cons_of_pos (by simpa using hne)] at h
    cases h
  | cons c cs ih =>
    by_cases hc : p c = true
    · rw [List.cons_append, List.takeWhile_cons_of_pos hc, List.length_cons, List.length_cons,
        Nat.add_right_cancel_iff] at h
      exact ⟨List.forall_mem_cons.2 ⟨hc, (ih h).1⟩, (ih h).2⟩
    · rw [List.cons_append, List.takeWhile_cons_of_neg hc] at h
      cases h

theorem Filler.blanks {blanks gap rest : List Char}
    (hblanks : ∀ c ∈ blanks, Lexeme.isBlank c = true) (h : Filler gap rest) :
    Filler (blanks ++ gap) rest := by
  induction blanks with
  | nil => exact h
  | cons c blanks ih =>
    obtain ⟨hc, hblanks⟩ := List.forall_mem_cons.1 hblanks
    refine .blank ?_ (ih hblanks)
    simpa only [Lexeme.isBlank, Bool.or_eq_true, beq_iff_eq, or_assoc] using hc

/-- What is skipped in front of a text is filler. -/
theorem Skips.filler {gap rest : List Char} (h : Skips gap rest) : Filler gap rest := by
  induction h with
  | nil => exact .none
  | @step c cs gap rest hread hgap ih =>
    rcases Lexeme.read_gap hread
      with ⟨hc, hn⟩ | ⟨rfl, hn⟩ | ⟨rfl, ⟨hn, more, hcs⟩ | ⟨hn, more, hcs⟩⟩
    · exact ih.blanks (List.forall_mem_cons.2 ⟨hc, (Without.of_takeWhile hn.symm).1⟩)
    · -- Behind a comment the line ends, so nothing more is skipped.
      obtain ⟨hnote, hend⟩ := Without.of_takeWhile hn.symm
      have hnil : gap = [] := by
        cases gap with
        | nil => rfl
        | cons d gap =>
          have hd := hend d rfl
          exact absurd (by simpa using hd) hgap.not_return.1
      subst hnil
      rw [List.append_nil]
      exact .comment (fun hmem => by simpa using hnote _ hmem) fun d hd => by simpa using hend d hd
    · obtain ⟨d, rfl⟩ := List.length_eq_one_iff.1 hn
      cases hcs
      exact .join ih
    · obtain ⟨d, e, rfl⟩ := List.length_eq_two.1 hn
      cases hcs
      exact .joinReturn ih

/-! ## Integers -/

namespace Numeral

/-- A digit is the one that its value is written with, in either case. -/
theorem toLower_of_digit? {c : Char} {d : Nat} (h : digit? c = some d) :
    c.toLower = Nat.digitChar d ∧ c ≠ '_' := by
  have hall : ∀ n < 128, ∀ d ∈ digit? (Char.ofNat n),
      (Char.ofNat n).toLower = Nat.digitChar d ∧ Char.ofNat n ≠ '_' := by decide +kernel
  have hlt : c.toNat < 128 := by
    have hle {a b : Char} : a ≤ b ↔ a.toNat ≤ b.toNat := by
      rw [Char.le_def, UInt32.le_iff_toNat_le]
      rfl
    unfold digit? at h
    split at h
    · next hc =>
      have : c.toNat ≤ 57 := hle.1 hc.2
      omega
    · split at h
      · next hc =>
        have : c.toNat ≤ 102 := hle.1 hc.2
        omega
      · split at h
        · next hc =>
          have : c.toNat ≤ 70 := hle.1 hc.2
          omega
        · cases h
  have hc := hall c.toNat hlt d
  rw [Char.ofNat_toNat] at hc
  exact hc h

/-- The digits among the characters of a base, with their values. -/
theorem forall₂_digits {radix : Nat} {cs : List Char} (h : ∀ c ∈ cs, isPart radix c = true) :
    List.Forall₂ (fun c d => d < radix ∧ c.toLower = Nat.digitChar d) (cs.filter (· ≠ '_'))
      (cs.filterMap digit?) := by
  induction cs with
  | nil => exact .nil
  | cons c cs ih =>
    obtain ⟨hc, hcs⟩ := List.forall_mem_cons.1 h
    rw [isPart, Bool.or_eq_true, beq_iff_eq, isDigit] at hc
    rcases hc with hc | rfl
    · split at hc
      · next d hd =>
        obtain ⟨hlower, hne⟩ := toLower_of_digit? hd
        rw [List.filter_cons_of_pos (by simpa using hne), List.filterMap_cons_some hd]
        exact .cons ⟨by simpa using hc, hlower⟩ (ih hcs)
      · cases hc
    · have hnone : digit? '_' = none := by decide
      rw [List.filter_cons_of_neg (by simp), List.filterMap_cons_none hnone]
      exact ih hcs

/-- The value of digits is the number that they write by their places. -/
theorem value_eq_ofDigits (radix : Nat) (cs : List Char) :
    value radix cs = Nat.ofDigits radix (cs.filterMap digit?).reverse := by
  rw [value, Nat.ofDigits_eq_foldr, List.foldr_reverse]
  congr 1
  funext n d
  rw [Nat.add_comm]
  rfl

/-- An integer that is read is the number that its digits write, and not a wrapped one. -/
theorem writes_of_int? {radix : Nat} {cs : List Char} {n : Int64}
    (hcs : ∀ c ∈ cs, isPart radix c = true) (h : int? radix cs = some n) :
    ∃ m, Writes radix cs m ∧ n.toInt = m := by
  unfold int? at h
  split at h
  · cases h
  · next hsome =>
    dsimp only at h
    split at h
    · next hfits =>
      cases h
      refine ⟨value radix cs, ⟨cs.filterMap digit?, ?_, forall₂_digits hcs, value_eq_ofDigits _ _⟩,
        toInt_ofInt_of_fits hfits⟩
      simpa [List.isEmpty_iff] using hsome
    · cases h

theorem decimal_eq_int {cs digits : List Char} {radix n : Nat}
    (h : decimal cs = (.int radix digits, n)) :
    radix = 10 ∧ digits = cs.takeWhile (isPart 10) ∧ n = digits.length := by
  unfold decimal at h
  dsimp only at h
  split at h
  · split at h
    · split at h <;> cases h
    · cases h
      exact ⟨rfl, rfl, rfl⟩
  · split at h
    · cases h
    · cases h
      exact ⟨rfl, rfl, rfl⟩

/-- An integer literal is a mark of its base with digits behind it. -/
theorem literal_eq_int {cs digits : List Char} {radix n : Nat}
    (h : literal cs = (.int radix digits, n)) :
    (∃ mark ∈ marks radix, cs.take n = mark ++ digits) ∧ ∀ c ∈ digits, isPart radix c = true := by
  have htake (p : Char → Bool) (r : List Char) : r.take (r.takeWhile p).length = r.takeWhile p :=
    (List.prefix_iff_eq_take.1 (List.takeWhile_prefix p)).symm
  have hdecimal (h : decimal cs = (.int radix digits, n)) :
      (∃ mark ∈ marks radix, cs.take n = mark ++ digits) ∧ ∀ c ∈ digits, isPart radix c = true := by
    obtain ⟨rfl, rfl, rfl⟩ := decimal_eq_int h
    exact ⟨⟨[], by simp [marks], htake _ _⟩, fun c hc => List.mem_takeWhile_imp hc⟩
  unfold literal at h
  split at h
  · next m r =>
    split at h
    · next base hbase =>
      dsimp only at h
      split at h
      · exact hdecimal h
      · cases h
        refine ⟨⟨['0', m], ?_, ?_⟩, fun c hc => List.mem_takeWhile_imp hc⟩
        · have hmem := List.mem_of_find?_eq_some hbase
          have hmark := List.find?_some hbase
          simp only [bases, List.mem_cons, List.not_mem_nil, or_false] at hmem
          rcases hmem with rfl | rfl | rfl <;> simpa [marks] using hmark
        · rw [Nat.add_comm, List.take_succ_cons, List.take_succ_cons, htake]
          rfl
    · exact hdecimal h
  · exact hdecimal h

end Numeral

/-! ## Tokens -/

theorem Word.spelled_kind (word : String) : (Word.kind word).Spelled word.toList := by
  unfold Word.kind
  split
  · next k hk => exact congrArg String.toList (Keyword.text_of_ofText? hk).symm
  · split <;> exact rfl

theorem Numeral.Writes.ne_nil {radix n : Nat} {cs : List Char} (h : Writes radix cs n) :
    cs ≠ [] := by
  rintro rfl
  obtain ⟨ds, hds, hdigits, -⟩ := h
  cases hdigits
  exact hds rfl

theorem Lexeme.spelled_of_number {c : Char} {cs rest : List Char} {k : Token.Kind}
    (h : number c (cs ++ rest) = (.token k, cs.length)) : k.Spelled (c :: cs) := by
  unfold number at h
  cases hliteral : Numeral.literal (c :: (cs ++ rest)) with
  | mk l n =>
  rw [hliteral] at h
  dsimp only at h
  split at h
  · next kind hkind =>
    obtain ⟨hk, hlength⟩ := Prod.mk.inj h
    obtain rfl := Lexeme.token.inj hk
    cases l with
    | float parts =>
      cases hkind
      trivial
    | int radix digits =>
      obtain ⟨i, hi, rfl⟩ := Option.map_eq_some_iff.1 hkind
      obtain ⟨⟨mark, hmark, htake⟩, hdigits⟩ := Numeral.literal_eq_int hliteral
      obtain ⟨m, hwrites, hvalue⟩ := Numeral.writes_of_int? hdigits hi
      have hn : n ≠ 0 := by
        rintro rfl
        rw [List.take_zero] at htake
        exact hwrites.ne_nil (List.append_eq_nil_iff.1 htake.symm).2
      obtain rfl : n = cs.length + 1 := by omega
      rw [List.take_succ_cons, List.take_left] at htake
      exact ⟨radix, mark, hmark, digits, m, htake, hwrites, hvalue⟩
  · cases h

theorem Lexeme.spelled_of_symbol {c : Char} {cs rest : List Char} {k : Token.Kind}
    (h : symbol c (cs ++ rest) = (.token k, cs.length)) : k.Spelled (c :: cs) := by
  unfold symbol at h
  split at h
  · next s hs =>
    obtain ⟨hk, hlength⟩ := Prod.mk.inj h
    obtain rfl := Lexeme.token.inj hk
    have hstarts := List.isPrefixOf_iff_prefix.1
      (List.find?_some (p := fun s : Symbol => s.chars.isPrefixOf (c :: (cs ++ rest))) hs)
    obtain ⟨d, ds, hds⟩ : ∃ d ds, s.chars = d :: ds := by cases s <;> exact ⟨_, _, rfl⟩
    rw [hds, List.length_cons, Nat.add_sub_cancel] at hlength
    rw [hds, List.cons_prefix_cons] at hstarts
    have hrest := List.prefix_iff_eq_take.1 hstarts.2
    rw [hlength, List.take_left] at hrest
    exact (hds.trans (by rw [hstarts.1, hrest])).symm
  · cases h

/-- The characters of a token that is read are those that its kind is written with. -/
theorem Lexeme.spelled_of_read {c : Char} {cs rest : List Char} {k : Token.Kind}
    (h : read c (cs ++ rest) = (.token k, cs.length)) : k.Spelled (c :: cs) := by
  rcases plain_of_token h with rfl | ⟨rfl, more, hmore⟩ | hplain
  · have hread : read '\n' (cs ++ rest) = (.token .newline, 0) := rfl
    rw [hread] at h
    obtain ⟨hk, hlength⟩ := Prod.mk.inj h
    rw [← Lexeme.token.inj hk, List.eq_nil_of_length_eq_zero hlength.symm]
    exact .inl rfl
  · have hread : read '\r' ('\n' :: more) = (.token .newline, 1) := rfl
    rw [hmore, hread] at h
    obtain ⟨hk, hlength⟩ := Prod.mk.inj h
    obtain ⟨d, rfl⟩ := List.length_eq_one_iff.1 hlength.symm
    rw [← Lexeme.token.inj hk, (List.cons.inj hmore).1]
    exact .inr rfl
  rw [read_plain hplain] at h
  split at h
  · obtain ⟨hk, hlength⟩ := Prod.mk.inj h
    have hpart := (Without.of_takeWhile hlength).1
    have hword := Without.takeWhile_append hpart (Without.of_takeWhile hlength).2
    rw [hword] at hk
    rw [← Lexeme.token.inj hk]
    simpa using Word.spelled_kind (String.ofList (c :: cs))
  split at h
  · exact spelled_of_number h
  split at h
  · unfold quoted at h
    split at h
    · obtain rfl := Lexeme.token.inj (Prod.mk.inj h).1
      trivial
    · cases h
  · exact spelled_of_symbol h

/-! ## Pieces -/

/-- Tokens of pieces that stand behind other text. -/
theorem Piece.Read.tile {ps : List Piece} {tail : List Char} (h : Piece.Read ps tail)
    (before : List Char) :
    let start := Text.byteLength before
    let whole := before ++ (Piece.text ps ++ tail)
    (∀ t ∈ Piece.place start ps, start ≤ t.span.start ∧ t.span.start < t.span.stop ∧
      t.span.stop ≤ Text.byteLength whole ∧
      ∃ chars, Text.slice? t.span.start t.span.stop whole = some chars ∧ t.kind.Spelled chars) ∧
    (Piece.place start ps).Pairwise (fun t u => t.span.stop ≤ u.span.start) ∧
    ∀ gap ∈ Token.gaps start (Text.byteLength whole) (Piece.place start ps), ∃ chars rest,
      Text.slice? gap.start gap.stop whole = some chars ∧
        Text.dropBytes? gap.stop whole = some rest ∧ Filler chars rest := by
  induction ps generalizing before with
  | nil =>
    have hslice := Text.slice?_append before tail []
    have hdrop := Text.dropBytes?_byteLength (before ++ tail) []
    have hskips : Skips tail [] := h
    simp only [List.append_nil, Text.byteLength_append] at hslice hdrop
    simpa [Piece.place, Piece.text, Token.gaps] using ⟨tail, hslice, [], hdrop, hskips.filler⟩
  | cons p ps ih =>
    obtain ⟨⟨hgap, c, cs, hchars, hread⟩, hps⟩ := h
    have hspelled : p.kind.Spelled p.chars := hchars ▸ Lexeme.spelled_of_read hread
    have hpos : 0 < Text.byteLength p.chars := by
      rw [hchars, Text.byteLength]
      have := c.utf8Size_pos
      omega
    obtain ⟨htokens, hordered, hgaps⟩ := ih hps (before ++ (p.gap ++ p.chars))
    have hwhole : before ++ (Piece.text (p :: ps) ++ tail) =
        before ++ (p.gap ++ p.chars) ++ (Piece.text ps ++ tail) := by simp [Piece.text]
    have hgapSlice := Text.slice?_append before p.gap (p.chars ++ (Piece.text ps ++ tail))
    have hslice := Text.slice?_append (before ++ p.gap) p.chars (Piece.text ps ++ tail)
    have hdrop := Text.dropBytes?_byteLength (before ++ p.gap) (p.chars ++ (Piece.text ps ++ tail))
    simp only [Text.byteLength_append, ← Nat.add_assoc, List.append_assoc]
      at htokens hordered hgaps hgapSlice hslice hdrop
    simp only [hwhole, Piece.place, Token.gaps, Text.byteLength_append, ← Nat.add_assoc,
      List.append_assoc]
    refine ⟨List.forall_mem_cons.2 ⟨?_, fun t ht => ?_⟩, List.pairwise_cons.2 ⟨?_, hordered⟩,
      List.forall_mem_cons.2 ⟨?_, hgaps⟩⟩
    · refine ⟨Nat.le_add_right _ _, Nat.lt_add_of_pos_right hpos, ?_, p.chars, hslice, hspelled⟩
      dsimp only
      omega
    · obtain ⟨hle, ht⟩ := htokens t ht
      exact ⟨by omega, ht⟩
    · exact fun u hu => (htokens u hu).1
    · exact ⟨p.gap, _, hgapSlice, hdrop, hgap.filler⟩

/-- A text without lexical errors is made up of its tokens, with filler around them. -/
theorem Token.scan_tiles {text : List Char} (h : (Token.scan text).2 = []) :
    Token.Tile (Token.scan text).1 text := by
  obtain ⟨ps, tail, rfl, hread, hplace⟩ : ∃ ps tail, text = Piece.text ps ++ tail ∧
      Piece.Read ps tail ∧ (Token.scan text).1 = Piece.place 0 ps :=
    Token.pieces_of_scanFrom (Prod.ext rfl h)
  obtain ⟨htokens, hordered, hgaps⟩ := hread.tile []
  rw [hplace]
  exact ⟨⟨fun t ht => (htokens t ht).2.1, hordered⟩, fun t ht => (htokens t ht).2.2.2, hgaps⟩

/-- A text with a number in front of a point, joined lines, a string over two lines and comments. -/
def Token.sampleText : List Char :=
  "x1 = 0x_fF.of # no token\n\\\r\n\x0c\"\"\"é\nb\"\"\"//=\t0b1_0 \r\niff **1.5e3 # end".toList

theorem Token.sampleText_tiled :
    (Token.scan sampleText).2 = [] ∧ Token.Tile (Token.scan sampleText).1 sampleText :=
  ⟨by decide +kernel, scan_tiles (by decide +kernel)⟩

end StagedScript
