import StagedScript.Proofs.Reading.Hanging

/-!
# Lines and what is below them

A text of one line without errors is read as the same tokens where further lines follow: no lexeme
looks beyond the end of its line, but for a newline that a backslash hides and for long strings, and
these are errors where the line is all of the text.
-/

namespace StagedScript

namespace Lexeme

/-- The characters that no word, number or sign has: the blanks, and those that a comment, a joined
line and the end of a line start with. -/
def stops : List Char := [' ', '\t', '\x0c', '#', '\\', '\n', '\r']

theorem newline_mem_stops : '\n' ∈ stops := by decide

theorem false_of_mem_stops {p : Char → Bool} (h : stops.any p = false) {e : Char} (he : e ∈ stops) :
    p e = false := by
  simpa using List.any_eq_false.1 h e he

end Lexeme

open Lexeme (stops)

section

variable {e : Char}

/-- In front of such a character, nothing more belongs to a run of characters that has none. -/
theorem takeWhile_stop {p : Char → Bool} (hp : p e = false) (cs more : List Char) :
    (cs ++ e :: more).takeWhile p = cs.takeWhile p := by
  rw [List.takeWhile_append]
  split
  · next h =>
    rw [List.takeWhile_cons_of_neg (by simp [hp]), List.append_nil,
      (List.takeWhile_prefix p).eq_of_length h]
  · rfl

theorem drop_takeWhile_append (p : Char → Bool) (cs more : List Char) :
    (cs ++ more).drop (cs.takeWhile p).length = cs.drop (cs.takeWhile p).length ++ more :=
  List.drop_append_of_le_length (List.takeWhile_sublist p).length_le

theorem isPrefixOf_stop {ps : List Char} (h : e ∉ ps) (cs more : List Char) :
    ps.isPrefixOf (cs ++ e :: more) = ps.isPrefixOf cs := by
  induction ps generalizing cs with
  | nil => simp
  | cons p ps ih =>
    rw [List.mem_cons, not_or] at h
    cases cs with
    | nil => simp [List.isPrefixOf, Ne.symm h.1]
    | cons c cs => simp only [List.cons_append, List.isPrefixOf, ih h.2]

/-! ## Numbers -/

namespace Numeral

/-- No number goes on with the character. -/
structure Ends (e : Char) : Prop where
  digit : digit? e = none
  others : e ∉ ['_', '.', '+', '-', 'e', 'E']
  base : bases.find? (·.marks.contains e) = none

theorem Ends.of_mem_stops (he : e ∈ stops) : Ends e where
  digit := by
    have h := Lexeme.false_of_mem_stops (p := fun c => (digit? c).isSome) (by decide) he
    simpa using h
  others := by
    have h := Lexeme.false_of_mem_stops (p := ['_', '.', '+', '-', 'e', 'E'].contains)
        (by decide) he
    simpa using h
  base := by
    have h := Lexeme.false_of_mem_stops
      (p := fun c => (bases.find? (·.marks.contains c)).isSome) (by decide) he
    simpa using h

variable (he : Ends e)
include he

theorem Ends.beq {d : Char} (hd : d ∈ ['_', '.', '+', '-', 'e', 'E']) : (e == d) = false := by
  rw [beq_eq_false_iff_ne]
  rintro rfl
  exact he.others hd

theorem isPart_stop (radix : Nat) : isPart radix e = false := by
  rw [isPart, isDigit, he.digit, he.beq (by decide)]
  rfl

theorem isDigit_stop (radix : Nat) : isDigit radix e = false := by
  have h := isPart_stop he radix
  rw [isPart, Bool.or_eq_false_iff] at h
  exact h.1

omit he in
/-- An exponent without a sign. -/
theorem exponent?_unsigned {e d : Char} {r : List Char} (hplus : d ≠ '+') (hminus : d ≠ '-') :
    exponent? (e :: d :: r) =
      if e == 'e' || e == 'E' then
        if ((d :: r).takeWhile (isDigit 10)).isEmpty then none
        else some (1 * (Decimal.ofDigits ((d :: r).takeWhile (isDigit 10)) : Int),
          1 + 0 + ((d :: r).takeWhile (isDigit 10)).length)
      else none := by
  unfold exponent?
  dsimp only
  split
  · split
    · next heq => exact absurd (List.cons.inj heq).1 hplus
    · next heq => exact absurd (List.cons.inj heq).1 hminus
    · rfl
  · rfl

theorem exponent?_stop (cs more : List Char) : exponent? (cs ++ e :: more) = exponent? cs := by
  have hdigits (ds : List Char) := takeWhile_stop (isDigit_stop he 10) ds more
  have hsign : (e == '+' || e == '-') = false := by
    rw [he.beq (by decide), he.beq (by decide)]
    rfl
  have hmark : (e == 'e' || e == 'E') = false := by
    rw [he.beq (by decide), he.beq (by decide)]
    rfl
  rw [Bool.or_eq_false_iff, beq_eq_false_iff_ne, beq_eq_false_iff_ne] at hsign
  match cs with
  | [] =>
    unfold exponent?
    dsimp only [List.nil_append]
    rw [hmark, if_neg Bool.false_ne_true]
  | [c] =>
    have hnone := hdigits []
    rw [List.nil_append] at hnone
    rw [List.singleton_append, exponent?_unsigned hsign.1 hsign.2, hnone]
    unfold exponent?
    simp
  | c :: d :: ds =>
    by_cases hplus : d = '+'
    · subst hplus
      simp only [exponent?, List.cons_append, hdigits]
    · by_cases hminus : d = '-'
      · subst hminus
        simp only [exponent?, List.cons_append, hdigits]
      · have hd := hdigits (d :: ds)
        rw [List.cons_append] at hd
        rw [List.cons_append, List.cons_append, exponent?_unsigned hplus hminus,
          exponent?_unsigned hplus hminus, hd]

omit he in
/-- A literal without a fraction. -/
theorem decimal_whole {cs : List Char}
    (h : ∀ r, cs.drop (cs.takeWhile (isPart 10)).length ≠ '.' :: r) :
    decimal cs = (exponent? (cs.drop (cs.takeWhile (isPart 10)).length)).elim
      (.int 10 (cs.takeWhile (isPart 10)), (cs.takeWhile (isPart 10)).length)
      fun found => (.float ⟨(cs.takeWhile (isPart 10)).filter (· != '_'), [], found.1⟩,
        (cs.takeWhile (isPart 10)).length + found.2) := by
  unfold decimal
  dsimp only
  split
  · next heq => exact absurd heq (h _)
  · split
    · next heq => rw [heq, Option.elim_some]
    · next heq => rw [heq, Option.elim_none]

theorem decimal_stop (cs more : List Char) : decimal (cs ++ e :: more) = decimal cs := by
  have hwhole := takeWhile_stop (isPart_stop he 10) cs more
  have hdrop := drop_takeWhile_append (isPart 10) cs (e :: more)
  by_cases hpoint : ∃ r, cs.drop (cs.takeWhile (isPart 10)).length = '.' :: r
  · obtain ⟨r, hr⟩ := hpoint
    rw [hr] at hdrop
    match r with
    | [] =>
      have hdigit := isDigit_stop he 10
      unfold decimal
      simp only [hwhole, hdrop, hr, List.singleton_append, hdigit, Bool.false_eq_true, if_false]
      rfl
    | d :: r =>
      have hfraction := takeWhile_stop (isPart_stop he 10) (d :: r) more
      have hexponent :=
        exponent?_stop he ((d :: r).drop ((d :: r).takeWhile (isPart 10)).length) more
      rw [← drop_takeWhile_append] at hexponent
      unfold decimal
      simp only [hwhole, hdrop, hr, List.cons_append] at hfraction hexponent ⊢
      simp only [hfraction, hexponent]
  · rw [not_exists] at hpoint
    have hdot : (e == '.') = false := he.beq (by decide)
    rw [decimal_whole hpoint, decimal_whole, hwhole, hdrop, exponent?_stop he]
    intro r hr
    rw [hwhole, hdrop] at hr
    cases hcs : cs.drop (cs.takeWhile (isPart 10)).length with
    | nil =>
      rw [hcs] at hr
      rw [(List.cons.inj hr).1] at hdot
      cases hdot
    | cons c rest =>
      rw [hcs] at hr
      obtain rfl := (List.cons.inj hr).1
      exact hpoint rest hcs

omit he in
/-- A literal that starts with another digit than zero. -/
theorem literal_decimal {c : Char} (hc : c ≠ '0') (cs : List Char) :
    literal (c :: cs) = decimal (c :: cs) := by
  unfold literal
  split
  · next h => exact absurd (List.cons.inj h).1 hc
  · rfl

theorem literal_stop {c : Char} (cs more : List Char) :
    literal (c :: cs ++ e :: more) = literal (c :: cs) := by
  have hdecimal := decimal_stop he (c :: cs) more
  by_cases hc : c = '0'
  · subst hc
    match cs with
    | [] =>
      rw [List.singleton_append] at hdecimal ⊢
      simp only [literal, he.base, hdecimal]
    | m :: r =>
      rw [List.cons_append, List.cons_append] at hdecimal ⊢
      simp only [literal, takeWhile_stop (isPart_stop he _), hdecimal]
  · rw [List.cons_append] at hdecimal ⊢
    rw [literal_decimal hc, literal_decimal hc, hdecimal]

end Numeral

end

/-! ## Strings -/

namespace Quoted

theorem item?_append {quote : Char} {cs : List Char} {n : Nat} (h : item? quote cs = some n)
    (more : List Char) : item? quote (cs ++ more) = some n := by
  match cs with
  | [] => cases h
  | c :: cs =>
    rw [List.cons_append]
    unfold item? at h ⊢
    dsimp only at h ⊢
    by_cases hescape : c = '\\'
    · rw [if_pos hescape] at h ⊢
      match cs with
      | [] => cases h
      | d :: cs => exact h
    · rw [if_neg hescape] at h ⊢
      by_cases hquote : c = quote
      · rw [if_pos hquote] at h ⊢
        match cs with
        | [] => cases h
        | [d] =>
          dsimp only at h
          split at h
          · next hd =>
            cases h
            cases more <;> exact if_pos hd
          · cases h
        | d :: e :: cs => exact h
      · rw [if_neg hquote] at h ⊢
        exact h

theorem Extent.eq_closed_of_after {e : Extent} {k n : Nat} (h : e.after k = .closed n) :
    ∃ m, e = .closed m ∧ n = m + k := by
  cases e with
  | closed m =>
    cases h
    exact ⟨m, rfl, rfl⟩
  | unclosed m => cases h

/-- A long string that is closed ends there, whatever is behind it. -/
theorem long_append {quote : Char} {cs : List Char} {n : Nat} (h : long quote cs = .closed n)
    (more : List Char) : long quote (cs ++ more) = .closed n := by
  fun_induction long quote cs generalizing n
  case case1 cs k hitem hlt ih =>
    obtain ⟨m, hm, rfl⟩ := Extent.eq_closed_of_after h
    rw [long, item?_append hitem]
    dsimp only
    rw [if_pos (by rw [List.length_append]; omega), List.drop_append_of_le_length (by omega), ih hm]
    rfl
  case case3 cs hprefix hitem =>
    obtain ⟨ds, rfl⟩ := List.isPrefixOf_iff_prefix.1 hprefix
    cases h
    have hclosed : long quote (quote :: quote :: quote :: (ds ++ more)) = .closed 0 := by
      rw [long]
      split
      · next heq => exact (hitem _ heq).elim
      · rw [if_pos (by simp [List.isPrefixOf])]
    exact hclosed
  all_goals cases h

/-- A short string that is closed ends there, whatever is behind it. -/
theorem short_append {quote : Char} {cs : List Char} {n : Nat} (h : short quote cs = .closed n)
    (more : List Char) : short quote (cs ++ more) = .closed n := by
  fun_induction short quote cs generalizing n
  case case2 =>
    cases h
    cases more <;> simp [short]
  case case5 =>
    cases h
    simp [short]
  case case7 d cs hquote hnewline ih =>
    obtain ⟨m, hm, rfl⟩ := Extent.eq_closed_of_after h
    rw [List.cons_append, List.cons_append, short, if_neg hquote, if_pos rfl,
      if_neg hnewline, ih hm]
    rfl
  case case9 c d cs hquote hescape hnewline ih =>
    obtain ⟨m, hm, rfl⟩ := Extent.eq_closed_of_after h
    have hrest := ih hm
    rw [List.cons_append] at hrest
    rw [List.cons_append, List.cons_append, short, if_neg hquote, if_neg hescape, if_neg hnewline,
      hrest]
    rfl
  all_goals cases h

/-- A string that is closed in front of the end of its line is read so where lines follow. -/
theorem literal_line {quote : Char} (hquote : '\n' ≠ quote) {cs text : List Char} {n : Nat}
    (h : literal quote (quote :: cs) = .whole text n) (more : List Char) :
    literal quote (quote :: (cs ++ '\n' :: more)) = .whole text n := by
  have hlines : '\n' ∉ [quote, quote, quote] := by simp [hquote]
  have hquotes := isPrefixOf_stop hlines (quote :: cs) more
  rw [List.cons_append] at hquotes
  unfold literal at h ⊢
  rw [hquotes]
  split at h
  · next hlong =>
    have hlength : 2 ≤ cs.length := by
      have := (List.isPrefixOf_iff_prefix.1 hlong).length_le
      simp only [List.length_cons, List.length_nil] at this
      omega
    rw [if_pos hlong]
    simp only [List.drop_succ_cons, List.drop_append_of_le_length hlength] at h ⊢
    cases hextent : long quote (cs.drop 2) with
    | closed k =>
      have hk := long_within quote (cs.drop 2)
      rw [hextent] at h hk
      simp only [Extent.Within] at hk
      rw [long_append hextent]
      dsimp only at h ⊢
      rw [List.take_append_of_le_length (by omega)]
      exact h
    | unclosed k =>
      rw [hextent] at h
      cases h
  · next hshort =>
    rw [if_neg hshort]
    simp only [List.drop_succ_cons, List.drop_zero] at h ⊢
    cases hextent : short quote cs with
    | closed k =>
      have hk := short_within quote cs
      rw [hextent] at h hk
      simp only [Extent.Within] at hk
      rw [short_append hextent]
      dsimp only at h ⊢
      rw [List.take_append_of_le_length (by omega)]
      exact h
    | unclosed k =>
      rw [hextent] at h
      cases h

end Quoted

/-! ## Lexemes -/

namespace Symbol

theorem atStart?_stop {e : Char} (he : e ∈ stops) (cs more : List Char) :
    atStart? (cs ++ e :: more) = atStart? cs := by
  have hchars (s : Symbol) : e ∉ s.chars := by
    have h := Lexeme.false_of_mem_stops (p := s.chars.contains) (by cases s <;> decide) he
    simpa using h
  unfold atStart?
  exact congrArg all.find? (funext fun s => isPrefixOf_stop (hchars s) cs more)

end Symbol

namespace Lexeme

/-- The lexeme is no error. -/
def Fine : Lexeme → Prop
  | gap | token _ => True
  | bad _ | badNumber => False

theorem backslash_not_fine {cs : List Char} (hcs : '\n' ∉ cs) : ¬ (backslash cs).1.Fine := by
  unfold backslash
  split
  · exact absurd (by simp) hcs
  · exact absurd (by simp) hcs
  · exact id

section

variable {e : Char}

theorem number_ends (he : Numeral.Ends e) (c : Char) (cs more : List Char) :
    number c (cs ++ e :: more) = number c cs := by
  have hliteral := Numeral.literal_stop he (c := c) cs more
  rw [List.cons_append] at hliteral
  unfold number
  rw [hliteral]

variable (he : e ∈ stops)
include he

theorem word_stop (c : Char) (cs more : List Char) : word c (cs ++ e :: more) = word c cs := by
  unfold word
  rw [takeWhile_stop (false_of_mem_stops (by decide) he)]

theorem number_stop (c : Char) (cs more : List Char) :
    number c (cs ++ e :: more) = number c cs := number_ends (.of_mem_stops he) c cs more

theorem symbol_stop (c : Char) (cs more : List Char) :
    symbol c (cs ++ e :: more) = symbol c cs := by
  have hstart := Symbol.atStart?_stop he (c :: cs) more
  rw [List.cons_append] at hstart
  unfold symbol
  rw [hstart]

end

theorem quoted_line {quote : Char} (hquote : '\n' ≠ quote) {cs : List Char}
    (hfine : (quoted quote cs).1.Fine) (more : List Char) :
    quoted quote (cs ++ '\n' :: more) = quoted quote cs := by
  unfold quoted at hfine ⊢
  cases hliteral : Quoted.literal quote (quote :: cs) with
  | whole text n => rw [Quoted.literal_line hquote hliteral]
  | broken n =>
    rw [hliteral] at hfine
    exact hfine.elim

/-- A lexeme in a line is read as the same where further lines follow, unless it is an error. -/
theorem read_line {c : Char} {cs : List Char} (hc : c ≠ '\n') (hcs : '\n' ∉ cs)
    (hfine : (read c cs).1.Fine) (more : List Char) :
    read c (cs ++ '\n' :: more) = read c cs := by
  unfold read at hfine ⊢
  split at hfine
  · next h => rw [if_pos h, if_pos h, takeWhile_stop rfl]
  · next hblank =>
    rw [if_neg hblank, if_neg hblank]
    split at hfine
    · next h => rw [if_pos h, if_pos h, takeWhile_stop rfl]
    · next hcomment =>
      rw [if_neg hcomment, if_neg hcomment]
      split at hfine
      · exact absurd hfine (backslash_not_fine hcs)
      · next hescape =>
        rw [if_neg hescape, if_neg hescape, if_neg hc, if_neg hc]
        split at hfine
        · -- A carriage return alone is an error.
          split at hfine
          · exact absurd (by simp) hcs
          · exact hfine.elim
        · next hreturn =>
          rw [if_neg hreturn, if_neg hreturn, number_stop newline_mem_stops,
            symbol_stop newline_mem_stops]
          split at hfine
          · next h => rw [if_pos h, if_pos h, word_stop newline_mem_stops]
          · next hword =>
            rw [if_neg hword, if_neg hword]
            split at hfine
            · next h => rw [if_pos h, if_pos h]
            · next hdigit =>
              rw [if_neg hdigit, if_neg hdigit]
              split at hfine
              · next h => rw [if_pos h, if_pos h, quoted_line hc.symm hfine]
              · next h => rw [if_neg h, if_neg h]

end Lexeme

/-! ## Pieces -/

theorem Skips.line {gap rest : List Char} (h : Skips gap rest) (hgap : '\n' ∉ gap ++ rest)
    (more : List Char) : Skips gap (rest ++ '\n' :: more) := by
  induction h with
  | nil => exact .nil
  | @step c cs gap rest hread _ ih =>
    simp only [List.cons_append, List.mem_cons, List.append_assoc, List.mem_append, not_or]
      at hgap ih
    refine .step ?_ (ih ⟨hgap.2.2.1, hgap.2.2.2⟩)
    have hcs : '\n' ∉ cs ++ (gap ++ rest) := by simp [hgap]
    have hline := Lexeme.read_line (Ne.symm hgap.1) hcs (by rw [hread]; trivial) more
    rw [← hread, ← hline]
    simp

namespace Piece

theorem Fits.line {p : Piece} {rest : List Char} (h : p.Fits rest)
    (hline : '\n' ∉ p.gap ++ (p.chars ++ rest)) (more : List Char) :
    p.Fits (rest ++ '\n' :: more) := by
  obtain ⟨c, cs, hchars, hread⟩ := h.token
  refine ⟨?_, c, cs, hchars, ?_⟩
  · rw [← List.append_assoc]
    exact h.gap.line hline more
  · rw [hchars] at hline
    simp only [List.mem_append, List.cons_append, List.mem_cons, not_or] at hline
    rw [← List.append_assoc, Lexeme.read_line (Ne.symm hline.2.1) (by simp [hline])
      (by rw [hread]; trivial), hread]

/-- What a line is read as is read in front of further lines. -/
theorem Read.line {ps : List Piece} {tail : List Char} (h : Read ps tail)
    (hline : '\n' ∉ text ps ++ tail) {rest : List Char} (hrest : EndsLine rest) :
    Fit ps (tail ++ rest) ∧ Skips tail rest := by
  rcases hrest with rfl | ⟨more, rfl⟩
  · rw [List.append_nil]
    induction ps with
    | nil => exact ⟨trivial, h⟩
    | cons p ps ih =>
      obtain ⟨hps, htail⟩ := ih h.2 (by simp [text] at hline ⊢; tauto)
      exact ⟨⟨h.1, hps⟩, htail⟩
  · induction ps with
    | nil =>
      refine ⟨trivial, ?_⟩
      exact Skips.line h (by simpa [text] using hline) more
    | cons p ps ih =>
      have htext : text (p :: ps) ++ tail = p.gap ++ (p.chars ++ (text ps ++ tail)) :=
        by simp [text]
      rw [htext] at hline
      obtain ⟨hps, htail⟩ := ih h.2 (by simp at hline ⊢; tauto)
      refine ⟨⟨?_, hps⟩, htail⟩
      rw [← List.append_assoc]
      exact h.1.line hline more

end Piece

/-! ## Texts of one line -/

/-- The pieces of a line are tokens of the text, and no marks of its layout. -/
theorem Piece.Read.inner {ps : List Piece} {tail : List Char} (h : Read ps tail)
    (hline : '\n' ∉ text ps ++ tail) : ∀ p ∈ ps, p.kind.Inner := by
  induction ps with
  | nil => simp
  | cons p ps ih =>
    simp only [text, List.append_assoc, List.mem_append, not_or] at hline
    refine List.forall_mem_cons.2 ⟨h.1.inner fun hnewline => ?_, ih h.2 (by simp [hline])⟩
    obtain ⟨cs, hchars⟩ := h.1.newline hnewline
    exact hline.2.1 (by rw [hchars]; simp)

namespace Layout

/-- Behind the first token of a line there are no marks. -/
theorem through_inner {ps : List Piece} (hps : ∀ p ∈ ps, p.kind.Inner) (start : Nat) {s : State}
    (hs : s.fresh = false) : (through start s ps).tokens.map Token.kind = ps.map Piece.kind ∧
      (through start s ps).state.levels = s.levels ∧ (through start s ps).state.fresh = false := by
  induction ps generalizing start s with
  | nil => exact ⟨rfl, rfl, hs⟩
  | cons p ps ih =>
    obtain ⟨hp, hps⟩ := List.forall_mem_cons.1 hps
    obtain ⟨htokens, hlevels, hfresh⟩ := bracket_tokens ⟨p.kind, ⟨start + Text.byteLength p.gap,
      start + Text.byteLength p.gap + Text.byteLength p.chars⟩⟩ s
    unfold through
    dsimp only
    rw [Arranges.step_eq hp.2.1, if_neg (by simp [hs])]
    dsimp only
    obtain ⟨hkinds, hlevels', hfresh'⟩ := ih hps
      (start + Text.byteLength p.gap + Text.byteLength p.chars) (hfresh.trans hs)
    rw [htokens, List.map_append, hkinds]
    exact ⟨rfl, hlevels'.trans hlevels, hfresh'⟩

/-- A line that is not indented starts with its first token. -/
theorem eq_nil_of_indentation {gap : List Char} (hgap : '\n' ∉ gap) (h : indentation gap = 0) :
    gap = [] := by
  rcases lineHead_eq gap with hhead | ⟨before, hhead⟩
  · have hlength := length_le_width gap
    rw [indentation, hhead] at h
    rw [h] at hlength
    exact List.eq_nil_of_length_eq_zero (Nat.le_zero.1 hlength)
  · rw [hhead] at hgap
    simp at hgap

end Layout

/-- The tokens of a text of one line, unless it starts with a block. -/
theorem Lexed.ofText_oneLine {p : Piece} {ps : List Piece} {tail : List Char}
    (hread : Piece.Read (p :: ps) tail) (hline : '\n' ∉ Piece.text (p :: ps) ++ tail) :
    let lexed := Lexed.ofText (Piece.text (p :: ps) ++ tail)
    (∃ ks, lexed.tokens.map Token.kind = .indent :: ks) ∨
      p.gap = [] ∧ lexed.tokens.map Token.kind = (p :: ps).map Piece.kind ++ [.newline, .eof] := by
  intro lexed
  have hlexed : lexed = _ := Lexed.ofText_text hread
  obtain ⟨hp, hps⟩ := List.forall_mem_cons.1 (hread.inner hline)
  obtain ⟨htokens, hlevels, hfresh⟩ := Layout.bracket_tokens ⟨p.kind, ⟨0 + Text.byteLength p.gap,
    0 + Text.byteLength p.gap + Text.byteLength p.chars⟩⟩
    (Layout.indent (Layout.indentation p.gap) (0 + Text.byteLength p.gap) .start).state
  rw [Layout.indent_fresh] at hfresh
  obtain ⟨hkinds, hlevels', hfresh'⟩ := Layout.through_inner hps
    (0 + Text.byteLength p.gap + Text.byteLength p.chars) hfresh
  rw [hlevels] at hlevels'
  rw [hlexed, List.map_append]
  unfold Layout.through
  dsimp only
  rw [Layout.Arranges.step_eq hp.2.1, if_pos (by decide)]
  dsimp only
  rw [List.map_append, List.map_append, htokens, hkinds, Layout.finish, hlevels', hfresh']
  rcases Nat.eq_zero_or_pos (Layout.indentation p.gap) with hzero | hpos
  · have hgap : p.gap = [] :=
      Layout.eq_nil_of_indentation (by simp [Piece.text] at hline; tauto) hzero
    have hindent (position : Nat) :
        Layout.indent 0 position .start = ⟨⟨[], 0, false⟩, [], []⟩ := rfl
    rw [hzero, hindent]
    exact .inr ⟨hgap, by simp [Layout.mark]⟩
  · have hindent (position : Nat) : Layout.indent (Layout.indentation p.gap) position .start =
        ⟨⟨[Layout.indentation p.gap], 0, false⟩, [Layout.mark .indent position], []⟩ := if_pos hpos
    rw [hindent]
    exact .inl ⟨_, rfl⟩

end StagedScript
