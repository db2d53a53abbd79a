import StagedScript.Proofs.Reading.Reread

/-!
# Texts that are cut off

What is read as a token takes no look behind itself but for the characters that go on words, numbers
and signs.  So the tokens of a text stay what they are if the text is cut off behind one of them, in
front of a character that goes on none.
-/

namespace StagedScript

open Lexeme (stops)

/-! ## Strings -/

namespace Quoted

variable {quote : Char} {cs more text : List Char} {n : Nat}

theorem item?_cut (hcs : 3 ≤ cs.length) (more : List Char) :
    item? quote (cs ++ more) = item? quote cs := by
  match cs, hcs with
  | c :: d :: e :: cs, _ => rfl

theorem isPrefixOf_cut (hcs : 3 ≤ cs.length) (more : List Char) :
    [quote, quote, quote].isPrefixOf (cs ++ more) = [quote, quote, quote].isPrefixOf cs := by
  match cs, hcs with
  | c :: d :: e :: cs, _ => simp [List.isPrefixOf]

/-- A long string that is closed is closed by the quotes behind its body. -/
theorem long_cut (h : long quote (cs ++ more) = .closed n) (hcs : n + 3 ≤ cs.length) :
    long quote cs = .closed n := by
  induction hlength : cs.length using Nat.strongRecOn generalizing cs n with
  | ind l ih =>
    subst hlength
    rw [long, item?_cut (by omega), isPrefixOf_cut (by omega)] at h
    rw [long]
    split at h
    · next k hitem =>
      split at h
      · obtain ⟨m, hm, rfl⟩ := Extent.eq_closed_of_after h
        rw [List.drop_append_of_le_length (by omega)] at hm
        rw [if_pos (by omega), ih (cs.drop (k + 1)).length (by rw [List.length_drop]; omega) hm
          (by rw [List.length_drop]; omega) rfl]
        rfl
      · cases h
    · exact h

theorem Extent.after_ne_closed {e : Extent} {k : Nat} (hk : k ≠ 0) : e.after k ≠ .closed 0 := by
  intro h
  obtain ⟨m, -, hm⟩ := eq_closed_of_after h
  omega

/-- A short string that is closed is closed by the quote behind its body. -/
theorem short_cut (h : short quote (cs ++ more) = .closed n) (hcs : n + 1 ≤ cs.length) :
    short quote cs = .closed n := by
  induction hlength : cs.length using Nat.strongRecOn generalizing cs n with
  | ind l ih =>
    subst hlength
    match cs, hcs with
    | [c], hcs =>
      obtain rfl : n = 0 := by simpa using hcs
      cases more with
      | nil => exact h
      | cons d more =>
        rw [List.singleton_append, short] at h
        split_ifs at h with hquote hescape hd hc
        · rw [short, if_pos hquote]
        · exact absurd h (Extent.after_ne_closed (by simp))
        · exact absurd h (Extent.after_ne_closed (by simp))
    | c :: d :: cs, hcs =>
      rw [List.cons_append, List.cons_append, short] at h
      rw [short]
      have hbehind {ds : List Char} {k : Nat} (hk : k ≠ 0)
          (hds : k + ds.length = (c :: d :: cs).length) (h : (short quote (ds ++ more)).after k =
            .closed n) :
          (short quote ds).after k = .closed n := by
        obtain ⟨m, hm, rfl⟩ := Extent.eq_closed_of_after h
        rw [ih ds.length (by omega) hm (by omega) rfl]
        rfl
      split_ifs at h ⊢
      · exact h
      · exact hbehind (by simp) (by simp; omega) h
      · exact hbehind (by simp) (by simp; omega) h

/-- A string in front of which nothing but it matters. -/
theorem literal_cut (h : literal quote (quote :: (cs ++ more)) = .whole text n)
    (hcs : n ≤ cs.length + 1) :
    literal quote (quote :: cs) = .whole text n := by
  unfold literal at h ⊢
  split at h
  · next hlong =>
    dsimp only at h
    cases hextent : long quote ((quote :: (cs ++ more)).drop 3) with
    | closed k =>
      rw [hextent] at h
      cases h
      have hquotes : [quote, quote, quote].isPrefixOf (quote :: cs) = true := by
        rwa [← isPrefixOf_cut (by simp; omega) more]
      rw [if_pos hquotes]
      simp only [List.drop_succ_cons] at hextent ⊢
      rw [List.drop_append_of_le_length (by omega)] at hextent ⊢
      rw [long_cut hextent (by simp; omega), List.take_append_of_le_length (by simp; omega)]
    | unclosed k =>
      rw [hextent] at h
      cases h
  · next hshort =>
    dsimp only at h
    cases hextent : short quote ((quote :: (cs ++ more)).drop 1) with
    | closed k =>
      rw [hextent] at h
      cases h
      have hquotes : ¬ [quote, quote, quote].isPrefixOf (quote :: cs) = true := fun hquotes =>
        hshort (List.isPrefixOf_iff_prefix.2 ((List.isPrefixOf_iff_prefix.1 hquotes).trans
          (List.prefix_append (quote :: cs) more)))
      rw [if_neg hquotes]
      simp only [List.drop_succ_cons, List.drop_zero] at hextent ⊢
      rw [short_cut hextent (by omega), List.take_append_of_le_length (by omega)]
    | unclosed k =>
      rw [hextent] at h
      cases h

end Quoted

/-! ## Lexemes -/

namespace Lexeme

variable {c : Char} {cs rest behind : List Char} {k : Token.Kind}

theorem length_takeWhile_cut {p : Char → Bool}
    (h : ((cs ++ behind).takeWhile p).length ≤ cs.length) :
    (cs.takeWhile p).length = ((cs ++ behind).takeWhile p).length := by
  rw [List.takeWhile_append] at h ⊢
  split
  · next hall =>
    rw [if_pos hall, List.length_append] at h
    rw [List.length_append, hall]
    omega
  · rfl

theorem quoted_cut {quote : Char} (h : quoted quote (cs ++ behind) = (.token k, n))
    (hn : n ≤ cs.length) :
    quoted quote cs = (.token k, n) := by
  unfold quoted at h ⊢
  cases hliteral : Quoted.literal quote (quote :: (cs ++ behind)) with
  | whole text m =>
    rw [hliteral] at h
    cases h
    rw [Quoted.literal_cut hliteral (by omega)]
  | broken m =>
    rw [hliteral] at h
    cases h

/-- What is skipped stays so if the text is cut off behind it. -/
theorem read_gap_cut (h : read c (cs ++ behind) = (.gap, n)) (hn : n ≤ cs.length) :
    read c cs = (.gap, n) := by
  rcases read_gap h with ⟨hc, rfl⟩ | ⟨rfl, rfl⟩ | ⟨rfl, ⟨rfl, more, hmore⟩ | ⟨rfl, more, hmore⟩⟩
  · unfold read
    rw [if_pos hc, length_takeWhile_cut hn]
  · unfold read
    rw [if_neg (by decide), if_pos rfl, length_takeWhile_cut hn]
  · match cs, hn with
    | d :: cs, _ =>
      obtain ⟨rfl, -⟩ := List.cons.inj hmore
      rfl
  · match cs, hn with
    | d :: e :: cs, _ =>
      obtain ⟨rfl, hnewline⟩ := List.cons.inj hmore
      obtain ⟨rfl, -⟩ := List.cons.inj hnewline
      rfl

/-- A token stays what it is if the text is cut off behind it where no word goes on. -/
theorem read_token_cut (h : read c (cs ++ behind) = (.token k, n)) (hn : n ≤ cs.length)
    (hbehind : behind = [] ∨ ∃ e ∈ stops, ∃ more, behind = e :: more) :
    read c cs = (.token k, n) := by
  rcases hbehind with rfl | ⟨e, he, more, rfl⟩
  · rwa [List.append_nil] at h
  rcases plain_of_token h with rfl | ⟨rfl, more', hmore⟩ | hplain
  · exact h
  · cases cs with
    | nil =>
      rw [hmore] at h
      cases h
      exact absurd hn (by simp)
    | cons d cs =>
      obtain ⟨rfl, -⟩ := List.cons.inj hmore
      exact h
  · by_cases hquote : c = '"' ∨ c = '\''
    · rw [read_quote hquote] at h ⊢
      exact quoted_cut h hn
    · rwa [read_stop hplain hquote he] at h

end Lexeme

/-! ## Pieces -/

theorem Skips.cut {gap rest behind : List Char} (h : Skips gap (rest ++ behind)) :
    Skips gap rest := by
  generalize hmore : rest ++ behind = more at h
  induction h with
  | nil => exact .nil
  | @step c cs gap _ hread _ ih =>
    subst hmore
    rw [← List.append_assoc, ← List.append_assoc, List.append_assoc cs] at hread
    exact .step (Lexeme.read_gap_cut hread (by simp)) (ih rfl)

namespace Piece

variable {p : Piece} {ps : List Piece} {rest behind : List Char}
  (hbehind : behind = [] ∨ ∃ e ∈ stops, ∃ more, behind = e :: more)
include hbehind

theorem Fits.cut (h : p.Fits (rest ++ behind)) : p.Fits rest := by
  obtain ⟨hgap, c, cs, hchars, hread⟩ := h
  rw [← List.append_assoc] at hgap hread
  exact ⟨hgap.cut, c, cs, hchars, Lexeme.read_token_cut hread (by simp) hbehind⟩

/-- The pieces of a text that is cut off behind them. -/
theorem Fit.cut (h : Fit ps behind) : Read ps [] := by
  induction ps with
  | nil => exact .nil
  | cons p ps ih =>
    refine ⟨?_, ih h.2⟩
    rw [List.append_nil]
    exact Fits.cut hbehind h.1

end Piece

end StagedScript
