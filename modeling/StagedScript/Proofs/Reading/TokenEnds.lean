import StagedScript.Proofs.Reading.Reread

/-!
# The ends of tokens

A token does not end with white space, except for the end of a line.
-/

namespace StagedScript

/-! ## Numbers -/

/-- No number goes on with white space. -/
theorem Numeral.Ends.of_isBlank {e : Char} (he : Text.isBlank e = true) : Ends e where
  digit := by
    have hrange := Text.toNat_of_isBlank he
    unfold digit?
    have hout {a b : Char} (ha : 32 < a.toNat) (hb : b.toNat < 133) : ¬ (a ≤ e ∧ e ≤ b) := by
      rintro ⟨hae, heb⟩
      have hae : a.toNat ≤ e.toNat := hae
      have heb : e.toNat ≤ b.toNat := heb
      omega
    rw [if_neg (hout (by decide) (by decide)), if_neg (hout (by decide) (by decide)),
      if_neg (hout (by decide) (by decide))]
  others h := by
    have hblank : ['_', '.', '+', '-', 'e', 'E'].any Text.isBlank = true :=
      List.any_eq_true.2 ⟨e, h, he⟩
    revert hblank
    decide
  base := by
    rw [List.find?_eq_none]
    intro base hbase hmark
    have hblank : bases.any (·.marks.any Text.isBlank) = true := List.any_eq_true.2
      ⟨base, hbase, List.any_eq_true.2 ⟨e, List.contains_iff_mem.1 hmark, he⟩⟩
    revert hblank
    decide

/-! ## Strings -/

namespace Quoted

/-- A long string ends with its quotes. -/
theorem long_closed {quote : Char} {cs : List Char} {n : Nat} (h : long quote cs = .closed n) :
    ∃ more, cs.drop n = quote :: quote :: quote :: more := by
  fun_induction long quote cs generalizing n
  case case1 cs k hitem hlt ih =>
    obtain ⟨n, hn, rfl⟩ := Extent.eq_closed_of_after h
    obtain ⟨more, hmore⟩ := ih hn
    rw [List.drop_drop] at hmore
    exact ⟨more, by rw [Nat.add_comm, hmore]⟩
  case case3 cs hclosing hitem =>
    obtain ⟨more, rfl⟩ := List.isPrefixOf_iff_prefix.1 hclosing
    cases h
    exact ⟨more, rfl⟩
  all_goals cases h

end Quoted

namespace Lexeme

/-- A string ends with its quote. -/
theorem eq_quote_of_quoted {c d : Char} {cs front rest : List Char} {k : Token.Kind}
    (h : quoted c cs = (.token k, front.length)) (hcs : c :: cs = front ++ d :: rest) : d = c := by
  have hd : (c :: cs)[front.length]? = some d := by
    rw [hcs]
    simp
  rw [quoted, Quoted.literal] at h
  by_cases hlong : [c, c, c].isPrefixOf (c :: cs) = true
  · obtain ⟨body, hbody⟩ := List.isPrefixOf_iff_prefix.1 hlong
    obtain rfl : cs = c :: c :: body := (List.cons.inj hbody).2.symm
    rw [if_pos hlong] at h
    simp only [List.drop_succ_cons, List.drop_zero] at h
    cases hextent : Quoted.long c body with
    | unclosed m =>
      rw [hextent] at h
      cases h
    | closed m =>
      rw [hextent] at h
      have hlength : m + 5 = front.length := (Prod.mk.inj h).2
      obtain ⟨more, hmore⟩ := Quoted.long_closed hextent
      have hthird : body[m + 2]? = some c := by
        rw [← List.getElem?_drop, hmore]
        rfl
      rw [← hlength] at hd
      exact Option.some.inj (hd.symm.trans hthird)
  · rw [if_neg hlong] at h
    simp only [List.drop_succ_cons, List.drop_zero] at h
    cases hextent : Quoted.short c cs with
    | unclosed m =>
      rw [hextent] at h
      cases h
    | closed m =>
      rw [hextent] at h
      have hlength : m + 1 = front.length := (Prod.mk.inj h).2
      obtain ⟨body, more, rfl, rfl, -, -⟩ := Quoted.short_closed hextent
      rw [← hlength, List.getElem?_cons_succ, List.getElem?_append_right (Nat.le_refl _),
        Nat.sub_self] at hd
      exact (Option.some.inj hd).symm

/-- A token that is not the end of a line ends with no white space. -/
theorem not_isBlank_last {c d : Char} {cs front rest : List Char} {k : Token.Kind} {n : Nat}
    (h : read c cs = (.token k, n)) (hk : k ≠ .newline) (hcs : c :: cs = front ++ d :: rest)
    (hlength : front.length = n) : Text.isBlank d = false := by
  subst hlength
  rw [Bool.eq_false_iff]
  intro hd
  rcases plain_of_token h with rfl | ⟨rfl, more, rfl⟩ | hplain
  · have h : (Lexeme.token .newline, 0) = (Lexeme.token k, front.length) := h
    exact hk (Lexeme.token.inj (Prod.mk.inj h).1).symm
  · have h : (Lexeme.token .newline, 1) = (Lexeme.token k, front.length) := h
    exact hk (Lexeme.token.inj (Prod.mk.inj h).1).symm
  cases front with
  | nil =>
    obtain ⟨rfl, rfl⟩ := List.cons.inj hcs
    rcases newline_of_isBlank hd h with rfl | ⟨rfl, -⟩
    · exact hplain.2.2.2.1 rfl
    · exact hplain.2.2.2.2 rfl
  | cons e front =>
    obtain ⟨rfl, hcs'⟩ := List.cons.inj hcs
    have hcs' : cs = front ++ d :: rest := hcs'
    -- White space ends words and numbers, so that one of them ends in front of it.
    have hlt {n : Nat} (hn : n ≤ front.length) : n ≠ (c :: front).length := by
      rw [List.length_cons]
      omega
    rw [read_plain hplain] at h
    split at h
    · have hpart : Word.isPart d = false := by
        rw [Bool.eq_false_iff]
        intro hpart
        obtain ⟨hstart, hdigit⟩ := Text.not_start_of_isBlank hd
        simp only [Word.isPart, Char.isAlphanum, Bool.or_eq_true] at hpart
        simp only [Word.isStart, Bool.or_eq_false_iff] at hstart
        rcases hpart with (hpart | hpart) | hpart
        · exact absurd (hstart.1.symm.trans hpart) Bool.false_ne_true
        · exact absurd (hdigit.symm.trans hpart) Bool.false_ne_true
        · exact absurd (hstart.2.symm.trans hpart) Bool.false_ne_true
      have htake := takeWhile_stop hpart front rest
      rw [hcs', word, htake] at h
      exact hlt (List.takeWhile_sublist _).length_le (Prod.mk.inj h).2
    split at h
    · next hword hc =>
      have hle := read_le c front
      rw [read_plain hplain, if_neg hword, if_pos hc] at hle
      rw [hcs', number_ends (.of_isBlank hd)] at h
      rw [h] at hle
      exact hlt hle rfl
    split at h
    · next hquote =>
      rw [eq_quote_of_quoted h hcs] at hd
      rcases hquote with rfl | rfl <;> revert hd <;> decide
    · cases hs : Symbol.atStart? (c :: cs) with
      | none =>
        rw [symbol, hs] at h
        cases h
      | some s =>
        rw [symbol, hs] at h
        have hlength : s.chars.length - 1 = front.length + 1 := (Prod.mk.inj h).2
        have hfound := List.find?_some hs
        have hchars : s.chars = c :: front ++ [d] := by
          refine List.IsPrefix.eq_of_length (List.prefix_of_prefix_length_le
            (List.isPrefixOf_iff_prefix.1 hfound) ⟨rest, ?_⟩ ?_) ?_
          · rw [hcs]
            simp
          · simp only [List.length_append, List.length_cons, List.length_nil]
            omega
          · simp only [List.length_append, List.length_cons, List.length_nil]
            omega
        have hall : s.chars.all (!Text.isBlank ·) = true := by cases s <;> rfl
        have hlast := List.all_eq_true.1 hall d (by rw [hchars]; simp)
        rw [hd] at hlast
        cases hlast

end Lexeme

end StagedScript
