import Mathlib.Data.List.TakeWhile
import StagedScript.Proofs.Reading.LineEnds
import StagedScript.Text.Blank

/-!
# What is skipped in front of tokens

Blanks are skipped one by one, a comment is skipped up to the end of its line, and a backslash at
the end of a line joins it with the next one.  No other white space is skipped.
-/

namespace StagedScript

/-! ## What is skipped, character by character -/

namespace Lexeme

/-- What is skipped starts with a blank, a comment or a backslash at the end of a line. -/
theorem read_gap {c : Char} {cs : List Char} {n : Nat} (h : read c cs = (.gap, n)) :
    isBlank c = true ∧ n = (cs.takeWhile isBlank).length ∨
      c = '#' ∧ n = (cs.takeWhile (· != '\n')).length ∨
      c = '\\' ∧
      (n = 1 ∧ (∃ more, cs = '\n' :: more) ∨ n = 2 ∧ ∃ more, cs = '\r' :: '\n' :: more) := by
  unfold read at h
  split at h
  · next hc =>
    cases h
    exact .inl ⟨hc, rfl⟩
  · split at h
    · next hc =>
      cases h
      exact .inr (.inl ⟨hc, rfl⟩)
    · split at h
      · next hc =>
        unfold backslash at h
        split at h
        · cases h
          exact .inr (.inr ⟨hc, .inl ⟨rfl, _, rfl⟩⟩)
        · cases h
          exact .inr (.inr ⟨hc, .inr ⟨rfl, _, rfl⟩⟩)
        · cases h
      · split at h
        · cases h
        · split at h
          · split at h <;> cases h
          · split at h
            · cases h
            · split at h
              · unfold number at h
                dsimp only at h
                split at h <;> cases h
              · split at h
                · unfold quoted at h
                  split at h <;> cases h
                · unfold symbol at h
                  split at h <;> cases h

end Lexeme

namespace Skips

variable {c : Char} {gap rest : List Char}

/-- A blank may be skipped by itself. -/
theorem of_blank (hc : Lexeme.isBlank c = true) (h : Skips (c :: gap) rest) : Skips gap rest := by
  generalize hgap : c :: gap = cs at h
  cases h with
  | nil => cases hgap
  | @step d ds more _ hread hmore =>
    cases hgap
    cases ds with
    | nil => exact hmore
    | cons d ds =>
      have htake : (Lexeme.read c (d :: ds ++ (more ++ rest))).2 =
          ((d :: ds ++ (more ++ rest)).takeWhile Lexeme.isBlank).length := by
        unfold Lexeme.read
        rw [if_pos hc]
      rw [hread] at htake
      have hd : Lexeme.isBlank d = true := by
        by_contra hd
        rw [List.cons_append, List.takeWhile_cons_of_neg hd] at htake
        cases htake
      refine .step ?_ hmore
      rw [List.cons_append, List.takeWhile_cons_of_pos hd, List.length_cons, List.length_cons,
        Nat.add_right_cancel_iff] at htake
      unfold Lexeme.read
      rw [if_pos hd, ← htake]

theorem blank (hc : Lexeme.isBlank c = true) (hrest : Without Lexeme.isBlank rest)
    (h : Skips gap rest) : Skips (c :: gap) rest := by
  have hread (cs : List Char) : Lexeme.read c cs =
      (.gap, (cs.takeWhile Lexeme.isBlank).length) := by
    unfold Lexeme.read
    rw [if_pos hc]
  cases h with
  | nil =>
    have hstep : Lexeme.read c ([] ++ ([] ++ rest)) = (.gap, ([] : List Char).length) := by
      rw [hread, List.nil_append, List.nil_append, ← List.nil_append rest,
        Without.takeWhile_append (by simp) hrest]
    exact Skips.step hstep .nil
  | @step d ds more _ hd hmore =>
    by_cases hblank : Lexeme.isBlank d = true
    · have hlength : ds.length = ((ds ++ (more ++ rest)).takeWhile Lexeme.isBlank).length := by
        unfold Lexeme.read at hd
        rw [if_pos hblank] at hd
        exact (congrArg Prod.snd hd).symm
      have hstep : Lexeme.read c (d :: ds ++ (more ++ rest)) = (.gap, (d :: ds).length) := by
        rw [hread, List.cons_append, List.takeWhile_cons_of_pos hblank, List.length_cons,
          List.length_cons, hlength]
      exact Skips.step hstep hmore
    · have hstep : Lexeme.read c ([] ++ (d :: (ds ++ more) ++ rest)) =
          (.gap, ([] : List Char).length) := by
        rw [hread, List.nil_append, List.cons_append, List.takeWhile_cons_of_neg hblank,
          List.length_nil]
      exact Skips.step hstep (.step hd hmore)

theorem of_blanks {blanks : List Char} (hblanks : ∀ c ∈ blanks, Lexeme.isBlank c = true)
    (h : Skips (blanks ++ gap) rest) : Skips gap rest := by
  induction blanks with
  | nil => exact h
  | cons c blanks ih =>
    obtain ⟨hc, hblanks⟩ := List.forall_mem_cons.1 hblanks
    exact ih hblanks (h.of_blank hc)

theorem blanks_append {blanks : List Char} (hblanks : ∀ c ∈ blanks, Lexeme.isBlank c = true)
    (hrest : Without Lexeme.isBlank rest) (h : Skips gap rest) : Skips (blanks ++ gap) rest := by
  induction blanks with
  | nil => exact h
  | cons c blanks ih =>
    obtain ⟨hc, hblanks⟩ := List.forall_mem_cons.1 hblanks
    exact (ih hblanks).blank hc hrest

theorem comment {cs more : List Char} (hcs : '\n' ∉ cs) : Skips ('#' :: cs) ('\n' :: more) := by
  have hread : Lexeme.read '#' (cs ++ ([] ++ '\n' :: more)) = (.gap, cs.length) := by
    rw [List.nil_append]
    change (Lexeme.gap, ((cs ++ '\n' :: more).takeWhile (· != '\n')).length) = _
    rw [takeWhile_stop (by decide), List.takeWhile_eq_self_iff.2]
    intro d hd
    exact bne_iff_ne.2 fun h => hcs (h ▸ hd)
  have hstep := Skips.step hread .nil
  rwa [List.append_nil] at hstep

theorem join (h : Skips gap rest) : Skips ('\\' :: '\n' :: gap) rest :=
  have hstep : Lexeme.read '\\' (['\n'] ++ (gap ++ rest)) = (.gap, ['\n'].length) := rfl
  Skips.step hstep h

/-- What is skipped in front of a text that is not empty: nothing, a blank, a comment up to the end
of the line, or two lines are joined. -/
theorem cases_gap (h : Skips gap rest) (hrest : rest ≠ []) : gap = [] ∨
    (∃ c more, gap = c :: more ∧ Lexeme.isBlank c = true ∧ Skips more rest) ∨
    (∃ cs more, gap = '#' :: cs ∧ '\n' ∉ cs ∧ rest = '\n' :: more) ∨
    (∃ more, gap = '\\' :: '\n' :: more ∧ Skips more rest) ∨
    ∃ more, gap = '\\' :: '\r' :: '\n' :: more ∧ Skips more rest := by
  cases h with
  | nil => exact .inl rfl
  | @step c cs gap _ hread hgap =>
    right
    have hstep : Skips (c :: (cs ++ gap)) rest := .step hread hgap
    rcases Lexeme.read_gap hread with ⟨hc, -⟩ | ⟨rfl, hn⟩ | ⟨rfl, ⟨hn, more, hcs⟩ | ⟨hn, more, hcs⟩⟩
    · exact .inl ⟨c, cs ++ gap, rfl, hc, hstep.of_blank hc⟩
    · -- A comment takes all that is in front of the line feed, which ends what is skipped.
      have htake : (cs ++ (gap ++ rest)).takeWhile (· != '\n') = cs := by
        have hfront := List.takeWhile_prefix (· != '\n') (l := cs ++ (gap ++ rest))
        exact (List.prefix_of_prefix_length_le hfront (List.prefix_append cs _)
          (Nat.le_of_eq hn.symm) ).eq_of_length hn.symm
      have hnewline : '\n' ∉ cs := by
        intro hmem
        rw [← htake] at hmem
        have := List.mem_takeWhile_imp hmem
        simp at this
      have hdrop : ∃ more, gap ++ rest = '\n' :: more := by
        obtain ⟨d, ds, hds⟩ := List.exists_cons_of_ne_nil (l := gap ++ rest) (by simp [hrest])
        refine ⟨ds, ?_⟩
        by_contra hne
        have hd : (d != '\n') = true := by
          rw [bne_iff_ne]
          rintro rfl
          exact hne hds
        have hpos (a : Char) (ha : a ∈ cs) : (a != '\n') = true := by
          rw [bne_iff_ne]
          rintro rfl
          exact hnewline ha
        rw [hds, List.takeWhile_append_of_pos hpos,
          List.takeWhile_cons_of_pos (p := (· != '\n')) hd] at htake
        have hlength := congrArg List.length htake
        simp only [List.length_append, List.length_cons] at hlength
        omega
      obtain ⟨more, hmore⟩ := hdrop
      cases hgap with
      | nil => exact .inr (.inl ⟨cs, more, by rw [List.append_nil], hnewline, hmore⟩)
      | step hread' _ =>
        cases hmore
        cases hread'
    · obtain ⟨d, rfl⟩ := List.length_eq_one_iff.1 hn
      cases hcs
      exact .inr (.inr (.inl ⟨gap, rfl, hgap⟩))
    · obtain ⟨d, e, rfl⟩ := List.length_eq_two.1 hn
      cases hcs
      exact .inr (.inr (.inr ⟨gap, rfl, hgap⟩))

end Skips

/-! ## White space -/

namespace Text

theorem toNat_of_isBlank {c : Char} (h : isBlank c = true) : c.toNat ≤ 32 ∨ 133 ≤ c.toNat := by
  simp only [isBlank, inRanges, blankRanges, List.any_cons, List.any_nil, Bool.or_eq_true,
    decide_eq_true_eq, Bool.or_false] at h
  omega

theorem ne_of_isBlank {c d : Char} (h : isBlank c = true) (hd : isBlank d = false) : c ≠ d := by
  rintro rfl
  rw [h] at hd
  cases hd

/-- No word and no number starts with white space. -/
theorem not_start_of_isBlank {c : Char} (h : isBlank c = true) :
    Word.isStart c = false ∧ c.isDigit = false := by
  have hrange := toNat_of_isBlank h
  have hunderscore : c ≠ '_' := ne_of_isBlank h (by decide)
  unfold Char.toNat at hrange
  constructor
  · change (decide (c.val ≥ 'A'.val ∧ c.val ≤ 'Z'.val) ||
      decide (c.val ≥ 'a'.val) && decide (c.val ≤ 'z'.val) || c == '_') = false
    simp only [Bool.or_eq_false_iff, Bool.and_eq_false_iff, decide_eq_false_iff_not, ge_iff_le,
      UInt32.le_iff_toNat_le,
      beq_eq_false_iff_ne, ne_eq, hunderscore, not_false_eq_true, and_true]
    have : 'A'.val.toNat = 65 := rfl
    have : 'Z'.val.toNat = 90 := rfl
    have : 'a'.val.toNat = 97 := rfl
    have : 'z'.val.toNat = 122 := rfl
    omega
  · simp only [Char.isDigit, Bool.and_eq_false_iff, decide_eq_false_iff_not, ge_iff_le,
      UInt32.le_iff_toNat_le]
    have : '0'.val.toNat = 48 := rfl
    have : '9'.val.toNat = 57 := rfl
    omega

/-- No sign starts with white space. -/
theorem atStart?_of_isBlank {c : Char} (h : isBlank c = true) (cs : List Char) :
    Symbol.atStart? (c :: cs) = none := by
  refine List.find?_eq_none.2 fun s _ => ?_
  obtain ⟨d, ds, hd⟩ : ∃ d ds, s.chars = d :: ds := by cases s <;> exact ⟨_, _, rfl⟩
  have hne : d ≠ c := (ne_of_isBlank h (by cases s <;> cases hd <;> decide)).symm
  rw [hd]
  simp [List.isPrefixOf, hne]

end Text

namespace Lexeme

variable {c : Char} {cs : List Char}

/-- White space is read as a token only where it ends a line. -/
theorem newline_of_isBlank (hc : Text.isBlank c = true) {k : Token.Kind} {n : Nat}
    (h : read c cs = (.token k, n)) : c = '\n' ∨ c = '\r' ∧ ∃ more, cs = '\n' :: more := by
  have hblank := (read_token h).1
  by_cases hnewline : c = '\n'
  · exact .inl hnewline
  · by_cases hreturn : c = '\r'
    · subst hreturn
      unfold read at h
      rw [if_neg (by decide), if_neg (by decide), if_neg (by decide), if_neg (by decide),
        if_pos rfl] at h
      split at h
      · exact .inr ⟨rfl, _, rfl⟩
      · cases h
    · have hplain : plain c := ⟨hblank, Text.ne_of_isBlank hc (by decide),
        Text.ne_of_isBlank hc (by decide), hnewline, hreturn⟩
      obtain ⟨hstart, hdigit⟩ := Text.not_start_of_isBlank hc
      have hquote : ¬ (c = '"' ∨ c = '\'') := not_or.2
        ⟨Text.ne_of_isBlank hc (by decide), Text.ne_of_isBlank hc (by decide)⟩
      rw [read_plain hplain, if_neg (by simp [hstart]), if_neg (by simp [hdigit]), if_neg hquote,
        symbol, Text.atStart?_of_isBlank hc] at h
      cases h

/-- The blanks are white space. -/
theorem isBlank_text (h : isBlank c = true) : Text.isBlank c = true := by
  simp only [isBlank, Bool.or_eq_true, beq_iff_eq] at h
  rcases h with (rfl | rfl) | rfl <;> decide

theorem isBlank_of_read_gap (hc : Text.isBlank c = true) {n : Nat} (h : read c cs = (.gap, n)) :
    isBlank c = true := by
  rcases read_gap h with ⟨hblank, -⟩ | ⟨rfl, -⟩ | ⟨rfl, -⟩
  · exact hblank
  · cases hc
  · cases hc

end Lexeme

/-- White space that is skipped consists of blanks. -/
theorem Skips.isBlank_of_isBlank {blanks gap rest : List Char}
    (hblanks : ∀ c ∈ blanks, Text.isBlank c = true) (h : Skips (blanks ++ gap) rest) :
    ∀ c ∈ blanks, Lexeme.isBlank c = true := by
  induction blanks with
  | nil => simp
  | cons c blanks ih =>
    obtain ⟨hc, hblanks⟩ := List.forall_mem_cons.1 hblanks
    have hblank : Lexeme.isBlank c = true := by
      generalize hcs : c :: blanks ++ gap = cs at h
      cases h with
      | nil => cases hcs
      | step hread _ =>
        obtain ⟨rfl, -⟩ := List.cons.inj hcs
        exact Lexeme.isBlank_of_read_gap hc hread
    exact List.forall_mem_cons.2 ⟨hblank, ih hblanks (h.of_blank hblank)⟩

/-- The end of a line is not skipped. -/
theorem Skips.not_return {c : Char} {gap rest : List Char} (h : Skips (c :: gap) rest) :
    c ≠ '\n' ∧ c ≠ '\r' := by
  generalize hcs : c :: gap = cs at h
  cases h with
  | nil => cases hcs
  | step hread _ =>
    cases hcs
    rcases Lexeme.read_gap hread with ⟨hblank, -⟩ | ⟨rfl, -⟩ | ⟨rfl, -⟩
    · constructor
      · rintro rfl
        cases hblank
      · rintro rfl
        cases hblank
    · decide
    · decide

namespace Layout

variable {cs ds : List Char}

theorem lineHead_append (h : '\n' ∈ ds) : lineHead (cs ++ ds) = lineHead ds := by
  unfold lineHead
  rw [List.reverse_append, List.takeWhile_append, if_neg]
  intro hlength
  have hall := (List.takeWhile_prefix (· != '\n') (l := ds.reverse)).eq_of_length hlength
  have hmem : '\n' ∈ ds.reverse.takeWhile (· != '\n') := by
    rw [hall]
    exact List.mem_reverse.2 h
  have := List.mem_takeWhile_imp hmem
  simp at this

theorem lineHead_of_not_mem (h : '\n' ∉ cs) : lineHead cs = cs := by
  rcases lineHead_eq cs with hhead | ⟨before, hhead⟩
  · exact hhead
  · rw [hhead] at h
    simp at h

theorem lineHead_cons_newline : lineHead ('\n' :: cs) = lineHead cs := by
  by_cases h : '\n' ∈ cs
  · rw [← List.singleton_append, lineHead_append h]
  · unfold lineHead
    rw [List.reverse_cons, List.takeWhile_append_of_pos, List.takeWhile_cons_of_neg (by simp),
      List.append_nil]
    · rw [← lineHead, lineHead_of_not_mem h, List.reverse_reverse]
    · intro c hc
      rw [bne_iff_ne]
      rintro rfl
      exact h (List.mem_reverse.1 hc)

end Layout

end StagedScript
