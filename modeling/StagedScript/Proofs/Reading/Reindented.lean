import StagedScript.Proofs.Reading.Gaps

/-!
# Texts that are indented anew

The lines of a text lose their common margin and get another one.  Lines of white space alone become
empty, and carriage returns in front of line feeds are dropped.  Within a line nothing changes, so a
token that stands on one line stays what it is.
-/

namespace StagedScript

open Lexeme (stops)

/-- How a text is indented anew, up to what is behind it. -/
structure Reindent where
  /-- The margin that its lines have in common. -/
  old : List Char
  /-- The margin that they get. -/
  new : List Char
  /-- What is behind the text. -/
  oldBehind : List Char
  /-- What is behind it when it is indented anew. -/
  newBehind : List Char
  old_blank : ∀ c ∈ old, Lexeme.isBlank c = true
  new_blank : ∀ c ∈ new, Lexeme.isBlank c = true
  old_stops : oldBehind = [] ∨ ∃ e ∈ stops, ∃ rest, oldBehind = e :: rest
  new_stops : ∃ rest, newBehind = '\n' :: rest

/-- A line of white space alone, without the end of it: a carriage return in front of a line feed
belongs to that. -/
structure Text.Empty (line rest : List Char) : Prop where
  blank : ∀ c ∈ line, Text.isBlank c = true ∧ c ≠ '\n'
  ends : (∃ more, rest = '\n' :: more) ∧ line.getLast? ≠ some '\r' ∨
    ∃ more, rest = '\r' :: '\n' :: more

namespace Reindent

variable (ρ : Reindent)

/-- From within a line on, the second text is the first one indented anew. -/
inductive Inside : List Char → List Char → Prop
  | behind : Inside ρ.oldBehind ρ.newBehind
  | char {c : Char} {x y : List Char} : c ≠ '\n' → (c = '\r' → ∀ more, x ≠ '\n' :: more) →
      Inside x y → Inside (c :: x) (c :: y)
  | ret {x y : List Char} : Inside ('\n' :: x) y → Inside ('\r' :: '\n' :: x) y
  | line {x y : List Char} : Inside x y → Inside ('\n' :: (ρ.old ++ x)) ('\n' :: (ρ.new ++ y))
  | empty {blanks x y : List Char} : Text.Empty blanks x → Inside x y →
      Inside ('\n' :: (blanks ++ x)) ('\n' :: (ρ.new ++ y))

/-- From the start of a line on, the second text is the first one indented anew. -/
inductive AtStart : List Char → List Char → Prop
  | line {x y : List Char} : ρ.Inside x y → AtStart (ρ.old ++ x) (ρ.new ++ y)
  | empty {blanks x y : List Char} : Text.Empty blanks x → ρ.Inside x y →
      AtStart (blanks ++ x) (ρ.new ++ y)

variable {ρ} {x y : List Char}

/-- In front of a line stands the end of another one. -/
theorem AtStart.inside (h : ρ.AtStart x y) : ρ.Inside ('\n' :: x) ('\n' :: y) := by
  cases h with
  | line h => exact .line h
  | empty hblanks h => exact .empty hblanks h

namespace Inside

theorem le_length (h : ρ.Inside x y) : ρ.oldBehind.length ≤ x.length := by
  induction h with
  | behind => exact Nat.le_refl _
  | char _ _ _ ih => exact Nat.le_succ_of_le ih
  | ret _ ih => exact Nat.le_succ_of_le ih
  | line _ ih => simp only [List.length_cons, List.length_append]; omega
  | empty _ _ ih => simp only [List.length_cons, List.length_append]; omega

/-- Behind the text the end is reached on both sides. -/
theorem eq_behind (h : ρ.Inside ρ.oldBehind y) : y = ρ.newBehind := by
  generalize hx : ρ.oldBehind = x at h
  have hlength := congrArg List.length hx
  cases h with
  | behind => rfl
  | char _ _ h =>
    have := h.le_length
    simp only [List.length_cons] at hlength
    omega
  | ret h =>
    have := h.le_length
    simp only [List.length_cons] at hlength this
    omega
  | line h =>
    have := h.le_length
    simp only [List.length_cons, List.length_append] at hlength
    omega
  | empty _ h =>
    have := h.le_length
    simp only [List.length_cons, List.length_append] at hlength
    omega

/-- A character within a line stays what it is. -/
theorem uncons {c : Char} (h : ρ.Inside (c :: x) y) (hc : c ≠ '\n')
    (hreturn : c = '\r' → ∀ more, x ≠ '\n' :: more) (hlength : ρ.oldBehind.length ≤ x.length) :
    ∃ y', y = c :: y' ∧ ρ.Inside x y' := by
  generalize hx : c :: x = z at h
  cases h with
  | behind =>
    rw [← hx, List.length_cons] at hlength
    omega
  | char _ _ h =>
    cases hx
    exact ⟨_, rfl, h⟩
  | ret h =>
    cases hx
    exact (hreturn rfl _ rfl).elim
  | line h => exact absurd (List.cons.inj hx).1 hc
  | empty _ h => exact absurd (List.cons.inj hx).1 hc

/-- The end of a line, and the start of the next one. -/
theorem uncons_newline (h : ρ.Inside ('\n' :: x) y) (hlength : ρ.oldBehind.length ≤ x.length) :
    ∃ y', y = '\n' :: y' ∧ ρ.AtStart x y' := by
  generalize hx : '\n' :: x = z at h
  cases h with
  | behind =>
    rw [← hx, List.length_cons] at hlength
    omega
  | char hc => exact absurd (List.cons.inj hx).1.symm hc
  | ret h => cases hx
  | line h =>
    cases hx
    exact ⟨_, rfl, .line h⟩
  | empty hblanks h =>
    cases hx
    exact ⟨_, rfl, .empty hblanks h⟩

/-- A carriage return in front of a line feed is dropped. -/
theorem uncons_return (h : ρ.Inside ('\r' :: '\n' :: x) y)
    (hlength : ρ.oldBehind.length ≤ x.length) :
    ∃ y', y = '\n' :: y' ∧ ρ.AtStart x y' := by
  generalize hx : '\r' :: '\n' :: x = z at h
  cases h with
  | behind =>
    rw [← hx, List.length_cons, List.length_cons] at hlength
    omega
  | char hc hreturn =>
    cases hx
    exact (hreturn rfl _ rfl).elim
  | ret h =>
    cases hx
    exact h.uncons_newline hlength
  | line h => cases hx
  | empty hblanks h => cases hx

theorem newline_head (h : ρ.Inside ('\n' :: x) y) : ∃ more, y = '\n' :: more := by
  generalize hx : '\n' :: x = z at h
  cases h with
  | behind => exact ρ.new_stops
  | char hc => exact absurd (List.cons.inj hx).1.symm hc
  | ret => cases hx
  | line => exact ⟨_, rfl⟩
  | empty => exact ⟨_, rfl⟩

/-- Up to the end of the line, or of the text, both texts are the same. -/
theorem front (h : ρ.Inside x y) : ∃ line x' y', x = line ++ x' ∧ y = line ++ '\n' :: y' ∧
    '\n' ∉ line ∧ (x' = [] ∨ ∃ e ∈ stops, ∃ more, x' = e :: more) ∧
    ∀ done rest, line = done ++ rest → ρ.Inside (rest ++ x') (rest ++ '\n' :: y') := by
  have hnil {x y : List Char} (h : ρ.Inside x y) (done rest : List Char)
      (hline : [] = done ++ rest) : ρ.Inside (rest ++ x) (rest ++ y) := by
    obtain ⟨-, rfl⟩ := List.append_eq_nil_iff.1 hline.symm
    exact h
  induction h with
  | behind =>
    obtain ⟨rest, hrest⟩ := ρ.new_stops
    exact ⟨[], ρ.oldBehind, rest, rfl, hrest, by simp, ρ.old_stops, hnil (hrest ▸ .behind)⟩
  | @char c x y hc hreturn h ih =>
    obtain ⟨line, x', y', rfl, rfl, hline, hstops, hinside⟩ := ih
    refine ⟨c :: line, x', y', rfl, rfl, ?_, hstops, fun done rest hdone => ?_⟩
    · rw [List.mem_cons, not_or]
      exact ⟨hc.symm, hline⟩
    · cases done with
      | nil =>
        cases hdone
        exact .char hc hreturn h
      | cons d done =>
        rw [List.cons_append] at hdone
        obtain ⟨rfl, hrest⟩ := List.cons.inj hdone
        exact hinside done rest hrest
  | @ret x y h ih =>
    obtain ⟨more, rfl⟩ := h.newline_head
    exact ⟨[], _, more, rfl, rfl, by simp, .inr ⟨'\r', by decide, _, rfl⟩, hnil (.ret h)⟩
  | line h => exact ⟨[], _, _, rfl, rfl, by simp, .inr ⟨'\n', by decide, _, rfl⟩, hnil (.line h)⟩
  | empty hblanks h =>
    exact ⟨[], _, _, rfl, rfl, by simp, .inr ⟨'\n', by decide, _, rfl⟩, hnil (.empty hblanks h)⟩

/-- The rest of a line, but for a carriage return at its end. -/
theorem line_end {line : List Char} (h : ρ.Inside (line ++ '\n' :: x) y) (hline : '\n' ∉ line)
    (hlength : ρ.oldBehind.length ≤ x.length) :
    ∃ line' y', y = line' ++ '\n' :: y' ∧ '\n' ∉ line' ∧ ρ.Inside ('\n' :: x) ('\n' :: y') := by
  induction line generalizing y with
  | nil =>
    obtain ⟨y', rfl, h'⟩ := h.uncons_newline hlength
    exact ⟨[], y', rfl, by simp, h⟩
  | cons c line ih =>
    rw [List.mem_cons, not_or] at hline
    by_cases hreturn : c = '\r' ∧ line = []
    · obtain ⟨rfl, rfl⟩ := hreturn
      obtain ⟨y', rfl, h'⟩ := Inside.uncons_return h hlength
      exact ⟨[], y', rfl, by simp, h'.inside⟩
    · have hno (hc : c = '\r') (more : List Char) : line ++ '\n' :: x ≠ '\n' :: more := by
        cases line with
        | nil => exact absurd ⟨hc, rfl⟩ hreturn
        | cons d line =>
          intro hd
          exact hline.2 (by simp [(List.cons.inj hd).1])
      have hle : ρ.oldBehind.length ≤ (line ++ '\n' :: x).length := by
        rw [List.length_append, List.length_cons]
        omega
      rw [List.cons_append] at h
      obtain ⟨y₁, rfl, h₁⟩ := h.uncons (Ne.symm hline.1) hno hle
      obtain ⟨line', y', rfl, hline', h'⟩ := ih h₁ hline.2
      exact ⟨c :: line', y', rfl, by simp [hline.1, hline'], h'⟩

end Inside

/-! ## Gaps -/

/-- The tokens behind these gaps stand at the starts of their lines but for what is the same on both
sides. -/
def Indents (ρ : Reindent) (gap gap' : List Char) : Prop :=
  ∃ blanks, Layout.lineHead gap = ρ.old ++ blanks ∧ Layout.lineHead gap' = ρ.new ++ blanks

section

variable {c : Char} {cs gap : List Char} {k : Token.Kind} {n : Nat}
  (hread : Lexeme.read c cs = (.token k, n)) (hlength : ρ.oldBehind.length + n ≤ cs.length)
include hread hlength

/-- In front of a token no blank is left. -/
theorem Inside.without_blank (h : ρ.Inside (c :: cs) y) : Without Lexeme.isBlank y := by
  have hblank := (Lexeme.read_token hread).1
  by_cases hnewline : c = '\n'
  · subst hnewline
    obtain ⟨y', rfl, -⟩ := h.uncons_newline (by omega)
    exact .cons rfl
  · by_cases hreturn : c = '\r' ∧ ∃ more, cs = '\n' :: more
    · obtain ⟨rfl, more, rfl⟩ := hreturn
      cases hread
      obtain ⟨y', rfl, -⟩ := h.uncons_return (by simp only [List.length_cons] at hlength; omega)
      exact .cons rfl
    · have hno (hc : c = '\r') (more : List Char) : cs ≠ '\n' :: more :=
        fun hcs => hreturn ⟨hc, more, hcs⟩
      obtain ⟨y', rfl, -⟩ := h.uncons hnewline hno (by omega)
      exact .cons hblank

/-- What the two gaps in front of a token have to do with each other, from within a line on. -/
def FromInside (ρ : Reindent) (c : Char) (cs : List Char) (k : Token.Kind) (gap : List Char) :
    Prop :=
  ∀ y, ρ.Inside (gap ++ c :: cs) y → ∃ gap' y', y = gap' ++ y' ∧ Skips gap' y' ∧
    ρ.Inside (c :: cs) y' ∧ (k = .newline ∨ gap' = gap ∧ '\n' ∉ gap ∨
      '\n' ∈ gap ∧ '\n' ∈ gap' ∧ ρ.Indents gap gap')

omit hread hlength in
/-- A text that starts with a margin, or without one. -/
theorem append_eq_append_of_blank {blanks x : List Char}
    (hblanks : ∀ d ∈ blanks, Lexeme.isBlank d = true) (hc : Lexeme.isBlank c = false)
    (h : gap ++ c :: cs = blanks ++ x) :
    ∃ more, gap = blanks ++ more ∧ x = more ++ c :: cs := by
  rcases List.append_eq_append_iff.1 h with ⟨more, rfl, hmore⟩ | ⟨more, rfl, rfl⟩
  · cases more with
    | nil => exact ⟨[], by simp, hmore.symm⟩
    | cons d more =>
      obtain ⟨rfl, -⟩ := List.cons.inj hmore
      rw [hblanks c (by simp)] at hc
      cases hc
  · exact ⟨more, rfl, rfl⟩

omit hlength in
/-- A line of white space alone has no token but its end. -/
theorem eq_of_empty {blanks x : List Char} (hblanks : Text.Empty blanks x)
    (hskips : Skips gap (c :: cs)) (h : gap ++ c :: cs = blanks ++ x) :
    gap = blanks ∧ c :: cs = x ∧ k = .newline := by
  have hnewline {x : List Char} (h : c :: cs = x)
      (hx : (∃ more, x = '\n' :: more) ∨ ∃ more, x = '\r' :: '\n' :: more) : k = .newline := by
    rcases hx with ⟨more, rfl⟩ | ⟨more, rfl⟩
    · cases h
      cases hread
      rfl
    · cases h
      cases hread
      rfl
  have hends := hblanks.ends.imp And.left id
  rcases List.append_eq_append_iff.1 h with ⟨more, rfl, hmore⟩ | ⟨more, rfl, rfl⟩
  · cases more with
    | nil => exact ⟨(List.append_nil gap).symm, hmore, hnewline hmore hends⟩
    | cons d more =>
      -- A character of the line would be read as the end of it.
      exfalso
      obtain ⟨rfl, rfl⟩ := List.cons.inj hmore
      obtain ⟨hc, hne⟩ := hblanks.blank c (by simp)
      obtain ⟨rfl, rest, hrest⟩ := (Lexeme.newline_of_isBlank hc hread).resolve_left hne
      cases more with
      | nil =>
        rcases hblanks.ends with ⟨-, hlast⟩ | ⟨rest', rfl⟩
        · exact hlast (by simp)
        · cases hrest
      | cons e more => exact (hblanks.blank e (by simp)).2 (List.cons.inj hrest).1
  · cases more with
    | nil => exact ⟨List.append_nil blanks, rfl, hnewline rfl hends⟩
    | cons d more =>
      exfalso
      have hall := hskips.isBlank_of_isBlank fun b hb => (hblanks.blank b hb).1
      have hd := (hskips.of_blanks hall).not_return
      rcases hends with ⟨rest, hrest⟩ | ⟨rest, hrest⟩
      · exact hd.1 (List.cons.inj hrest).1
      · exact hd.2 (List.cons.inj hrest).1

/-- At the start of a line the margins differ, and from there on the gaps are those within a
line. -/
theorem skips_of_atStart (hskips : Skips gap (c :: cs))
    (hinside : ∀ more, more.length ≤ gap.length → Skips more (c :: cs) → FromInside ρ c cs k more)
    (h : ρ.AtStart (gap ++ c :: cs) y) : ∃ gap' y', y = gap' ++ y' ∧ Skips gap' y' ∧
      ρ.Inside (c :: cs) y' ∧ (k = .newline ∨ ρ.Indents gap gap') := by
  have hblank := (Lexeme.read_token hread).1
  have hmargin {blanks : List Char} (hblanks : ∀ d ∈ blanks, Lexeme.isBlank d = true) :
      '\n' ∉ blanks := by
    intro hmem
    have := hblanks _ hmem
    cases this
  generalize htext : gap ++ c :: cs = x at h
  cases h with
  | @line x y h =>
    obtain ⟨more, rfl, rfl⟩ := append_eq_append_of_blank ρ.old_blank hblank htext
    obtain ⟨gap', y', rfl, hgap', h', hgaps⟩ :=
      hinside more (by simp) (hskips.of_blanks ρ.old_blank) y h
    refine ⟨ρ.new ++ gap', y', (List.append_assoc ..).symm,
      hgap'.blanks_append ρ.new_blank (h'.without_blank hread hlength), h', ?_⟩
    rcases hgaps with hk | ⟨rfl, hmem⟩ | ⟨hmem, hmem', blanks, hold, hnew⟩
    · exact .inl hk
    · refine .inr ⟨gap', Layout.lineHead_of_not_mem ?_, Layout.lineHead_of_not_mem ?_⟩
      · simp [hmargin ρ.old_blank, hmem]
      · simp [hmargin ρ.new_blank, hmem]
    · refine .inr ⟨blanks, ?_, ?_⟩
      · rw [Layout.lineHead_append hmem, hold]
      · rw [Layout.lineHead_append hmem', hnew]
  | @empty blanks x y hblanks h =>
    obtain ⟨rfl, rfl, hk⟩ := eq_of_empty hread hblanks hskips htext
    have hskips' : Skips (ρ.new ++ []) y :=
      .blanks_append ρ.new_blank (h.without_blank hread hlength) .nil
    rw [List.append_nil] at hskips'
    exact ⟨ρ.new, y, rfl, hskips', h, .inl hk⟩

theorem fromInside (hskips : Skips gap (c :: cs)) : FromInside ρ c cs k gap := by
  induction hn : gap.length using Nat.strongRecOn generalizing gap with
  | ind n ih =>
    subst hn
    have hblank := (Lexeme.read_token hread).1
    intro y h
    -- Where two lines are joined, the rest of the gap stands at the start of a line.
    have hjoined {more : List Char} (hmore : Skips more (c :: cs)) (hlt : more.length < gap.length)
        (front : List Char) (hgap : gap = front ++ '\n' :: more) {y' : List Char}
        (hy : y = '\\' :: '\n' :: y') (h' : ρ.AtStart (more ++ c :: cs) y') :
        ∃ gap' y', y = gap' ++ y' ∧ Skips gap' y' ∧ ρ.Inside (c :: cs) y' ∧
          (k = .newline ∨ gap' = gap ∧ '\n' ∉ gap ∨
            '\n' ∈ gap ∧ '\n' ∈ gap' ∧ ρ.Indents gap gap') := by
      obtain ⟨gap', y'', rfl, hgap', h'', hgaps⟩ := skips_of_atStart hread hlength hmore
        (fun more' hle hmore' => ih more'.length (by omega) hmore' rfl) h'
      refine ⟨'\\' :: '\n' :: gap', y'', hy, .join hgap', h'', hgaps.imp_right fun hindents =>
        .inr ?_⟩
      obtain ⟨blanks, hold, hnew⟩ := hindents
      refine ⟨by simp [hgap], by simp, blanks, ?_, ?_⟩
      · rw [hgap, Layout.lineHead_append (by simp), Layout.lineHead_cons_newline, hold]
      · rw [← List.singleton_append, Layout.lineHead_append (by simp), Layout.lineHead_cons_newline,
          hnew]
    rcases hskips.cases_gap (by simp) with rfl | ⟨d, more, rfl, hd, hmore⟩ |
      ⟨ds, more, rfl, hds, hmore⟩ | ⟨more, rfl, hmore⟩ | ⟨more, rfl, hmore⟩
    · exact ⟨[], y, rfl, .nil, h, .inr (.inl ⟨rfl, by simp⟩)⟩
    · have hline : d ≠ '\n' ∧ d ≠ '\r' := hskips.not_return
      rw [List.cons_append] at h
      obtain ⟨y', rfl, h'⟩ := h.uncons hline.1 (fun hr => absurd hr hline.2)
        (by simp only [List.length_append, List.length_cons]; omega)
      obtain ⟨gap', y'', rfl, hgap', h'', hgaps⟩ := ih more.length (by simp) hmore rfl y' h'
      refine ⟨d :: gap', y'', rfl, hgap'.blank hd (h''.without_blank hread hlength), h'', ?_⟩
      rcases hgaps with hk | ⟨rfl, hmem⟩ | ⟨hmem, hmem', blanks, hold, hnew⟩
      · exact .inl hk
      · exact .inr (.inl ⟨rfl, by simp [hline.1.symm, hmem]⟩)
      · refine .inr (.inr ⟨by simp [hmem], by simp [hmem'], blanks, ?_, ?_⟩)
        · rw [← List.singleton_append, Layout.lineHead_append hmem, hold]
        · rw [← List.singleton_append, Layout.lineHead_append hmem', hnew]
    · obtain ⟨rfl, rfl⟩ := List.cons.inj hmore
      cases hread
      rw [List.cons_append] at h
      obtain ⟨y', rfl, h'⟩ := h.uncons (by decide) (by simp)
        (by simp only [List.length_append, List.length_cons]; omega)
      obtain ⟨ds', y'', rfl, hds', h''⟩ := h'.line_end hds hlength
      exact ⟨'#' :: ds', '\n' :: y'', rfl, .comment hds', h'', .inl rfl⟩
    · rw [List.cons_append, List.cons_append] at h
      obtain ⟨y', rfl, h'⟩ := h.uncons (by decide) (by simp)
        (by simp only [List.length_append, List.length_cons]; omega)
      obtain ⟨y'', rfl, h''⟩ :=
        h'.uncons_newline (by simp only [List.length_append, List.length_cons]; omega)
      exact hjoined hmore (by simp only [List.length_cons]; omega) ['\\'] rfl rfl h''
    · rw [List.cons_append, List.cons_append, List.cons_append] at h
      obtain ⟨y', rfl, h'⟩ := h.uncons (by decide) (by simp)
        (by simp only [List.length_append, List.length_cons]; omega)
      obtain ⟨y'', rfl, h''⟩ :=
        h'.uncons_return (by simp only [List.length_append, List.length_cons]; omega)
      exact hjoined hmore (by simp only [List.length_cons]; omega) ['\\', '\r'] rfl rfl h''

end

end Reindent

end StagedScript
