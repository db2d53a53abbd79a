import StagedScript.Proofs.Maker.Written
import StagedScript.Proofs.Reading.Reindented

/-!
# Margins

A block of text loses the margin that its lines have in common and gets another one in front of each
line.
-/

namespace StagedScript

/-! ## Lines -/

namespace Text

theorem endedLines_line {line : List Char} (hline : '\n' ∉ line) (rest : List Char) :
    endedLines (line ++ '\n' :: rest) = (line :: (endedLines rest).1, (endedLines rest).2) := by
  induction line with
  | nil => rfl
  | cons c line ih =>
    rw [List.mem_cons, not_or] at hline
    rw [List.cons_append, endedLines, ih hline.2]
    exact if_neg (Ne.symm hline.1)

theorem endedLines_of_not_mem {rest : List Char} (hrest : '\n' ∉ rest) :
    endedLines rest = ([], rest) := by
  induction rest with
  | nil => rfl
  | cons c rest ih =>
    rw [List.mem_cons, not_or] at hrest
    rw [endedLines, ih hrest.2]
    exact if_neg (Ne.symm hrest.1)

/-- The text of lines, each with its end, and of what follows the last one. -/
def ended (lines : List (List Char)) (rest : List Char) : List Char :=
  lines.flatMap (· ++ ['\n']) ++ rest

theorem ended_cons (line : List Char) (lines : List (List Char)) (rest : List Char) :
    ended (line :: lines) rest = line ++ '\n' :: ended lines rest := by
  simp [ended]

/-- A text is taken apart into lines and put together again. -/
theorem endedLines_eq_iff {cs rest : List Char} {lines : List (List Char)} :
    endedLines cs = (lines, rest) ↔
      cs = ended lines rest ∧ (∀ line ∈ lines, '\n' ∉ line) ∧ '\n' ∉ rest := by
  constructor
  · intro h
    obtain ⟨hlines, hrest⟩ := newline_not_mem_endedLines cs
    rw [h] at hlines hrest
    refine ⟨?_, hlines, hrest⟩
    clear hlines hrest
    induction cs generalizing lines rest with
    | nil =>
      cases h
      rfl
    | cons c cs ih =>
      unfold endedLines at h
      cases hcs : endedLines cs with
      | mk ls r =>
      have htext := ih hcs
      rw [hcs] at h
      dsimp only at h
      split at h
      · next hc =>
        cases h
        rw [ended_cons, hc, htext]
        rfl
      · cases ls with
        | nil =>
          cases h
          rw [htext]
          rfl
        | cons line ls =>
          cases h
          rw [htext, ended_cons, ended_cons]
          rfl
  · rintro ⟨rfl, hlines, hrest⟩
    induction lines with
    | nil => exact endedLines_of_not_mem hrest
    | cons line lines ih =>
      obtain ⟨hline, hlines⟩ := List.forall_mem_cons.1 hlines
      rw [ended_cons, endedLines_line hline, ih hlines]

/-- The lines of a text whose last line is not white space alone. -/
theorem blockLines_ended {lines : List (List Char)} {rest : List Char}
    (hlines : ∀ line ∈ lines, '\n' ∉ line) (hrest : '\n' ∉ rest)
    (hlast : rest.all isBlank = false) :
    blockLines (ended lines rest) = lines.map dropReturn ++ [rest] := by
  have hne : rest.isEmpty = false := by
    cases rest with
    | nil => cases hlast
    | cons c rest => rfl
  rw [blockLines, endedLines_eq_iff.2 ⟨rfl, hlines, hrest⟩]
  simp [hlast, hne]

/-! ## Margins -/

theorem commonPrefix_prefix (as bs : List Char) :
    commonPrefix as bs <+: as ∧ commonPrefix as bs <+: bs := by
  induction as generalizing bs with
  | nil => exact ⟨List.nil_prefix, List.nil_prefix⟩
  | cons a as ih =>
    cases bs with
    | nil => exact ⟨List.nil_prefix, List.nil_prefix⟩
    | cons b bs =>
      unfold commonPrefix
      split
      · next h =>
        subst h
        exact ⟨List.cons_prefix_cons.2 ⟨rfl, (ih bs).1⟩, List.cons_prefix_cons.2 ⟨rfl, (ih bs).2⟩⟩
      · exact ⟨List.nil_prefix, List.nil_prefix⟩

theorem foldl_commonPrefix_prefix (ms : List (List Char)) (m : List Char) :
    ms.foldl commonPrefix m <+: m ∧ ∀ x ∈ ms, ms.foldl commonPrefix m <+: x := by
  induction ms generalizing m with
  | nil => exact ⟨List.prefix_rfl, fun x hx => (List.not_mem_nil hx).elim⟩
  | cons x ms ih =>
    obtain ⟨hm, hms⟩ := ih (commonPrefix m x)
    obtain ⟨hleft, hright⟩ := commonPrefix_prefix m x
    exact ⟨hm.trans hleft, List.forall_mem_cons.2 ⟨hm.trans hright, hms⟩⟩

/-- Every line starts with the margin, those of white space alone aside. -/
theorem margin_prefix {lines : List (List Char)} {line : List Char} (h : line ∈ lines)
    (hblank : line.all isBlank = false) : margin lines <+: indentOf line := by
  have hmem : indentOf line ∈ (lines.filter fun line => !line.all isBlank).map indentOf :=
    List.mem_map_of_mem (List.mem_filter.2 ⟨h, by rw [hblank]; rfl⟩)
  unfold margin
  cases hms : (lines.filter fun line => !line.all isBlank).map indentOf with
  | nil => exact List.nil_prefix
  | cons m ms =>
    rw [hms] at hmem
    obtain ⟨hm, hshared⟩ := foldl_commonPrefix_prefix ms m
    rcases List.mem_cons.1 hmem with heq | hmem
    · exact heq ▸ hm
    · exact hshared _ hmem

theorem indentOf_prefix (line : List Char) : indentOf line <+: line := List.takeWhile_prefix _

/-- White space in front of another character is the indentation. -/
theorem indentOf_append {blanks : List Char} (hblanks : ∀ c ∈ blanks, isBlank c = true) {c : Char}
    (hc : isBlank c = false) (rest : List Char) : indentOf (blanks ++ c :: rest) = blanks := by
  rw [indentOf, List.takeWhile_append_of_pos hblanks, List.takeWhile_cons_of_neg (by simp [hc]),
    List.append_nil]

/-- A line that has lost a margin. -/
def undented (cut : Nat) (line : List Char) : List Char :=
  if line.all isBlank then [] else line.drop cut

theorem dedent_eq (cs : List Char) :
    dedent cs = (blockLines cs).map (undented (margin (blockLines cs)).length) := rfl

theorem below_cons (width : Nat) (line : List Char) (lines : List (List Char)) :
    below width (line :: lines) =
      '\n' :: (List.replicate width ' ' ++ (line ++ below width lines)) := by
  simp [below]

end Text

/-! ## Lines that are indented anew -/

namespace Reindent

variable {ρ : Reindent} {line x y : List Char}

theorem Inside.chars (h : ρ.Inside x y) (hline : '\n' ∉ line)
    (hlast : line.getLast? = some '\r' → ∀ more, x ≠ '\n' :: more) :
    ρ.Inside (line ++ x) (line ++ y) := by
  induction line with
  | nil => exact h
  | cons c line ih =>
    rw [List.mem_cons, not_or] at hline
    refine .char (Ne.symm hline.1) (fun hc more hmore => ?_) (ih hline.2 fun hlast' => hlast ?_)
    · cases line with
      | nil =>
        subst hc
        exact hlast rfl more hmore
      | cons d line =>
        rw [List.append_eq, List.cons_append] at hmore
        exact hline.2 (by rw [(List.cons.inj hmore).1]; exact List.mem_cons_self)
    · cases line with
      | nil => cases hlast'
      | cons d line => rwa [List.getLast?_cons_cons]

/-- In front of the end of a line a carriage return is dropped. -/
theorem Inside.line_front (h : ρ.Inside ('\n' :: x) y) (hline : '\n' ∉ line) :
    ρ.Inside (line ++ '\n' :: x) (Text.dropReturn line ++ y) := by
  unfold Text.dropReturn
  split
  · next hlast =>
    obtain ⟨front, rfl⟩ := List.getLast?_eq_some_iff.1 hlast
    rw [List.dropLast_concat, List.append_assoc]
    refine Inside.chars (.ret h) (fun hmem => hline (List.mem_append_left _ hmem))
      fun _ more hmore => ?_
    cases hmore
  · next hlast => exact h.chars hline fun hreturn => absurd hreturn hlast

theorem dropReturn_append {front : List Char} (hline : line ≠ []) :
    Text.dropReturn (front ++ line) = front ++ Text.dropReturn line := by
  unfold Text.dropReturn
  rw [List.getLast?_append_of_ne_nil _ hline]
  split
  · rw [List.dropLast_append_of_ne_nil hline]
  · rfl

/-- A whole line, with the end of the one in front of it. -/
theorem Inside.whole_line (h : ρ.Inside ('\n' :: x) y) (hline : '\n' ∉ line)
    (hmargin : (Text.dropReturn line).all Text.isBlank = false → ρ.old <+: Text.dropReturn line) :
    ρ.Inside ('\n' :: (line ++ '\n' :: x))
      ('\n' :: (ρ.new ++ (Text.undented ρ.old.length (Text.dropReturn line) ++ y))) := by
  unfold Text.undented
  split
  · next hblank =>
    have hblanks : ∀ c ∈ Text.dropReturn line, Text.isBlank c = true := List.all_eq_true.1 hblank
    rw [List.nil_append]
    unfold Text.dropReturn at hblanks
    split at hblanks
    · next hlast =>
      obtain ⟨front, rfl⟩ := List.getLast?_eq_some_iff.1 hlast
      rw [List.dropLast_concat] at hblanks
      rw [List.append_assoc]
      refine .empty ⟨fun c hc => ⟨hblanks c hc, ?_⟩, .inr ⟨x, rfl⟩⟩ (.ret h)
      rintro rfl
      exact hline (List.mem_append_left _ hc)
    · next hlast =>
      refine .empty ⟨fun c hc => ⟨hblanks c hc, ?_⟩, .inl ⟨⟨x, rfl⟩, hlast⟩⟩ h
      rintro rfl
      exact hline hc
  · next hblank =>
    obtain ⟨rest, hrest⟩ := hmargin (by simpa using hblank)
    obtain ⟨more, rfl⟩ : ∃ more, line = ρ.old ++ more := by
      unfold Text.dropReturn at hrest
      split at hrest
      · next hlast =>
        obtain ⟨front, rfl⟩ := List.getLast?_eq_some_iff.1 hlast
        rw [List.dropLast_concat] at hrest
        exact ⟨rest ++ ['\r'], by rw [← hrest, List.append_assoc]⟩
      · exact ⟨rest, hrest.symm⟩
    have hmore : more ≠ [] := by
      rintro rfl
      refine hblank (List.all_eq_true.2 fun c hc => ?_)
      have hc' : c ∈ ρ.old := by
        rw [List.append_nil] at hc
        unfold Text.dropReturn at hc
        split at hc
        · exact List.dropLast_subset _ hc
        · exact hc
      exact Lexeme.isBlank_text (ρ.old_blank c hc')
    rw [dropReturn_append hmore, List.drop_left, List.append_assoc]
    exact .line (h.line_front fun hmem => hline (List.mem_append_right _ hmem))

/-- The lines behind the first one, up to what is behind the text. -/
theorem Inside.lines {lines : List (List Char)} {rest : List Char}
    (hlines : ∀ line ∈ lines, '\n' ∉ line ∧ ((Text.dropReturn line).all Text.isBlank = false →
      ρ.old <+: Text.dropReturn line))
    (hrest : '\n' ∉ rest) (hlast : rest.getLast? ≠ some '\r')
    (hblank : rest.all Text.isBlank = false) (hmargin : ρ.old <+: rest)
    (hnew : ρ.new = List.replicate 4 ' ') :
    ρ.Inside ('\n' :: (Text.ended lines rest ++ ρ.oldBehind))
      (Text.below 4 ((lines.map Text.dropReturn ++ [rest]).map (Text.undented ρ.old.length)) ++
        ρ.newBehind) := by
  induction lines with
  | nil =>
    obtain ⟨more, rfl⟩ := hmargin
    have hundented : Text.undented ρ.old.length (ρ.old ++ more) = more := by
      rw [Text.undented, if_neg (by rw [hblank]; simp), List.drop_left]
    have hmore : more ≠ [] := by
      rintro rfl
      rw [List.append_nil, List.all_eq_false] at hblank
      obtain ⟨c, hc, hne⟩ := hblank
      exact hne (Lexeme.isBlank_text (ρ.old_blank c hc))
    rw [List.getLast?_append_of_ne_nil _ hmore] at hlast
    have hinside := Inside.line (ρ := ρ) (Inside.behind.chars
      (fun hmem => hrest (List.mem_append_right ρ.old hmem)) fun h => absurd h hlast)
    rw [hnew] at hinside
    simpa [Text.ended, Text.below, hundented] using hinside
  | cons line lines ih =>
    obtain ⟨⟨hline, hmargin'⟩, hlines⟩ := List.forall_mem_cons.1 hlines
    have hinside := (ih hlines).whole_line hline hmargin'
    rw [hnew] at hinside
    rw [Text.ended_cons, List.map_cons, List.cons_append, List.map_cons, Text.below_cons,
      List.append_assoc, List.cons_append, List.cons_append, List.append_assoc, List.append_assoc]
    exact hinside

end Reindent

/-! ## Blocks that are indented anew -/

namespace Text

/-- A text that does not end with white space does not end with the end of a line. -/
theorem last_of_ended {cs rest : List Char} {lines : List (List Char)} {d : Char}
    (h : cs ++ [d] = ended lines rest) (hd : isBlank d = false) :
    rest.getLast? ≠ some '\r' ∧ rest.all isBlank = false := by
  have hlast : (ended lines rest).getLast? = some d := by rw [← h, List.getLast?_concat]
  have hrest : rest ≠ [] := by
    rintro rfl
    rcases List.eq_nil_or_concat lines with rfl | ⟨lines, line, rfl⟩
    · cases hlast
    · have hnewline : ended (lines ++ [line]) [] = ended lines line ++ ['\n'] := by simp [ended]
      rw [List.concat_eq_append, hnewline, List.getLast?_concat] at hlast
      cases hlast
      cases hd
  rw [ended, List.getLast?_append_of_ne_nil _ hrest] at hlast
  refine ⟨fun hreturn => ?_, ?_⟩
  · rw [hlast] at hreturn
    cases hreturn
    cases hd
  · rw [List.all_eq_false]
    exact ⟨d, List.mem_of_getLast? hlast, by simp [hd]⟩

/-- The margin is part of the indentation of a line, which keeps the rest of it. -/
theorem margin_split {lines : List (List Char)} {blanks more : List Char} {c : Char}
    (hblanks : ∀ c ∈ blanks, isBlank c = true) (hc : isBlank c = false)
    (h : blanks ++ c :: more ∈ lines) : ∃ behind, blanks = margin lines ++ behind ∧
      undented (margin lines).length (blanks ++ c :: more) = behind ++ c :: more := by
  have hindent := margin_prefix h (by simp [hc])
  rw [indentOf_append hblanks hc] at hindent
  obtain ⟨behind, hbehind⟩ := hindent
  refine ⟨behind, hbehind.symm, ?_⟩
  rw [undented, if_neg (by simp [hc])]
  conv_lhs => rw [← hbehind]
  rw [List.append_assoc, List.drop_left]

/-- The first line of a text. -/
theorem first_of_ended {blanks cs rest : List Char} {lines : List (List Char)} {c : Char}
    (h : blanks ++ c :: cs = ended lines rest) (hnewline : '\n' ∉ blanks ++ [c]) :
    lines = [] ∧ rest = blanks ++ c :: cs ∨ ∃ more ls, lines = (blanks ++ c :: more) :: ls ∧
      cs = more ++ '\n' :: ended ls rest := by
  cases lines with
  | nil => exact .inl ⟨rfl, h.symm⟩
  | cons line ls =>
    rw [ended_cons] at h
    have happend : blanks ++ [c] ++ cs = line ++ '\n' :: ended ls rest := by
      rw [← h, List.append_assoc, List.singleton_append]
    rcases List.append_eq_append_iff.1 happend with ⟨more, rfl, hmore⟩ | ⟨more, hline, hmore⟩
    · refine .inr ⟨more, ls, ?_, hmore⟩
      rw [List.append_assoc, List.singleton_append]
    · cases more with
      | nil =>
        rw [List.append_nil] at hline
        exact .inr ⟨[], ls, by rw [← hline], hmore.symm⟩
      | cons d more =>
        rw [hline, ← (List.cons.inj hmore).1] at hnewline
        exact absurd (by simp) hnewline

end Text

/-- The text of a block behind the margin of its first line, as it is written with another margin
and with something else behind it. -/
theorem Reindent.exists_of_dedent {margin text oldBehind newBehind : List Char}
    (hmargin : ∀ c ∈ margin, Lexeme.isBlank c = true)
    (hfirst : ∃ c cs, text = c :: cs ∧ Text.isBlank c = false)
    (hlast : ∃ cs d, text = cs ++ [d] ∧ Text.isBlank d = false)
    (hold : oldBehind = [] ∨ ∃ e ∈ Lexeme.stops, ∃ rest, oldBehind = e :: rest)
    (hnew : ∃ rest, newBehind = '\n' :: rest) :
    ∃ (ρ : Reindent) (more y : List Char), ρ.oldBehind = oldBehind ∧ ρ.newBehind = newBehind ∧
      ρ.new = List.replicate 4 ' ' ∧ margin = ρ.old ++ more ∧
      Text.below 4 (Text.dedent (margin ++ text)) ++ newBehind =
        '\n' :: (List.replicate 4 ' ' ++ (more ++ y)) ∧ ρ.Inside (text ++ oldBehind) y := by
  obtain ⟨c, cs, rfl, hc⟩ := hfirst
  have hblanks : ∀ c ∈ margin, Text.isBlank c = true :=
    fun c hc => Lexeme.isBlank_text (hmargin c hc)
  have hnewline : '\n' ∉ margin ++ [c] := by
    rw [List.mem_append, not_or, List.mem_singleton]
    refine ⟨fun hmem => ?_, fun h => ?_⟩
    · have := hmargin _ hmem
      cases this
    · subst h
      cases hc
  cases hended : Text.endedLines (margin ++ c :: cs) with
  | mk lines rest =>
  obtain ⟨htext, hlines, hrest⟩ := Text.endedLines_eq_iff.1 hended
  obtain ⟨hreturn, hblank⟩ : rest.getLast? ≠ some '\r' ∧ rest.all Text.isBlank = false := by
    obtain ⟨ds, d, hds, hd⟩ := hlast
    have hended : margin ++ ds ++ [d] = Text.ended lines rest := by
      rw [← htext, hds, List.append_assoc]
    exact Text.last_of_ended hended hd
  have hblock := Text.blockLines_ended hlines hrest hblank
  rw [← htext] at hblock
  rw [Text.dedent_eq, hblock]
  generalize hold' : Text.margin (lines.map Text.dropReturn ++ [rest]) = old
  have hshared (line : List Char) (hline : line ∈ lines.map Text.dropReturn ++ [rest])
      (h : line.all Text.isBlank = false) : old <+: line := by
    rw [← hold']
    exact (Text.margin_prefix hline h).trans (Text.indentOf_prefix line)
  have hsplit (more : List Char) (h : margin ++ c :: more ∈ lines.map Text.dropReturn ++ [rest]) :
      ∃ behind, margin = old ++ behind ∧
        Text.undented old.length (margin ++ c :: more) = behind ++ c :: more := by
    rw [← hold']
    exact Text.margin_split hblanks hc h
  -- Given the first line, this is how the text is indented anew.
  have hreindent {behind : List Char} (hbehind : margin = old ++ behind) {z : List Char}
      (hz : ∀ ρ : Reindent, ρ.old = old → ρ.new = List.replicate 4 ' ' → ρ.oldBehind = oldBehind →
        ρ.newBehind = newBehind → ρ.Inside (c :: cs ++ oldBehind) z) :
      ∃ ρ : Reindent, ρ.oldBehind = oldBehind ∧ ρ.newBehind = newBehind ∧
        ρ.new = List.replicate 4 ' ' ∧ margin = ρ.old ++ behind ∧
        ρ.Inside (c :: cs ++ oldBehind) z :=
    ⟨⟨old, List.replicate 4 ' ', oldBehind, newBehind,
      fun d hd => hmargin d (by rw [hbehind]; exact List.mem_append_left _ hd),
      fun d hd => by rw [List.eq_of_mem_replicate hd]; rfl, hold, hnew⟩, rfl, rfl, rfl, hbehind,
      hz _ rfl rfl rfl rfl⟩
  rcases Text.first_of_ended htext hnewline with ⟨rfl, rfl⟩ | ⟨more, ls, rfl, rfl⟩
  · obtain ⟨behind, hbehind, hundented⟩ := hsplit cs (by simp)
    obtain ⟨ρ, h₁, h₂, h₃, h₄, hinside⟩ := hreindent hbehind (z := c :: cs ++ newBehind) (by
      rintro ρ - - rfl rfl
      refine Inside.behind.chars (fun hmem => hrest (List.mem_append_right _ hmem)) fun h => ?_
      exact absurd (by rwa [List.getLast?_append_of_ne_nil _ (List.cons_ne_nil c cs)]) hreturn)
    refine ⟨ρ, behind, _, h₁, h₂, h₃, h₄, ?_, hinside⟩
    simp [Text.below, hundented]
  · obtain ⟨hfirst, hls⟩ := List.forall_mem_cons.1 hlines
    obtain ⟨front, hfront⟩ : ∃ front, Text.dropReturn (c :: more) = c :: front := by
      unfold Text.dropReturn
      split
      · next hreturn' =>
        cases more with
        | nil =>
          cases hreturn'
          cases hc
        | cons d more => exact ⟨_, rfl⟩
      · exact ⟨more, rfl⟩
    have hline : Text.dropReturn (margin ++ c :: more) = margin ++ c :: front := by
      rw [dropReturn_append (List.cons_ne_nil c more), hfront]
    obtain ⟨behind, hbehind, hundented⟩ := hsplit front (by simp [hline])
    obtain ⟨ρ, h₁, h₂, h₃, h₄, hinside⟩ := hreindent hbehind
      (z := Text.dropReturn (c :: more) ++ (Text.below 4 ((ls.map Text.dropReturn ++ [rest]).map
        (Text.undented old.length)) ++ newBehind)) (by
      rintro ρ rfl hnew' rfl rfl
      have hinside := Inside.lines (ρ := ρ) (fun line hline => ⟨hls line hline, hshared _
        (by simpa using .inr (.inl ⟨line, hline, rfl⟩))⟩) hrest hreturn hblank
        (hshared rest (by simp) hblank) hnew'
      have hnewline : '\n' ∉ c :: more := fun hmem => hfirst (List.mem_append_right _ hmem)
      simpa using hinside.line_front hnewline)
    refine ⟨ρ, behind, _, h₁, h₂, h₃, h₄, ?_, hinside⟩
    rw [List.map_cons, List.cons_append, List.map_cons, Text.below_cons, hline, hundented, hfront]
    simp

end StagedScript
