import StagedScript.Proofs.Specializing.Stable
import StagedScript.Text.Slice

/-!
# What a block loses

A block loses one margin, the longest white space that all of its lines start with, those of white
space alone aside.  Its lines are cut at the same places when the cuts count bytes, so that none of
them falls into a character or behind the end of a line; and a block that has lost its margin has no
other to lose.
-/

namespace StagedScript.Text

/-! ## Cutting by bytes -/

theorem mapM_eq_map {α β : Type} {f : α → Option β} {g : α → β} {xs : List α}
    (h : ∀ x ∈ xs, f x = some (g x)) : xs.mapM f = some (xs.map g) := by
  induction xs with
  | nil => rfl
  | cons x xs ih =>
    obtain ⟨hx, hxs⟩ := List.forall_mem_cons.1 h
    rw [List.mapM_cons, hx, ih hxs]
    rfl

/-- The byte at which two texts, read from a byte on, differ first. -/
def firstDifference? (position : Nat) : List Char → List Char → Option Nat
  | a :: as, b :: bs =>
    if a = b then firstDifference? (position + a.utf8Size) as bs else some position
  | _, _ => none

/-- The number of bytes up to the first difference of two texts, or in the shorter one if there is
none. -/
def commonBytes (as bs : List Char) : Nat :=
  (firstDifference? 0 as bs).getD (min (byteLength as) (byteLength bs))

/-- The indentation of a line, cut off by its bytes. -/
def cutIndent? (line : List Char) : Option (List Char) :=
  takeBytes? (byteLength line - byteLength (trimStart line)) line

/-- The margin of lines, cut off by bytes. -/
def cutMargin? (lines : List (List Char)) : Option (List Char) := do
  match ← (lines.filter fun line => !line.all isBlank).mapM cutIndent? with
  | [] => return []
  | m :: ms => ms.foldlM (fun m indent => takeBytes? (commonBytes m indent) m) m

/-- The lines of a block without their margin, where every cut counts bytes. -/
def cutDedent? (cs : List Char) : Option (List (List Char)) := do
  let m ← cutMargin? (blockLines cs)
  (blockLines cs).mapM fun line => if line.all isBlank then return []
    else dropBytes? (byteLength m) line

theorem takeBytes?_of_prefix {p cs : List Char} (h : p <+: cs) :
    takeBytes? (byteLength p) cs = some p := by
  obtain ⟨rest, rfl⟩ := h
  exact takeBytes?_byteLength p rest

theorem dropBytes?_of_prefix {p cs : List Char} (h : p <+: cs) :
    dropBytes? (byteLength p) cs = some (cs.drop p.length) := by
  obtain ⟨rest, rfl⟩ := h
  rw [dropBytes?_byteLength, List.drop_left]

theorem firstDifference?_getD (position : Nat) (as bs : List Char) :
    (firstDifference? position as bs).getD (position + min (byteLength as) (byteLength bs)) =
      position + byteLength (commonPrefix as bs) := by
  induction as generalizing position bs with
  | nil => simp [firstDifference?, commonPrefix, byteLength]
  | cons a as ih =>
    cases bs with
    | nil => simp [firstDifference?, commonPrefix, byteLength]
    | cons b bs =>
      by_cases hab : a = b
      · subst hab
        have hrest := ih (position + a.utf8Size) bs
        simp only [firstDifference?, commonPrefix, if_pos, byteLength, Nat.add_min_add_left,
          ← Nat.add_assoc]
        exact hrest
      · simp [firstDifference?, commonPrefix, hab, byteLength]

theorem commonBytes_eq (as bs : List Char) :
    commonBytes as bs = byteLength (commonPrefix as bs) := by
  have h := firstDifference?_getD 0 as bs
  rwa [Nat.zero_add, Nat.zero_add] at h

theorem cutIndent?_eq (line : List Char) : cutIndent? line = some (indentOf line) := by
  have hline : byteLength (indentOf line) + byteLength (trimStart line) = byteLength line := by
    rw [← byteLength_append]
    exact congrArg byteLength List.takeWhile_append_dropWhile
  have hbytes : byteLength line - byteLength (trimStart line) = byteLength (indentOf line) := by
    omega
  have hindent := indentOf_prefix line
  rw [cutIndent?, hbytes, takeBytes?_of_prefix hindent]

theorem cutMargin?_eq (lines : List (List Char)) : cutMargin? lines = some (margin lines) := by
  have hindent : cutIndent? = fun line => pure (indentOf line) := funext cutIndent?_eq
  have hcommon : (fun m indent => takeBytes? (commonBytes m indent) m) =
      fun m indent => (pure (commonPrefix m indent) : Option (List Char)) := by
    funext m indent
    obtain ⟨hleft, -⟩ := commonPrefix_prefix m indent
    rw [commonBytes_eq]
    exact takeBytes?_of_prefix hleft
  unfold cutMargin? margin
  rw [hindent, List.mapM_pure, hcommon]
  cases (lines.filter fun line => !line.all isBlank).map indentOf with
  | nil => rfl
  | cons m ms =>
    change ms.foldlM _ m = _
    rw [List.foldlM_pure]
    rfl

/-- Every cut that counts bytes falls between two characters of its line. -/
theorem cutDedent?_eq (cs : List Char) : cutDedent? cs = some (dedent cs) := by
  unfold cutDedent?
  rw [cutMargin?_eq]
  refine mapM_eq_map fun line hline => ?_
  split
  · rfl
  · next hblank =>
    have hindent := margin_prefix hline (Bool.eq_false_of_not_eq_true hblank)
    exact dropBytes?_of_prefix (hindent.trans <| indentOf_prefix line)

/-! ## The margin -/

/-- The longest white space that all lines start with, those of white space alone aside. -/
structure IsMargin (lines : List (List Char)) (m : List Char) : Prop where
  blank : m.all isBlank = true
  common : ∀ line ∈ lines, line.all isBlank = false → m <+: line
  longest : ∀ m', m'.all isBlank = true → (∀ line ∈ lines, line.all isBlank = false → m' <+: line) →
    ∀ line ∈ lines, line.all isBlank = false → m' <+: m

theorem prefix_commonPrefix {p as bs : List Char} (ha : p <+: as) (hb : p <+: bs) :
    p <+: commonPrefix as bs := by
  induction p generalizing as bs with
  | nil => exact List.nil_prefix
  | cons c p ih =>
    obtain ⟨as, rfl⟩ := ha
    obtain ⟨bs, rfl⟩ := hb
    rw [List.cons_append, List.cons_append, commonPrefix, if_pos rfl]
    exact List.cons_prefix_cons.2 ⟨rfl, ih (List.prefix_append p as) (List.prefix_append p bs)⟩

theorem prefix_foldl_commonPrefix {p m : List Char} {ms : List (List Char)} (hm : p <+: m)
    (hms : ∀ x ∈ ms, p <+: x) : p <+: ms.foldl commonPrefix m := by
  induction ms generalizing m with
  | nil => exact hm
  | cons x ms ih =>
    obtain ⟨hx, hms⟩ := List.forall_mem_cons.1 hms
    exact ih (prefix_commonPrefix hm hx) hms

/-- White space that a line starts with is part of its indentation. -/
theorem prefix_indentOf {p line : List Char} (hp : p.all isBlank = true) (hline : p <+: line) :
    p <+: indentOf line := by
  obtain ⟨rest, rfl⟩ := hline
  rw [indentOf, List.takeWhile_append_of_pos (List.all_eq_true.1 hp)]
  exact List.prefix_append p _

theorem isMargin_margin (lines : List (List Char)) : IsMargin lines (margin lines) := by
  have hmem {m : List Char} (hm : m ∈ (lines.filter fun line => !line.all isBlank).map indentOf) :
      ∃ line ∈ lines, line.all isBlank = false ∧ indentOf line = m := by
    obtain ⟨line, hline, rfl⟩ := List.mem_map.1 hm
    obtain ⟨hline, hblank⟩ := List.mem_filter.1 hline
    exact ⟨line, hline, by simpa using hblank, rfl⟩
  refine ⟨?_, ?_, ?_⟩
  · unfold margin
    cases hms : (lines.filter fun line => !line.all isBlank).map indentOf with
    | nil => rfl
    | cons m ms =>
      obtain ⟨hleft, -⟩ := foldl_commonPrefix_prefix ms m
      have hm : m ∈ (lines.filter fun line => !line.all isBlank).map indentOf := by simp [hms]
      obtain ⟨line, -, -, rfl⟩ := hmem hm
      exact List.all_eq_true.2 fun c hc => List.mem_takeWhile_imp (hleft.subset hc)
  · intro line hline hblank
    have hindent := margin_prefix hline hblank
    exact hindent.trans <| indentOf_prefix line
  · intro p hp hall line hline hblank
    have hindent {m : List Char}
        (hm : m ∈ (lines.filter fun line => !line.all isBlank).map indentOf) : p <+: m := by
      obtain ⟨line, hline, hblank, rfl⟩ := hmem hm
      exact prefix_indentOf hp (hall line hline hblank)
    have hne : indentOf line ∈ (lines.filter fun line => !line.all isBlank).map indentOf :=
      List.mem_map_of_mem (List.mem_filter.2 ⟨hline, by rw [hblank]; rfl⟩)
    unfold margin
    cases hms : (lines.filter fun line => !line.all isBlank).map indentOf with
    | nil =>
      rw [hms] at hne
      cases hne
    | cons m ms =>
      rw [hms] at hindent
      exact prefix_foldl_commonPrefix (hindent List.mem_cons_self) fun x hx =>
        hindent (List.mem_cons_of_mem m hx)

/-- A line and what is left of it when a margin is taken away: nothing if it is white space
alone. -/
def Undents (m line entry : List Char) : Prop :=
  if line.all isBlank then entry = [] else line = m ++ entry

section Margin

variable {lines : List (List Char)}

theorem undents_undented {line : List Char} (hline : line ∈ lines) :
    Undents (margin lines) line (undented (margin lines).length line) := by
  unfold Undents undented
  split
  · rfl
  · next hblank =>
    obtain ⟨rest, hrest⟩ :=
      (isMargin_margin lines).common line hline (Bool.eq_false_of_not_eq_true hblank)
    rw [← hrest, List.drop_left]

/-- What is left of lines that are not all white space has no margin, as it would have belonged to
theirs. -/
theorem margin_undented (hne : ∃ line ∈ lines, line.all isBlank = false) :
    margin (lines.map (undented (margin lines).length)) = [] := by
  have hm := isMargin_margin lines
  have hp := isMargin_margin (lines.map (undented (margin lines).length))
  generalize margin (lines.map (undented (margin lines).length)) = p at hp
  have hentry (line : List Char) (hline : line ∈ lines) (hblank : line.all isBlank = false) :
      margin lines ++ p <+: line := by
    have hcut := undents_undented hline
    rw [Undents, if_neg (by simp [hblank])] at hcut
    have hleft : (undented (margin lines).length line).all isBlank = false := by
      rw [hcut, List.all_append, hm.blank, Bool.true_and] at hblank
      exact hblank
    rw [hcut, List.prefix_append_right_inj]
    exact hp.common _ (List.mem_map_of_mem hline) hleft
  obtain ⟨line, hline, hblank⟩ := hne
  have hlonger : margin lines ++ p <+: margin lines :=
    hm.longest _ (by rw [List.all_append, hm.blank, hp.blank]; rfl) hentry line hline hblank
  have hle := hlonger.length_le
  rw [List.length_append] at hle
  exact List.eq_nil_of_length_eq_zero (by omega)

end Margin

/-! ## The lines of a text -/

/-- The lines of a text that is made of lines, each ended by a line feed, and a rest: a carriage
return in front of a line feed is left out, and so is a rest that is empty, or white space behind a
line feed. -/
def linesOf (lines : List (List Char)) (rest : List Char) : List (List Char) :=
  lines.map dropReturn ++ if rest = [] ∨ lines ≠ [] ∧ rest.all isBlank = true then [] else [rest]

theorem blockLines_eq_linesOf {cs rest : List Char} {lines : List (List Char)}
    (h : endedLines cs = (lines, rest)) : blockLines cs = linesOf lines rest := by
  unfold blockLines linesOf
  rw [h]
  dsimp only
  congr 1
  by_cases hrest : rest = [] <;> by_cases hlines : lines = [] <;> simp [hrest, hlines]

theorem intercalate_eq_ended (lines : List (List Char)) (last : List Char) :
    ['\n'].intercalate (lines ++ [last]) = ended lines last := by
  induction lines with
  | nil => simp [ended]
  | cons line lines ih =>
    obtain ⟨next, more, hmore⟩ : ∃ next more, lines ++ [last] = next :: more :=
      List.exists_cons_of_ne_nil (by simp)
    rw [ended_cons, ← ih, List.cons_append, hmore, List.intercalate_cons_cons]
    simp

/-- Entries that do not end in white space are those of the text that has them for lines. -/
theorem dedent_intercalate {cs last : List Char} (hreturn : '\r' ∉ cs)
    (hlast : (dedent cs).getLast? = some last) (hblank : last.all isBlank = false) :
    dedent (['\n'].intercalate (dedent cs)) = dedent cs := by
  have hnewline (entry : List Char) (h : entry ∈ dedent cs) := newline_not_mem_dedent h
  have hreturns (entry : List Char) (h : entry ∈ dedent cs) : dropReturn entry = entry :=
    dropReturn_of_not_mem fun hmem => hreturn (subset_of_dedent h hmem)
  have hshort (entry : List Char) (h : entry ∈ dedent cs) := blank_dedent h
  have hmargin : margin (dedent cs) = [] := by
    rw [dedent_eq]
    refine margin_undented ?_
    obtain ⟨line, hline, rfl⟩ := List.mem_map.1 (List.mem_of_getLast? hlast)
    refine ⟨line, hline, ?_⟩
    by_contra hwhite
    rw [if_pos (Bool.eq_true_of_not_eq_false hwhite)] at hblank
    cases hblank
  generalize dedent cs = entries at *
  obtain ⟨front, rfl⟩ := List.getLast?_eq_some_iff.1 hlast
  have hlines : blockLines (ended front last) = front ++ [last] := by
    rw [blockLines_ended (fun entry h => hnewline entry (List.mem_append_left _ h))
      (hnewline last (by simp)) hblank]
    congr 1
    conv_rhs => rw [← List.map_id front]
    exact List.map_congr_left fun entry h => hreturns entry (List.mem_append_left _ h)
  rw [intercalate_eq_ended, dedent_eq, hlines, hmargin]
  conv_rhs => rw [← List.map_id (front ++ [last])]
  refine List.map_congr_left fun entry h => ?_
  rcases hshort entry h with rfl | hblank
  · rfl
  · simp [undented, hblank]

/-- Dedenting takes the margin away and nothing else.

* None of its cuts, which count bytes, falls into a character or behind the end of a line.
* It gives one entry for every line of the text, nothing for a line of white space, and for any
  other what is left of the line behind one margin, the longest white space that all those lines
  start with.
* Where there are no carriage returns and the last entry is not white space, the entries as the
  lines of a text come out as they are. -/
theorem dedent_removes_margin (cs : List Char) :
    cutDedent? cs = some (dedent cs) ∧
    (∃ lines rest m, cs = ended lines rest ∧ (∀ line ∈ lines, '\n' ∉ line) ∧ '\n' ∉ rest ∧
      IsMargin (linesOf lines rest) m ∧
      List.Forall₂ (Undents m) (linesOf lines rest) (dedent cs)) ∧
    ('\r' ∉ cs → ∀ last ∈ (dedent cs).getLast?, last.all isBlank = false →
      dedent (['\n'].intercalate (dedent cs)) = dedent cs) := by
  have hundents : List.Forall₂ (Undents (margin (blockLines cs))) (blockLines cs) (dedent cs) := by
    rw [dedent_eq, List.forall₂_map_right_iff, List.forall₂_same]
    exact fun line hline => undents_undented hline
  refine ⟨cutDedent?_eq cs, ?_, ?_⟩
  · cases hended : endedLines cs with
    | mk lines rest =>
    obtain ⟨htext, hlines, hrest⟩ := endedLines_eq_iff.1 hended
    rw [blockLines_eq_linesOf hended] at hundents
    exact ⟨lines, rest, _, htext, hlines, hrest, isMargin_margin _, hundents⟩
  · intro hreturn last hlast hblank
    exact dedent_intercalate hreturn hlast hblank

/-- A block with a margin of two kinds of white space, a blank line, and a line that is indented
further. -/
def sampleBlock : List Char := "\u3000\tx\n \n\u3000\t y".toList

theorem sampleBlock_dedented :
    cutDedent? sampleBlock = some (dedent sampleBlock) ∧
    dedent sampleBlock = [['x'], [], [' ', 'y']] ∧ '\r' ∉ sampleBlock ∧
    dedent (['\n'].intercalate (dedent sampleBlock)) = dedent sampleBlock := by
  have hentries : dedent sampleBlock = [['x'], [], [' ', 'y']] := by decide
  have hreturn : '\r' ∉ sampleBlock := by decide
  obtain ⟨hcut, -, hagain⟩ := dedent_removes_margin sampleBlock
  exact ⟨hcut, hentries, hreturn, hagain hreturn [' ', 'y'] (by rw [hentries]; rfl) (by decide)⟩

end StagedScript.Text
