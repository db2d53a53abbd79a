import StagedScript.Proofs.Specializing.Reported

/-!
# Margins that are taken away again

The lines of a block that have lost their margin and got another one lose just this when the block
is dedented again, so dedenting a block that has been indented anew changes nothing.
-/

namespace StagedScript.Text

/-! ## Characters of lines -/

theorem subset_of_blockLines {cs line : List Char} (h : line ∈ blockLines cs) : line ⊆ cs := by
  cases hended : endedLines cs with
  | mk lines rest =>
  obtain ⟨rfl, -, -⟩ := endedLines_eq_iff.1 hended
  unfold blockLines at h
  rw [hended] at h
  rcases List.mem_append.1 h with h | h
  · obtain ⟨line, hline, rfl⟩ := List.mem_map.1 h
    have hsub : dropReturn line ⊆ line := by
      unfold dropReturn
      split
      · exact List.dropLast_subset line
      · exact fun _ => id
    refine fun c hc => List.mem_append_left _ (List.mem_flatMap.2 ⟨line, hline, ?_⟩)
    exact List.mem_append_left _ (hsub hc)
  · split at h
    · cases h
    · obtain rfl := List.mem_singleton.1 h
      exact List.subset_append_right _ _

theorem subset_of_dedent {cs line : List Char} (h : line ∈ dedent cs) : line ⊆ cs := by
  obtain ⟨whole, hwhole, rfl⟩ := List.mem_map.1 h
  split
  · exact List.nil_subset _
  · exact List.Subset.trans (List.drop_subset _ _) (subset_of_blockLines hwhole)

theorem dropReturn_of_not_mem {line : List Char} (h : '\r' ∉ line) : dropReturn line = line :=
  if_neg fun hlast => h (List.mem_of_getLast? hlast)

/-! ## Margins -/

theorem commonPrefix_of_prefix {xs ys : List Char} (h : xs <+: ys) : commonPrefix xs ys = xs := by
  obtain ⟨zs, rfl⟩ := h
  induction xs with
  | nil => cases zs <;> rfl
  | cons x xs ih => exact (if_pos rfl).trans (congrArg (x :: ·) ih)

/-- If all lines are indented as much as the first one at least, its indentation is the margin. -/
theorem margin_cons {first : List Char} {lines : List (List Char)}
    (hfirst : first.all isBlank = false)
    (h : ∀ line ∈ lines, line.all isBlank = false → indentOf first <+: indentOf line) :
    margin (first :: lines) = indentOf first := by
  have hshared (ms : List (List Char)) (hms : ∀ m ∈ ms, indentOf first <+: m) :
      ms.foldl commonPrefix (indentOf first) = indentOf first := by
    induction ms with
    | nil => rfl
    | cons m ms ih =>
      obtain ⟨hm, hms⟩ := List.forall_mem_cons.1 hms
      rw [List.foldl_cons, commonPrefix_of_prefix hm, ih hms]
  unfold margin
  rw [List.filter_cons, if_pos (by rw [hfirst]; rfl), List.map_cons]
  refine hshared _ fun m hm => ?_
  obtain ⟨line, hline, rfl⟩ := List.mem_map.1 hm
  obtain ⟨hline, hblank⟩ := List.mem_filter.1 hline
  exact h line hline (by simpa using hblank)

/-- A line that has lost the margin is empty, or it is not white space alone. -/
theorem blank_dedent {cs line : List Char} (h : line ∈ dedent cs) :
    line = [] ∨ line.all isBlank = false := by
  rw [dedent_eq] at h
  obtain ⟨whole, hwhole, rfl⟩ := List.mem_map.1 h
  unfold undented
  split
  · exact .inl rfl
  · next hblank =>
    rw [Bool.not_eq_true] at hblank
    refine .inr ?_
    have hindent := margin_prefix hwhole hblank
    have hmargin : (margin (blockLines cs)).all isBlank = true := by
      refine List.all_eq_true.2 fun c hc => List.mem_takeWhile_imp (hindent.subset hc)
    obtain ⟨rest, hrest⟩ := hindent.trans <| indentOf_prefix whole
    rw [← hrest, List.all_append, hmargin, Bool.true_and] at hblank
    rwa [← hrest, List.drop_left]

/-! ## Blocks -/

theorem indentOf_spaces (width : Nat) (line : List Char) :
    indentOf (List.replicate width ' ' ++ line) = List.replicate width ' ' ++ indentOf line := by
  rw [indentOf, List.takeWhile_append_of_pos fun c hc => ?_]
  · rfl
  · rw [List.eq_of_mem_replicate hc]
    rfl

/-- Lines that get a margin of spaces lose it again. -/
theorem undented_spaces {width : Nat} {line : List Char}
    (h : line = [] ∨ line.all isBlank = false) :
    undented width (List.replicate width ' ' ++ line) = line := by
  unfold undented
  rcases h with rfl | h
  · refine if_pos (List.all_eq_true.2 fun c hc => ?_)
    rw [List.append_nil] at hc
    rw [List.eq_of_mem_replicate hc]
    rfl
  · rw [List.all_append, h, Bool.and_false, if_neg Bool.false_ne_true]
    exact List.drop_left' List.length_replicate

/-- A block without carriage returns that has been indented anew, dedented again. -/
theorem dedent_indented {width : Nat} {cs text : List Char}
    (hbelow : below width (dedent cs) = '\n' :: (List.replicate width ' ' ++ text))
    (hreturn : '\r' ∉ cs) (hfirst : ∃ c rest, text = c :: rest ∧ isBlank c = false)
    (hlast : ∃ front c, text = front ++ [c] ∧ isBlank c = false) :
    dedent (List.replicate width ' ' ++ text) = dedent cs := by
  have hnewline (line : List Char) (h : line ∈ dedent cs) := newline_not_mem_dedent h
  have hreturns (line : List Char) (h : line ∈ dedent cs) (hmem : '\r' ∈ line) : False :=
    hreturn (subset_of_dedent h hmem)
  have hblank (line : List Char) (h : line ∈ dedent cs) := blank_dedent h
  generalize dedent cs = lines at *
  cases lines with
  | nil => cases hbelow
  | cons first lines =>
    rw [below_cons, List.cons.injEq, List.append_cancel_left_eq] at hbelow
    obtain ⟨-, rfl⟩ := hbelow
    have hspaces {d : Char} (hd : d ≠ ' ') : d ∉ List.replicate width ' ' := fun hmem =>
      hd (List.eq_of_mem_replicate hmem)
    -- The lines of the block are those lines with the margin.
    have hlines : blockLines (List.replicate width ' ' ++ (first ++ below width lines)) =
        (first :: lines).map (List.replicate width ' ' ++ ·) := by
      obtain ⟨hfirstLine, hrest⟩ := List.forall_mem_cons.1 hnewline
      have hheader : '\n' ∉ List.replicate width ' ' ++ first := by
        rw [List.mem_append, not_or]
        exact ⟨hspaces (by decide), hfirstLine⟩
      obtain ⟨front, d, hfront, hd⟩ := hlast
      rw [blockLines_eq ⟨List.replicate width ' ' ++ front, d, by rw [hfront, List.append_assoc],
          hd⟩,
        ← List.append_assoc, allLines_below hheader hrest, ← List.map_cons, List.map_map]
      refine List.map_congr_left fun line hline => dropReturn_of_not_mem ?_
      rw [List.mem_append, not_or]
      exact ⟨hspaces (by decide), hreturns line hline⟩
    -- The first of them is indented by the margin alone.
    have hmargin : margin ((first :: lines).map (List.replicate width ' ' ++ ·)) =
        List.replicate width ' ' := by
      obtain ⟨d, rest, hd, hdblank⟩ := hfirst
      obtain ⟨more, rfl⟩ : ∃ more, first = d :: more := by
        cases first with
        | nil =>
          cases lines with
          | nil => cases hd
          | cons line lines =>
            rw [List.nil_append, below_cons] at hd
            rw [← (List.cons.inj hd).1] at hdblank
            cases hdblank
        | cons e more => exact ⟨more, by rw [(List.cons.inj hd).1]⟩
      have hindent : indentOf (List.replicate width ' ' ++ d :: more) = List.replicate width ' ' :=
        indentOf_append (fun e he => by rw [List.eq_of_mem_replicate he]; rfl) hdblank more
      rw [List.map_cons, margin_cons (by simp [hdblank]) fun line hline _ => ?_, hindent]
      obtain ⟨line, -, rfl⟩ := List.mem_map.1 hline
      rw [hindent, indentOf_spaces]
      exact List.prefix_append _ _
    rw [dedent_eq, hlines, hmargin, List.length_replicate, List.map_map]
    conv_rhs => rw [← List.map_id (first :: lines)]
    exact List.map_congr_left fun line hline => undented_spaces (hblank line hline)

end StagedScript.Text
