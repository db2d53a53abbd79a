import StagedScript.Proofs.Maker.Header
import StagedScript.Proofs.Writing.Emission

/-!
# The text of a maker

What is written around the text of a function is the header of a maker, and below it the lines of
the function and a line that returns it, all with a margin in front of them.
-/

namespace StagedScript

/-! ## Lines without line feeds -/

namespace Text

theorem newline_not_mem_endedLines (cs : List Char) :
    (∀ line ∈ (endedLines cs).1, '\n' ∉ line) ∧ '\n' ∉ (endedLines cs).2 := by
  induction cs with
  | nil => exact ⟨fun line h => (List.not_mem_nil h).elim, List.not_mem_nil⟩
  | cons c cs ih =>
    obtain ⟨hlines, hrest⟩ := ih
    unfold endedLines
    dsimp only
    split
    · refine ⟨fun line h => ?_, hrest⟩
      rcases List.mem_cons.1 h with rfl | h
      · exact List.not_mem_nil
      · exact hlines line h
    · next hc =>
      have hcons {line : List Char} (h : '\n' ∉ line) : '\n' ∉ c :: line := by
        rw [List.mem_cons, not_or]
        exact ⟨fun h => hc h.symm, h⟩
      cases hl : (endedLines cs).1 with
      | nil => exact ⟨fun line h => (List.not_mem_nil h).elim, hcons hrest⟩
      | cons first lines =>
        rw [hl] at hlines
        refine ⟨fun line h => ?_, hrest⟩
        rcases List.mem_cons.1 h with rfl | h
        · exact hcons (hlines first (by simp))
        · exact hlines line (List.mem_cons_of_mem _ h)

theorem newline_not_mem_blockLines {cs line : List Char} (h : line ∈ blockLines cs) :
    '\n' ∉ line := by
  obtain ⟨hlines, hrest⟩ := newline_not_mem_endedLines cs
  unfold blockLines at h
  rcases List.mem_append.1 h with h | h
  · obtain ⟨ended, hended, rfl⟩ := List.mem_map.1 h
    unfold dropReturn
    split
    · exact fun hmem => hlines ended hended (List.dropLast_subset _ hmem)
    · exact hlines ended hended
  · split at h
    · cases h
    · obtain rfl := List.mem_singleton.1 h
      exact hrest

theorem newline_not_mem_dedent {cs line : List Char} (h : line ∈ dedent cs) : '\n' ∉ line := by
  obtain ⟨whole, hwhole, rfl⟩ := List.mem_map.1 h
  split
  · exact List.not_mem_nil
  · exact fun hmem => newline_not_mem_blockLines hwhole (List.mem_of_mem_drop hmem)

end Text

/-! ## Texts of lines with a margin -/

theorem Hangs.line {width : Nat} {line rest : List Char} (hline : '\n' ∉ line)
    (hrest : Hangs width rest) : Hangs width (line ++ rest) := by
  induction line with
  | nil => exact hrest
  | cons c line ih =>
    rw [List.mem_cons, not_or] at hline
    intro before after h
    cases before with
    | nil => exact absurd (List.cons.inj h).1.symm hline.1
    | cons d before => exact ih hline.2 before after (List.cons.inj h).2

theorem Hangs.newline {width : Nat} {rest : List Char} (hmargin : List.replicate width ' ' <+: rest)
    (hrest : Hangs width rest) : Hangs width ('\n' :: rest) := by
  intro before after h
  cases before with
  | nil =>
    cases h
    exact hmargin
  | cons d before =>
    cases h
    exact hrest before after rfl

/-- The text of lines, each with a margin in front of it and behind the end of the one before. -/
def Text.below (width : Nat) (lines : List (List Char)) : List Char :=
  lines.flatMap fun line => '\n' :: (List.replicate width ' ' ++ line)

theorem Hangs.below (width : Nat) {lines : List (List Char)} (h : ∀ line ∈ lines, '\n' ∉ line) :
    Hangs width (Text.below width lines) := by
  induction lines with
  | nil =>
    intro before after h
    cases before <;> cases h
  | cons line lines ih =>
    have hrest := ih fun l hl => h l (List.mem_cons_of_mem _ hl)
    have hline : '\n' ∉ List.replicate width ' ' ++ line := by
      rw [List.mem_append, not_or]
      exact ⟨fun hmem => absurd (List.eq_of_mem_replicate hmem) (by decide), h line (by simp)⟩
    rw [Text.below, List.flatMap_cons, List.cons_append]
    exact .newline (by rw [List.append_assoc]; exact List.prefix_append _ _) (.line hline hrest)

/-! ## The text of a maker -/

namespace Closure

/-- The lines of a function and the one that returns it. -/
def makerLines (f : Function) : List String :=
  Emit.blockOf f.sourceText ++ [" ".intercalate ["return", f.name]]

/-- The lines are written below the header. -/
theorem write_eq (f : Function) (names : List String) : write f names ⟨.empty .standard, ()⟩ =
    .ok () ⟨⟨.standard, 0, (String.ofList (Piece.text (Maker.header names)) ::
      (makerLines f).map (String.ofList (List.replicate 4 ' ') ++ ·)).toArray⟩, ()⟩ := by
  have hheader : "def " ++ SpecializeError.makerName ++ "(" ++
      ArgText.list (names.map (⟨·, none⟩)) none none ++ "):" =
        String.ofList (Piece.text (Maker.header names)) := by
    rw [← String.toList_inj, Maker.text_header, String.ofList_toList]
    simp [ArgText.list, ArgText.text, Function.comp_def]
  have hlines (e : Emission Unit) : (do
      Emit.block .empty f.sourceText
      Emit.words .empty ["return", f.name] : Emit Unit Unit) e = .ok ()
      (e.pushed (makerLines f)) := by
    have hblock : Emit.block .empty f.sourceText e =
        .ok () (e.pushed (Emit.blockOf f.sourceText)) :=
      Emit.forM_ok (List.forall₂_same.2 fun text _ => Emit.line_empty text) e
    rw [EStateM.bind_ok hblock, makerLines, e.pushed_append]
    exact Emit.line_empty _ _
  have hdeeper := Emit.deeper_ok (e := Emission.pushed ⟨.empty .standard, ()⟩
    [String.ofList (Piece.text (Maker.header names))]) (by simp [makerLines]) (hlines _)
  unfold write
  rw [hheader, EStateM.bind_ok (Emit.line_empty _ _)]
  refine hdeeper.trans ?_
  generalize makerLines f = lines
  simp [Emission.pushed, Buffer.empty, Emission.enter, Emission.leave, Buffer.indented,
    EmitConfig.standard]

/-- The text of a maker is made of its header and its lines. -/
theorem text_of_render {f : Function} {names : List String} {text : String}
    (h : render f names = .ok text) : text.toList =
      Piece.text (Maker.header names) ++ Text.below 4 ((makerLines f).map String.toList) := by
  unfold render at h
  rw [write_eq] at h
  obtain rfl := Except.ok.inj h
  unfold Buffer.text
  rw [List.toList_toArray, String.toList_intercalate, List.map_cons, intercalate_eq_append]
  simp [Text.below, List.flatMap_map]

theorem newline_not_mem_makerLines {f : Function} (hf : '\n' ∉ f.name.toList) {line : List Char}
    (h : line ∈ (makerLines f).map String.toList) : '\n' ∉ line := by
  rw [makerLines, List.map_append] at h
  rcases List.mem_append.1 h with h | h
  · unfold Emit.blockOf at h
    rw [List.map_map] at h
    obtain ⟨chars, hchars, rfl⟩ := List.mem_map.1 h
    rw [Function.comp_apply, String.toList_ofList]
    exact Text.newline_not_mem_dedent hchars
  · obtain rfl := List.mem_singleton.1 h
    simpa using hf

/-- What has been read for a closure is the definition of a maker for its names. -/
theorem Written.definesMaker {v : Value} {s : Store} {c : Closure} {script : Script} {text : String}
    (h : c.Written v s script text) (hname : '\n' ∉ c.function.name.toList)
    (hnames : ∀ x ∈ c.vars.keys, Word.isName x = true) :
    ∃ span body, c.script.DefinesMaker c.vars.keys span body := by
  have hlines : ∀ line ∈ (makerLines c.function).map String.toList, '\n' ∉ line :=
    fun _ => newline_not_mem_makerLines hname
  have hhangs := Hangs.below 4 hlines
  have htext := text_of_render h.render
  obtain ⟨first, lines, hcons⟩ : ∃ first lines,
      (makerLines c.function).map String.toList = first :: lines := by
    refine List.exists_cons_of_ne_nil ?_
    simp [makerLines]
  rw [hcons, Text.below, List.flatMap_cons] at htext hhangs
  have hmargin : List.replicate 4 ' ' <+: List.replicate 4 ' ' ++ first ++ Text.below 4 lines := by
    rw [List.append_assoc]
    exact List.prefix_append _ _
  rw [List.cons_append, ← List.singleton_append] at hhangs
  obtain ⟨span, body, hbody⟩ := Maker.definesMaker_of_parse c.vars.nodup hnames (by decide) hmargin
    hhangs.suffix htext h.parse
  refine ⟨span, body, ?_⟩
  rw [h.script]
  exact hbody

end Closure

end StagedScript
