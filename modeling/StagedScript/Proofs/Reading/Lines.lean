import Mathlib.Data.List.Forall2
import StagedScript.Proofs.Reading.Words

/-!
# Texts in lines

A text of a header and indented lines below it is read as the tokens of its lines, with the layout
of one block.
-/

namespace StagedScript

namespace Piece

variable {ps qs : List Piece} {rest tail : List Char}

/-- The pieces are what is read in front of a text. -/
def Fit : List Piece → List Char → Prop
  | [], _ => True
  | p :: ps, rest => p.Fits (text ps ++ rest) ∧ Fit ps rest

theorem Fit.append (hps : Fit ps (text qs ++ rest)) (hqs : Fit qs rest) : Fit (ps ++ qs) rest := by
  induction ps with
  | nil => exact hqs
  | cons p ps ih =>
    refine ⟨?_, ih hps.2⟩
    change p.Fits (text (ps ++ qs) ++ _)
    rw [text_append, List.append_assoc]
    exact hps.1

theorem Fit.read (hps : Fit ps (text qs ++ tail)) (hqs : Read qs tail) : Read (ps ++ qs) tail := by
  induction ps with
  | nil => exact hqs
  | cons p ps ih =>
    refine ⟨?_, ih hps.2⟩
    change p.Fits (text (ps ++ qs) ++ _)
    rw [text_append, List.append_assoc]
    exact hps.1

/-- The text is empty or starts with the end of a line. -/
def EndsLine (rest : List Char) : Prop := rest = [] ∨ ∃ cs, rest = '\n' :: cs

theorem EndsLine.without {p : Char → Bool} (hp : p '\n' = false) (h : EndsLine rest) :
    Without p rest := by
  rcases h with rfl | ⟨cs, rfl⟩
  · exact .nil
  · exact .cons hp

end Piece

namespace Layout

/-- Within a line the pieces contribute their tokens, and open and close as many brackets as take
the one count to the other. -/
def Inside (n : Nat) (ps : List Piece) (m : Nat) : Prop :=
  ∀ levels, Arranges ⟨levels, n, false⟩ ps (ps.map Piece.kind) ⟨levels, m, false⟩

namespace Inside

variable {n m k : Nat} {p : Piece} {ps qs : List Piece}

theorem nil : Inside n [] n := fun _ => .nil

theorem append (hps : Inside n ps m) (hqs : Inside m qs k) : Inside n (ps ++ qs) k := by
  intro levels
  rw [List.map_append]
  exact (hps levels).append (hqs levels)

theorem plain (hp : p.kind ≠ .newline) (hplain : ∀ c, p.kind = .symbol c →
    c.opens = false ∧ c.closes = false) : Inside n [p] n := by
  intro levels
  have hcloses : closes p.kind = false := by
    cases hk : p.kind with
    | symbol c => exact (hplain c hk).2
    | _ => rfl
  have hafter : State.after ⟨levels, n, false⟩ p.kind = ⟨levels, n, false⟩ := by
    cases hk : p.kind with
    | symbol c =>
      unfold State.after
      dsimp only
      rw [(hplain c hk).1, (hplain c hk).2]
      rfl
    | _ => rfl
  have hwithin := Arranges.within (s := ⟨levels, n, false⟩) hp (.inr rfl) (by simp [hcloses])
  rwa [hafter] at hwithin

theorem opening {c : Symbol} (hp : p.kind = .symbol c) (hc : c.opens = true) :
    Inside n [p] (n + 1) := by
  intro levels
  have hcloses : c.closes = false := by cases c <;> first | rfl | cases hc
  have hwithin := Arranges.within (s := ⟨levels, n, false⟩) (p := p) (by simp [hp]) (.inr rfl)
    (by simp [hp, closes, hcloses])
  simpa [hp, State.after, hc] using hwithin

theorem closing {c : Symbol} (hp : p.kind = .symbol c) (hc : c.closes = true) :
    Inside (n + 1) [p] n := by
  intro levels
  have hopens : c.opens = false := by cases c <;> first | rfl | cases hc
  have hwithin := Arranges.within (s := ⟨levels, n + 1, false⟩) (p := p) (by simp [hp])
      (.inl (by simp))
    (by simp)
  simpa [hp, State.after, hc, hopens] using hwithin

/-- A word is neither a newline nor a bracket. -/
theorem kind_word (x : String) :
    Word.kind x ≠ .newline ∧ ∀ c, Word.kind x = .symbol c → c.opens = false ∧ c.closes = false := by
  unfold Word.kind
  split
  · exact ⟨by simp, by rintro c ⟨⟩⟩
  · split
    · exact ⟨by simp, by rintro c ⟨⟩⟩
    · exact ⟨by simp, by rintro c ⟨⟩⟩

theorem word (gap : List Char) (x : String) : Inside n [Piece.word gap x] n :=
  .plain (kind_word x).1 (kind_word x).2

theorem quoted (gap : List Char) (quote : Char) (body : List Char) (text : String) :
    Inside n [Piece.quoted gap quote body text] n :=
  .plain (by simp [Piece.quoted]) (by rintro c ⟨⟩)

theorem number (gap : List Char) (i : Nat) : Inside n [Piece.number gap i] n :=
  .plain (by simp [Piece.number]) (by rintro c ⟨⟩)

theorem symbol (gap : List Char) {c : Symbol} (hc : c.opens = false ∧ c.closes = false) :
    Inside n [Piece.symbol gap c] n :=
  .plain (by simp [Piece.symbol]) (by rintro d ⟨⟩; exact hc)

end Inside

end Layout

/-- The pieces are those of a line that its first token is this far in front of. -/
structure Piece.IsLine (gap : List Char) (ps : List Piece) : Prop where
  fit : ∀ rest, EndsLine rest → Fit ps rest
  first : ∃ p qs, ps = p :: qs ∧ p.gap = gap ∧ p.kind ≠ .newline ∧
    (∀ c, p.kind = .symbol c → c.opens = false ∧ c.closes = false) ∧ Layout.Inside 0 qs 0

/-- Each line behind the end of the one before. -/
def Piece.below (lines : List (List Piece)) : List Piece := lines.flatMap (Piece.newline [] :: ·)

namespace Piece

variable {gap : List Char} {ps header line : List Piece} {lines : List (List Piece)}

theorem text_below : text (below lines) = lines.flatMap ('\n' :: text ·) := by
  induction lines with
  | nil => rfl
  | cons line lines ih =>
    simp only [below, List.flatMap_cons] at ih ⊢
    rw [List.cons_append, text, text_append, ih]
    rfl

theorem endsLine_below : EndsLine (text (below lines) ++ []) := by
  rw [text_below, List.append_nil]
  cases lines with
  | nil => exact .inl rfl
  | cons line lines => exact .inr ⟨_, rfl⟩

theorem read_below {gap : List Char} (h : ∀ line ∈ lines, IsLine gap line) :
    Read (below lines) [] := by
  induction lines with
  | nil => exact .nil
  | cons line lines ih =>
    have hline : Fit line (text (below lines) ++ []) := (h line (by simp)).fit _ endsLine_below
    have hrest : Read (below lines) [] := ih fun line hline => h line (by simp [hline])
    exact ⟨fits_newline (by simp) _, hline.read hrest⟩

end Piece

namespace Layout

variable {gap : List Char} {levels : List Nat} {ps header line : List Piece}
  {lines : List (List Piece)}

theorem State.after_of_plain {s : State} {k : Token.Kind}
    (h : ∀ c, k = .symbol c → c.opens = false ∧ c.closes = false) : s.after k = s := by
  cases k with
  | symbol c =>
    unfold State.after
    dsimp only
    rw [(h c rfl).1, (h c rfl).2]
    rfl
  | _ => rfl

theorem closes_of_plain {k : Token.Kind}
    (h : ∀ c, k = .symbol c → c.opens = false ∧ c.closes = false) : closes k = false := by
  cases k with
  | symbol c => exact (h c rfl).2
  | _ => rfl

/-- A line at the level of its block. -/
theorem Arranges.isLine (h : Piece.IsLine gap ps) (hlevel : indentation gap = levels.headD 0) :
    Arranges ⟨levels, 0, true⟩ ps (ps.map Piece.kind) ⟨levels, 0, false⟩ := by
  obtain ⟨p, qs, rfl, rfl, hp, hplain, hqs⟩ := h.first
  have hfirst := Arranges.first (s := ⟨levels, 0, true⟩) hp rfl rfl (closes_of_plain hplain) hlevel
  rw [State.after_of_plain hplain] at hfirst
  exact hfirst.cons (hqs levels)

/-- A line that opens a block. -/
theorem Arranges.isLine_deeper (h : Piece.IsLine gap ps)
    (hlevel : levels.headD 0 < indentation gap) :
    Arranges ⟨levels, 0, true⟩ ps (.indent :: ps.map Piece.kind)
      ⟨indentation gap :: levels, 0, false⟩ := by
  obtain ⟨p, qs, rfl, rfl, hp, hplain, hqs⟩ := h.first
  have hfirst := Arranges.deeper (s := ⟨levels, 0, true⟩) hp rfl rfl (closes_of_plain hplain) hlevel
  rw [State.after_of_plain hplain] at hfirst
  exact hfirst.cons (hqs _)

/-- The end of a line between two tokens. -/
theorem Arranges.lineEnd : Arranges ⟨levels, 0, false⟩ [Piece.newline []] [.newline]
    ⟨levels, 0, true⟩ := .line rfl rfl rfl

theorem Arranges.below (h : ∀ line ∈ lines, Piece.IsLine gap line)
    (hlevel : indentation gap = levels.headD 0) :
    Arranges ⟨levels, 0, false⟩ (Piece.below lines)
      (lines.flatMap (.newline :: List.map Piece.kind ·)) ⟨levels, 0, false⟩ := by
  induction lines with
  | nil => exact .nil
  | cons line lines ih =>
    have hline := Arranges.isLine (h line (by simp)) hlevel
    have hrest := ih fun line hline => h line (by simp [hline])
    exact (Arranges.lineEnd.append hline).append hrest

end Layout

/-- The tokens of a text whose pieces leave some blocks open and no bracket. -/
theorem Lexed.ofText_arranged {ps : List Piece} {tail : List Char} {kinds : List Token.Kind}
    {levels : List Nat} (hread : Piece.Read ps tail)
    (hall : Layout.Arranges .start ps kinds ⟨levels, 0, false⟩) :
    let lexed := Lexed.ofText (Piece.text ps ++ tail)
    lexed.errors = [] ∧
      lexed.tokens.map Token.kind =
      kinds ++ .newline :: (levels.map (fun _ => .dedent) ++ [.eof]) := by
  intro lexed
  have hlexed : lexed = _ := Lexed.ofText_text hread
  rw [hlexed]
  refine ⟨hall.errors 0, ?_⟩
  rw [List.map_append, hall.kinds 0, hall.state 0]
  simp [Layout.finish, Layout.mark]

/-- The tokens of a text of one line. -/
theorem Lexed.ofText_line {line : List Piece} (h : Piece.IsLine [] line) :
    let lexed := Lexed.ofText (Piece.text line)
    lexed.errors = [] ∧ lexed.tokens.map Token.kind = line.map Piece.kind ++ [.newline, .eof] := by
  have hread : Piece.Read (line ++ []) [] := (h.fit _ (.inl rfl)).read .nil
  rw [List.append_nil] at hread
  have hline := Lexed.ofText_arranged hread (Layout.Arranges.isLine h rfl)
  rwa [List.append_nil] at hline

/-- The tokens of a text of a header and indented lines. -/
theorem Lexed.ofText_block {gap : List Char} {header line : List Piece} {lines : List (List Piece)}
    (hheader : Piece.IsLine [] header) (hgap : 0 < Layout.indentation gap)
    (hlines : ∀ l ∈ line :: lines, Piece.IsLine gap l) :
    let lexed := Lexed.ofText (Piece.text header ++ (line :: lines).flatMap ('\n' :: Piece.text ·))
    lexed.errors = [] ∧
      lexed.tokens.map Token.kind = header.map Piece.kind ++ .newline :: .indent ::
        ((line :: lines).flatMap (List.map Piece.kind · ++ [.newline]) ++ [.dedent, .eof]) := by
  have hread : Piece.Read (header ++ Piece.below (line :: lines)) [] :=
    (hheader.fit _ Piece.endsLine_below).read (Piece.read_below hlines)
  have hline : Layout.Arranges ⟨[Layout.indentation gap], 0, false⟩ (Piece.below lines) _ _ :=
    .below (fun l hl => hlines l (by simp [hl])) rfl
  -- The first line below the header opens the block, and the others stay in it.
  have hbelow : Layout.Arranges ⟨[], 0, false⟩ (Piece.below (line :: lines))
      (.newline :: .indent :: (line.map Piece.kind ++
        lines.flatMap (.newline :: List.map Piece.kind ·))) ⟨[Layout.indentation gap], 0,
        false⟩ := by
    have hfirst : Layout.Arranges ⟨[], 0, true⟩ line _ _ :=
      Layout.Arranges.isLine_deeper (hlines line (by simp)) hgap
    exact (Layout.Arranges.lineEnd.append hfirst).append hline
  have hall : Layout.Arranges .start (header ++ Piece.below (line :: lines)) _ _ :=
    (Layout.Arranges.isLine hheader rfl).append hbelow
  have htext : Piece.text header ++ (line :: lines).flatMap ('\n' :: Piece.text ·) =
      Piece.text (header ++ Piece.below (line :: lines)) := by
    rw [Piece.text_append, Piece.text_below]
  -- The ends of lines stand in front of the next line here, and behind each line there.
  have hends (xs : List (List Token.Kind)) (x : List Token.Kind) :
      x ++ xs.flatMap (.newline :: ·) ++ [.newline] = (x :: xs).flatMap (· ++ [.newline]) := by
    induction xs generalizing x with
    | nil => simp
    | cons y ys ih =>
      have hy := ih y
      simp only [List.flatMap_cons, List.append_assoc, List.cons_append, List.nil_append] at hy ⊢
      rw [hy]
  have hwords := hends (lines.map (List.map Piece.kind)) (line.map Piece.kind)
  simp only [List.flatMap_map, List.flatMap_cons] at hwords
  intro lexed
  obtain ⟨herrors, hkinds⟩ := Lexed.ofText_arranged hread hall
  rw [List.append_nil, ← htext] at herrors hkinds
  refine ⟨herrors, hkinds.trans ?_⟩
  simp only [List.flatMap_cons]
  rw [← hwords]
  simp

end StagedScript
