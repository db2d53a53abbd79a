import StagedScript.Proofs.Parsing.Consumption
import StagedScript.Proofs.Reading.Lines

/-!
# Texts with a margin

If every line of a text but the first is indented by a margin, the block that the second line opens
ends with the text.
-/

namespace StagedScript

/-! ## Tokens by their characters -/

/-- The token is one of the text, and no mark of its layout. -/
def Token.Kind.Inner (k : Token.Kind) : Prop := k.Flat ∧ k ≠ .newline ∧ k ≠ .eof

namespace Lexeme

theorem inner_word (word : String) : (Word.kind word).Inner := by
  unfold Word.kind
  split
  · simp [Token.Kind.Inner, Token.Kind.Flat]
  · split
    · simp [Token.Kind.Inner, Token.Kind.Flat]
    · simp [Token.Kind.Inner, Token.Kind.Flat]

theorem inner_number {l : Numeral.Literal} {k : Token.Kind} (h : l.kind? = some k) : k.Inner := by
  cases l with
  | int radix digits =>
    obtain ⟨n, -, rfl⟩ := Option.map_eq_some_iff.1 h
    simp [Token.Kind.Inner, Token.Kind.Flat]
  | float parts =>
    cases h
    simp [Token.Kind.Inner, Token.Kind.Flat]

/-- A token starts with no blank, and only the end of a line is a newline. -/
theorem read_token {c : Char} {cs : List Char} {k : Token.Kind} {n : Nat}
    (h : read c cs = (.token k, n)) : isBlank c = false ∧ (k.Inner ∨
      k = .newline ∧ (c = '\n' ∧ n = 0 ∨ c = '\r' ∧ n = 1 ∧ ∃ rest, cs = '\n' :: rest)) := by
  unfold read at h
  split at h
  · cases h
  · next hblank =>
    refine ⟨by simpa using hblank, ?_⟩
    split at h
    · cases h
    · split at h
      · unfold backslash at h
        split at h <;> cases h
      · split at h
        · next hc =>
          cases h
          exact .inr ⟨rfl, .inl ⟨hc, rfl⟩⟩
        · split at h
          · next hc =>
            split at h
            · next rest =>
              cases h
              exact .inr ⟨rfl, .inr ⟨hc, rfl, rest, rfl⟩⟩
            · cases h
          · refine .inl ?_
            split at h
            · cases h
              exact inner_word _
            · split at h
              · unfold number at h
                dsimp only at h
                split at h
                · next k' hk =>
                  cases h
                  exact inner_number hk
                · cases h
              · split at h
                · unfold quoted at h
                  split at h
                  · cases h
                    simp [Token.Kind.Inner, Token.Kind.Flat]
                  · cases h
                · unfold symbol at h
                  split at h
                  · cases h
                    simp [Token.Kind.Inner, Token.Kind.Flat]
                  · cases h

end Lexeme

namespace Piece.Fits

variable {p : Piece} {rest : List Char}

theorem head (h : p.Fits rest) : ∃ c cs, p.chars = c :: cs ∧ Lexeme.isBlank c = false := by
  obtain ⟨c, cs, hchars, hread⟩ := h.token
  exact ⟨c, cs, hchars, (Lexeme.read_token hread).1⟩

theorem inner (h : p.Fits rest) (hp : p.kind ≠ .newline) : p.kind.Inner := by
  obtain ⟨c, cs, -, hread⟩ := h.token
  rcases (Lexeme.read_token hread).2 with hinner | ⟨hnewline, -⟩
  · exact hinner
  · exact absurd hnewline hp

/-- A newline ends with a line feed. -/
theorem newline (h : p.Fits rest) (hp : p.kind = .newline) : ∃ cs, p.chars = cs ++ ['\n'] := by
  obtain ⟨c, cs, hchars, hread⟩ := h.token
  rcases (Lexeme.read_token hread).2 with hinner | ⟨-, ⟨rfl, hlength⟩ | ⟨rfl, hlength, more, hmore⟩⟩
  · exact absurd hp hinner.2.1
  · rw [List.eq_nil_of_length_eq_zero hlength] at hchars
    exact ⟨[], hchars⟩
  · obtain ⟨d, hd⟩ := List.length_eq_one_iff.1 hlength
    rw [hd] at hmore hchars
    cases hmore
    exact ⟨['\r'], hchars⟩

end Piece.Fits

/-! ## Margins -/

/-- Every line of the text but the first one has a margin of so many blanks. -/
def Hangs (width : Nat) (cs : List Char) : Prop :=
  ∀ before after, cs = before ++ '\n' :: after → List.replicate width ' ' <+: after

theorem Hangs.suffix {width : Nat} {cs ds : List Char} (h : Hangs width (cs ++ ds)) :
    Hangs width ds := by
  rintro before after rfl
  exact h (cs ++ before) after (by rw [List.append_assoc])

namespace Layout

/-- Every further character makes a text wider. -/
theorem add_length_le_foldl (cs : List Char) (w : Nat) : w + cs.length ≤
    cs.foldl (fun w c => if c = '\t' then (w / tabStop + 1) * tabStop else w + 1) w := by
  induction cs generalizing w with
  | nil => exact Nat.le_refl w
  | cons c cs ih =>
    rw [List.foldl_cons, List.length_cons]
    refine Nat.le_trans ?_ (ih _)
    split
    · unfold tabStop
      omega
    · omega

theorem length_le_width (cs : List Char) : cs.length ≤ width cs := by
  have hlength := add_length_le_foldl cs 0
  rwa [Nat.zero_add] at hlength

theorem le_width {n : Nat} {cs : List Char} (h : List.replicate n ' ' <+: cs) : n ≤ width cs := by
  have hlength := h.length_le
  rw [List.length_replicate] at hlength
  exact Nat.le_trans hlength (length_le_width cs)

/-- The margin is in front of a token that does not start with a blank. -/
theorem margin_le_gap {n : Nat} {gap rest : List Char} {c : Char} (hc : c ≠ ' ')
    (h : List.replicate n ' ' <+: gap ++ c :: rest) : List.replicate n ' ' <+: gap := by
  induction n generalizing gap with
  | zero => exact List.nil_prefix
  | succ n ih =>
    rw [List.replicate_succ] at h ⊢
    cases gap with
    | nil =>
      rw [List.nil_append, List.cons_prefix_cons] at h
      exact absurd h.1.symm hc
    | cons d gap =>
      rw [List.cons_append, List.cons_prefix_cons] at h
      rw [List.cons_prefix_cons]
      exact ⟨h.1, ih h.2⟩

/-- What stands behind the last newline, with what is in front of it. -/
theorem lineHead_eq (cs : List Char) : lineHead cs = cs ∨
    ∃ before, cs = before ++ '\n' :: lineHead cs := by
  have hsplit : cs.reverse = cs.reverse.takeWhile (· != '\n') ++ cs.reverse.dropWhile (· != '\n') :=
    List.takeWhile_append_dropWhile.symm
  have hcs := congrArg List.reverse hsplit
  rw [List.reverse_reverse, List.reverse_append] at hcs
  cases hdrop : cs.reverse.dropWhile (· != '\n') with
  | nil =>
    rw [hdrop] at hcs
    exact .inl hcs.symm
  | cons c rest =>
    have hc : c = '\n' := by
      have hne : cs.reverse.dropWhile (· != '\n') ≠ [] := by
        rw [hdrop]
        simp
      have hhead := List.head_dropWhile_not (· != '\n') hne
      simpa [hdrop] using hhead
    rw [hdrop, List.reverse_cons, hc] at hcs
    refine .inr ⟨rest.reverse, hcs.trans ?_⟩
    rw [List.append_assoc]
    rfl

/-- The first token of a line is indented at least by the margin. -/
theorem le_indentation {width : Nat} {gap rest : List Char} {c : Char} (hc : c ≠ ' ')
    (hangs : Hangs width (gap ++ c :: rest)) (h : List.replicate width ' ' <+: gap ++ c :: rest) :
    width ≤ indentation gap := by
  refine le_width ?_
  rcases lineHead_eq gap with hhead | ⟨before, hhead⟩
  · rw [hhead]
    exact margin_le_gap hc h
  · refine margin_le_gap hc (hangs before (lineHead gap ++ c :: rest) ?_)
    conv_lhs => rw [hhead]
    simp

/-! ## How deep the text is -/

open Token (depthAfter)

theorem depthAfter_dedents (levels : List Nat) (d position : Nat) :
    depthAfter (levels.length + d) (levels.map fun _ => (mark .dedent position).kind) = some d := by
  induction levels with
  | nil => simp [depthAfter]
  | cons level levels ih =>
    rw [List.length_cons, Nat.add_right_comm]
    exact ih

theorem bracket_tokens (t : Token) (s : State) : (bracket t s).tokens = [t] ∧
    (bracket t s).state.levels = s.levels ∧ (bracket t s).state.fresh = s.fresh := by
  unfold bracket
  split
  · split
    · exact ⟨rfl, rfl, rfl⟩
    · split
      · split <;> exact ⟨rfl, rfl, rfl⟩
      · exact ⟨rfl, rfl, rfl⟩
  · exact ⟨rfl, rfl, rfl⟩

theorem indent_fresh (w position : Nat) (s : State) :
    (indent w position s).state.fresh = false := by
  unfold indent
  split <;> rfl

/-- A line behind the margin stays in the outermost block. -/
theorem indent_depth {w position : Nat} {s : State} (hw : 0 < w) (hs : s.levels ≠ [])
    (h : (indent w position s).errors = []) :
    (indent w position s).state.levels ≠ [] ∧
      depthAfter s.levels.tail.length ((indent w position s).tokens.map Token.kind) =
        some (indent w position s).state.levels.tail.length := by
  unfold indent at h ⊢
  split
  · refine ⟨by simp, ?_⟩
    obtain ⟨level, levels, hlevels⟩ := List.exists_cons_of_ne_nil hs
    simp [hlevels, mark, depthAfter]
  · next hle =>
    rw [if_neg hle] at h
    dsimp only at h ⊢
    -- A line that closes the outermost block as well is an error, or has no margin.
    have hne : s.levels.drop (s.levels.takeWhile (w < ·)).length ≠ [] := by
      intro hnil
      rw [hnil] at h
      split at h
      · next hzero =>
        have hw' : w = 0 := hzero
        omega
      · cases h
    refine ⟨hne, ?_⟩
    have hlength : s.levels.tail.length = (s.levels.takeWhile (w < ·)).length +
        (s.levels.drop (s.levels.takeWhile (w < ·)).length).tail.length := by
      have hpos := List.length_pos_iff.2 hne
      rw [List.length_drop] at hpos
      rw [List.length_tail, List.length_tail, List.length_drop]
      omega
    rw [hlength, List.map_map]
    exact depthAfter_dedents _ _ position

/-- At the start of a line the margin is in front of the text. -/
def State.Ready (s : State) (width : Nat) (cs : List Char) : Prop :=
  s.fresh = true → s.brackets = 0 ∧ List.replicate width ' ' <+: cs

/-- The start of a line behind a newline is ready. -/
theorem State.Ready.newline {width : Nat} {p : Piece} {rest : List Char} (hp : p.Fits rest)
    (hk : p.kind = .newline) (hangs : Hangs width (p.gap ++ (p.chars ++ rest))) {s : State}
    (hready : s.Ready width (p.gap ++ (p.chars ++ rest))) (span : Span) :
    (Layout.newline ⟨p.kind, span⟩ s).state.Ready width rest := by
  obtain ⟨cs, hcs⟩ := hp.newline hk
  have hmargin : List.replicate width ' ' <+: rest := by
    refine hangs (p.gap ++ cs) rest ?_
    rw [hcs]
    simp
  unfold Layout.newline
  split
  · next h =>
    intro _
    rw [Bool.and_eq_true, decide_eq_true_eq] at h
    exact ⟨h.1, hmargin⟩
  · exact fun hfresh => ⟨(hready hfresh).1, hmargin⟩

theorem newline_depth (t : Token) (s : State) (ht : t.kind = .newline) :
    (newline t s).errors = [] ∧ (newline t s).state.levels = s.levels ∧
      depthAfter s.levels.tail.length ((newline t s).tokens.map Token.kind) =
        some s.levels.tail.length := by
  unfold newline
  split
  · refine ⟨rfl, rfl, ?_⟩
    rw [List.map_singleton, ht]
    exact Token.Balanced.flat (by simp [Token.Kind.Flat]) _
  · exact ⟨rfl, rfl, rfl⟩

/-- What a token does in a text with a margin. -/
theorem step_depth {width : Nat} (hwidth : 0 < width) {p : Piece} {rest : List Char}
    (hp : p.Fits rest) (hangs : Hangs width (p.gap ++ (p.chars ++ rest))) {s : State}
    (hready : s.Ready width (p.gap ++ (p.chars ++ rest))) (span : Span)
    (herrors : (step p.gap ⟨p.kind, span⟩ s).errors = []) :
    (step p.gap ⟨p.kind, span⟩ s).state.Ready width rest ∧ (s.levels ≠ [] →
      (step p.gap ⟨p.kind, span⟩ s).state.levels ≠ [] ∧
      depthAfter s.levels.tail.length ((step p.gap ⟨p.kind, span⟩ s).tokens.map Token.kind) =
        some (step p.gap ⟨p.kind, span⟩ s).state.levels.tail.length) := by
  by_cases hk : p.kind = .newline
  · have hstep : step p.gap ⟨p.kind, span⟩ s = newline ⟨p.kind, span⟩ s := by
      unfold step
      rw [hk]
    obtain ⟨-, hlevels, hdepth⟩ := newline_depth ⟨p.kind, span⟩ s hk
    rw [hstep, hlevels]
    exact ⟨hready.newline hp hk hangs span, fun hs => ⟨hs, hdepth⟩⟩
  · have hinner := hp.inner hk
    rw [Arranges.step_eq hk] at herrors ⊢
    dsimp only at herrors ⊢
    -- Only the first token of a line looks at the space in front of it.
    by_cases hfresh : s.fresh = true
    · obtain ⟨hbrackets, hmargin⟩ := hready hfresh
      obtain ⟨c, cs, hchars, hblank⟩ := hp.head
      rw [hchars, List.cons_append] at hangs hmargin
      have hw : width ≤ indentation p.gap :=
        le_indentation (by rintro rfl; cases hblank) hangs hmargin
      rw [if_pos (by simp [hfresh, hbrackets])] at herrors ⊢
      obtain ⟨htokens, hlevels, hfresh'⟩ :=
        bracket_tokens ⟨p.kind, span⟩ (indent (indentation p.gap) span.start s).state
      rw [htokens, hlevels, List.map_append, Token.depthAfter_append]
      refine ⟨fun h => ?_, fun hs => ?_⟩
      · rw [hfresh', indent_fresh] at h
        cases h
      · obtain ⟨hne, hdepth⟩ :=
          indent_depth (by omega) hs (List.append_eq_nil_iff.1 herrors).1
        rw [hdepth]
        exact ⟨hne, Token.Balanced.flat hinner.1 _⟩
    · obtain ⟨htokens, hlevels, hfresh'⟩ := bracket_tokens ⟨p.kind, span⟩ s
      rw [if_neg (by simp [hfresh])] at herrors ⊢
      refine ⟨fun h => absurd (hfresh'.symm.trans h) hfresh, fun hs => ⟨hlevels ▸ hs, ?_⟩⟩
      rw [htokens, hlevels]
      exact Token.Balanced.flat hinner.1 _

/-- What stands in a block stays in it, if all the lines have a margin. -/
theorem through_depth {width : Nat} (hwidth : 0 < width) {ps : List Piece} {tail : List Char}
    (hps : Piece.Read ps tail) (hangs : Hangs width (Piece.text ps ++ tail)) {s : State}
    (hready : s.Ready width (Piece.text ps ++ tail)) (hs : s.levels ≠ []) (start : Nat)
    (herrors : (through start s ps).errors = []) :
    (through start s ps).state.levels ≠ [] ∧
      depthAfter s.levels.tail.length ((through start s ps).tokens.map Token.kind) =
        some (through start s ps).state.levels.tail.length := by
  induction ps generalizing s start with
  | nil => exact ⟨hs, rfl⟩
  | cons p ps ih =>
    have htext : Piece.text (p :: ps) ++ tail = p.gap ++ (p.chars ++ (Piece.text ps ++ tail)) := by
      simp [Piece.text]
    rw [htext] at hangs hready
    unfold through at herrors ⊢
    dsimp only at herrors ⊢
    obtain ⟨hhere, hrest⟩ := List.append_eq_nil_iff.1 herrors
    obtain ⟨hready', hdepth⟩ := step_depth hwidth hps.1 hangs hready _ hhere
    obtain ⟨hne, hdepth⟩ := hdepth hs
    obtain ⟨hne', hdepth'⟩ := ih hps.2 hangs.suffix.suffix hready' hne _ hrest
    refine ⟨hne', ?_⟩
    rw [List.map_append, Token.depthAfter_append, hdepth]
    exact hdepth'

/-- The first line opens a block that all the text is in. -/
theorem through_block {width : Nat} (hwidth : 0 < width) {ps : List Piece} {tail : List Char}
    (hps : Piece.Read ps tail) (hangs : Hangs width (Piece.text ps ++ tail))
    (hmargin : List.replicate width ' ' <+: Piece.text ps ++ tail) (start : Nat)
    (herrors : (through start .start ps).errors = []) :
    ((through start .start ps).tokens = [] ∧ (through start .start ps).state = .start) ∨
      ∃ ks, (through start .start ps).tokens.map Token.kind = .indent :: ks ∧
        (through start .start ps).state.levels ≠ [] ∧
        depthAfter 0 ks = some (through start .start ps).state.levels.tail.length := by
  induction ps generalizing start with
  | nil => exact .inl ⟨rfl, rfl⟩
  | cons p ps ih =>
    have htext : Piece.text (p :: ps) ++ tail = p.gap ++ (p.chars ++ (Piece.text ps ++ tail)) := by
      simp [Piece.text]
    rw [htext] at hangs hmargin
    have hready : State.start.Ready width (p.gap ++ (p.chars ++ (Piece.text ps ++ tail))) :=
      fun _ => ⟨rfl, hmargin⟩
    unfold through at herrors ⊢
    dsimp only at herrors ⊢
    obtain ⟨hhere, hrest⟩ := List.append_eq_nil_iff.1 herrors
    have hready' := (step_depth hwidth hps.1 hangs hready _ hhere).1
    -- Empty lines change nothing; the first token of another kind opens the block.
    by_cases hk : p.kind = .newline
    · have hstep (span : Span) : step p.gap ⟨p.kind, span⟩ .start = ⟨.start, [], []⟩ := by
        unfold step
        rw [hk]
        rfl
      rw [hstep] at hready' hrest ⊢
      exact ih hps.2 hangs.suffix.suffix (hready' rfl).2 _ hrest
    · refine .inr ?_
      obtain ⟨c, cs, hchars, hblank⟩ := hps.1.head
      have hw : width ≤ indentation p.gap := by
        rw [hchars, List.cons_append] at hangs hmargin
        exact le_indentation (by rintro rfl; cases hblank) hangs hmargin
      have hstep (span : Span) : (step p.gap ⟨p.kind, span⟩ .start).tokens.map Token.kind =
          [.indent, p.kind] ∧
          (step p.gap ⟨p.kind, span⟩ .start).state.levels = [indentation p.gap] := by
        have hindent : indent (indentation p.gap) span.start .start =
            ⟨⟨[indentation p.gap], 0, false⟩, [mark .indent span.start], []⟩ := by
          unfold indent
          rw [if_pos (by simp only [State.level, State.start, List.headD_nil]; omega)]
          rfl
        obtain ⟨htokens, hlevels, -⟩ :=
          bracket_tokens ⟨p.kind, span⟩ ⟨[indentation p.gap], 0, false⟩
        rw [Arranges.step_eq hk, if_pos (by decide), hindent]
        dsimp only
        rw [htokens, hlevels]
        exact ⟨rfl, rfl⟩
      obtain ⟨htokens, hlevels⟩ := hstep ⟨start + Text.byteLength p.gap,
        start + Text.byteLength p.gap + Text.byteLength p.chars⟩
      obtain ⟨hne, hdepth⟩ := through_depth hwidth hps.2 hangs.suffix.suffix hready'
        (by rw [hlevels]; simp) _ hrest
      rw [List.map_append, htokens]
      rw [hlevels] at hdepth
      exact ⟨p.kind :: _, rfl, hne, (Token.depthAfter_flat (hps.1.inner hk).1 0 _).trans hdepth⟩

/-- The tokens that end the text close all blocks but the outermost one, and then this one. -/
theorem finish_depth {s : State} (hs : s.levels ≠ []) (stop : Nat) : ∃ ks,
    (finish stop s).map Token.kind = ks ++ [.dedent, .eof] ∧
      depthAfter s.levels.tail.length ks = some 0 := by
  obtain ⟨level, levels, hlevels⟩ := List.exists_cons_of_ne_nil hs
  refine ⟨(if s.fresh then [] else [.newline]) ++ levels.map fun _ => .dedent, ?_, ?_⟩
  · have hlast : Token.Kind.dedent :: levels.map (fun _ => Token.Kind.dedent) =
        levels.map (fun _ => Token.Kind.dedent) ++ [.dedent] := by
      simp [List.map_const', ← List.replicate_succ, ← List.replicate_succ']
    unfold finish
    simp only [hlevels, List.map_append, List.map_cons, List.map_map, Function.comp_def, mark,
      List.append_assoc, List.cons_append, List.map_nil]
    rw [← List.cons_append, hlast, List.append_assoc]
    split <;> rfl
  · have hdedents := depthAfter_dedents levels 0 stop
    rw [hlevels, List.tail_cons]
    split
    · exact hdedents
    · rw [List.singleton_append, Token.depthAfter_flat (by simp [Token.Kind.Flat])]
      exact hdedents

end Layout

/-! ## Blocks below a header -/

/-- What pieces that are read in front of a text add to its tokens. -/
theorem Token.scanFrom_fit {start room : Nat} {ps : List Piece} {rest : List Char}
    (h : Piece.Fit ps rest) : scanFrom start (room + 1) (Piece.text ps ++ rest) =
      let behind := scanFrom (start + Text.byteLength (Piece.text ps)) (room + 1) rest
      (Piece.place start ps ++ behind.1, behind.2) := by
  induction ps generalizing start with
  | nil => rfl
  | cons p ps ih =>
    obtain ⟨⟨hgap, c, cs, hchars, hread⟩, hps⟩ := h
    have htext : Piece.text (p :: ps) ++ rest = p.gap ++ (p.chars ++ (Piece.text ps ++ rest)) := by
      simp [Piece.text]
    rw [htext, scanFrom_skips hgap, hchars, List.cons_append, scanFrom_token hread, Piece.place,
      hchars, List.take_left, List.drop_left, ih hps, ← hchars]
    simp [Piece.text, Nat.add_assoc]

/-- The tokens of a text of a header and lines with a margin below it: the lines are a block. -/
theorem Lexed.ofText_hanging {header : List Piece} (hheader : Piece.IsLine [] header) {width : Nat}
    (hwidth : 0 < width) {rest : List Char} (hmargin : List.replicate width ' ' <+: rest)
    (hangs : Hangs width rest) :
    let lexed := Lexed.ofText (Piece.text header ++ '\n' :: rest)
    lexed.errors = [] → lexed.tokens.map Token.kind = header.map Piece.kind ++ [.newline, .eof] ∨
      ∃ ks, lexed.tokens.map Token.kind = header.map Piece.kind ++ .newline :: .indent ::
        (ks ++ [.dedent, .eof]) ∧ Token.Balanced ks := by
  intro lexed herrors
  have hfit : Piece.Fit (header ++ [Piece.newline []]) rest :=
    .append (hheader.fit _ (.inr ⟨rest, rfl⟩)) ⟨Piece.fits_newline (by simp) _, trivial⟩
  have htext : Piece.text header ++ '\n' :: rest =
      Piece.text (header ++ [Piece.newline []]) ++ rest := by
    rw [Piece.text_append, List.append_assoc]
    rfl
  -- The text below the header is made of pieces, since it has no errors either.
  have hscan : (Token.scan (Piece.text header ++ '\n' :: rest)).2 = [] :=
    (List.append_eq_nil_iff.1 herrors).1
  rw [htext, Token.scan, show Token.errorLimit = 19 + 1 from rfl, Token.scanFrom_fit hfit] at hscan
  obtain ⟨ps, tail, rfl, hps, -⟩ := Token.pieces_of_scanFrom (Prod.ext rfl hscan)
  have hpieces : Piece.text header ++ '\n' :: (Piece.text ps ++ tail) =
      Piece.text (header ++ [Piece.newline []] ++ ps) ++ tail := by
    rw [htext, Piece.text_append _ ps, List.append_assoc]
  have hlexed : lexed = _ :=
    congrArg Lexed.ofText hpieces |>.trans (Lexed.ofText_text (hfit.read hps))
  have hheader : Layout.Arranges .start (header ++ [Piece.newline []])
      (header.map Piece.kind ++ [.newline]) .start :=
    (Layout.Arranges.isLine hheader rfl).append Layout.Arranges.lineEnd
  rw [hlexed] at herrors ⊢
  rw [Layout.through_append] at herrors ⊢
  dsimp only at herrors ⊢
  rw [hheader.state] at herrors ⊢
  rw [List.map_append, List.map_append, hheader.kinds]
  rcases Layout.through_block hwidth hps hangs hmargin _ (List.append_eq_nil_iff.1 herrors).2 with
    ⟨htokens, hstate⟩ | ⟨ks, htokens, hlevels, hdepth⟩
  · refine .inl ?_
    rw [htokens, hstate]
    simp [Layout.finish, Layout.State.start, Layout.mark]
  · obtain ⟨ls, hfinish, hends⟩ := Layout.finish_depth hlevels _
    refine .inr ⟨ks ++ ls, ?_, Token.balanced_of_depthAfter ?_⟩
    · rw [htokens, hfinish]
      simp
    · rw [Token.depthAfter_append, hdepth]
      exact hends

end StagedScript
