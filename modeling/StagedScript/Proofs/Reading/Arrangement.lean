import StagedScript.Proofs.Reading.Pieces

/-!
# The layout of pieces

The layout of a text that is made of pieces goes from piece to piece: what it adds in front of a
token depends on what is skipped in front of it, and not on where it stands.
-/

namespace StagedScript

namespace Layout

/-- What pieces that stand from a position on contribute. -/
def through (start : Nat) (s : State) : List Piece → Step
  | [] => ⟨s, [], []⟩
  | p :: ps =>
    let first := start + Text.byteLength p.gap
    let stop := first + Text.byteLength p.chars
    let here := step p.gap ⟨p.kind, ⟨first, stop⟩⟩ s
    let rest := through stop here.state ps
    ⟨rest.state, here.tokens ++ rest.tokens, here.errors ++ rest.errors⟩

theorem through_append (start : Nat) (s : State) (ps qs : List Piece) :
    through start s (ps ++ qs) =
      let one := through start s ps
      let two := through (start + Text.byteLength (Piece.text ps)) one.state qs
      ⟨two.state, one.tokens ++ two.tokens, one.errors ++ two.errors⟩ := by
  induction ps generalizing start s with
  | nil => rfl
  | cons p ps ih => simp [through, ih, Piece.text, Nat.add_assoc]

/-- The layout of a text follows its pieces. -/
theorem resolveFrom_text (start : Nat) (s : State) (ps : List Piece) (tail : List Char) :
    resolveFrom start (Piece.text ps ++ tail) s (Piece.place start ps) =
      let all := through start s ps
      (all.tokens ++ finish (start + Text.byteLength (Piece.text ps ++ tail)) all.state,
        all.errors) := by
  induction ps generalizing start s with
  | nil => rfl
  | cons p ps ih =>
    have htext : Piece.text (p :: ps) ++ tail = p.gap ++ (p.chars ++ (Piece.text ps ++ tail)) := by
      simp [Piece.text]
    have hgap : Text.takeBytes? (Text.byteLength p.gap) (Piece.text (p :: ps) ++ tail) =
        some p.gap := by rw [htext, Text.takeBytes?_byteLength]
    have hrest : Text.dropBytes? (Text.byteLength p.gap + Text.byteLength p.chars)
        (Piece.text (p :: ps) ++ tail) = some (Piece.text ps ++ tail) := by
      rw [htext, ← Text.byteLength_append, ← List.append_assoc, Text.dropBytes?_byteLength]
    have hstart : start + Text.byteLength p.gap - start = Text.byteLength p.gap := by omega
    have hstop : start + Text.byteLength p.gap + Text.byteLength p.chars - start =
        Text.byteLength p.gap + Text.byteLength p.chars := by omega
    rw [Piece.place, resolveFrom]
    dsimp only
    rw [hstart, hstop, hgap, hrest, Option.getD_some, Option.getD_some, ih, through]
    simp [htext, Nat.add_assoc]

theorem getLast?_resolveFrom (start : Nat) (text : List Char) (s : State) (ts : List Token) :
    ∃ stop, (resolveFrom start text s ts).1.getLast? = some (mark .eof stop) := by
  induction ts generalizing start text s with
  | nil => exact ⟨_, List.getLast?_concat⟩
  | cons t ts ih =>
    unfold resolveFrom
    dsimp only
    obtain ⟨stop, hstop⟩ := ih t.span.stop ((Text.dropBytes? (t.span.stop - start) text).getD [])
      (step ((Text.takeBytes? (t.span.start - start) text).getD []) t s).state
    exact ⟨stop, by rw [List.getLast?_append, hstop, Option.some_or]⟩

end Layout

/-- The last token of a text is its end. -/
theorem Lexed.kind_getLast? (text : List Char) (t : Token)
    (h : (Lexed.ofText text).tokens.getLast? = some t) : t.kind = .eof := by
  unfold ofText at h
  obtain ⟨stop, hstop⟩ := Layout.getLast?_resolveFrom 0 text .start (Token.scan text).1
  have heq : some t = some (Layout.mark .eof stop) := h.symm.trans hstop
  cases heq
  rfl

theorem Lexed.tokens_ne_nil (text : List Char) : (Lexed.ofText text).tokens ≠ [] := by
  obtain ⟨stop, hstop⟩ := Layout.getLast?_resolveFrom 0 text .start (Token.scan text).1
  exact List.ne_nil_of_mem (List.mem_of_getLast? hstop)

/-- A text that is made of pieces is read as these. -/
theorem Lexed.ofText_text {ps : List Piece} {tail : List Char} (h : Piece.Read ps tail) :
    Lexed.ofText (Piece.text ps ++ tail) =
      let all := Layout.through 0 .start ps
      ⟨all.tokens ++ Layout.finish (Text.byteLength (Piece.text ps ++ tail)) all.state,
        all.errors⟩ := by
  unfold Lexed.ofText Token.scan
  rw [show Token.errorLimit = 19 + 1 from rfl, Token.scanFrom_text h]
  dsimp only
  rw [Layout.resolve, Layout.resolveFrom_text]
  simp

/-- A text without errors is made of pieces. -/
theorem Lexed.pieces_of_errors {text : List Char} (h : (Lexed.ofText text).errors = []) :
    ∃ ps tail, text = Piece.text ps ++ tail ∧ Piece.Read ps tail := by
  have hscan : (Token.scan text).2 = [] := by
    unfold Lexed.ofText at h
    exact (List.append_eq_nil_iff.1 h).1
  obtain ⟨ps, tail, htext, hps, -⟩ := Token.pieces_of_scanFrom
    (Prod.ext rfl hscan)
  exact ⟨ps, tail, htext, hps⟩

namespace Layout

/-! ## Kinds -/

/-- Wherever they stand, the pieces contribute tokens of these kinds and no errors. -/
structure Arranges (s : State) (ps : List Piece) (kinds : List Token.Kind) (t : State) : Prop where
  state : ∀ start, (through start s ps).state = t
  kinds : ∀ start, (through start s ps).tokens.map Token.kind = kinds
  errors : ∀ start, (through start s ps).errors = []

namespace Arranges

variable {s t u : State} {ps qs : List Piece} {ks ls : List Token.Kind}

theorem nil : Arranges s [] [] s := ⟨fun _ => rfl, fun _ => rfl, fun _ => rfl⟩

theorem append (hps : Arranges s ps ks t) (hqs : Arranges t qs ls u) :
    Arranges s (ps ++ qs) (ks ++ ls) u where
  state start := by
    rw [through_append]
    dsimp only
    rw [hps.state, hqs.state]
  kinds start := by
    rw [through_append]
    dsimp only
    rw [hps.state, List.map_append, hps.kinds, hqs.kinds]
  errors start := by
    rw [through_append]
    dsimp only
    rw [hps.state, hps.errors, hqs.errors, List.nil_append]

theorem one {p : Piece} (h : ∀ span, step p.gap ⟨p.kind, span⟩ s =
    ⟨t, (step p.gap ⟨p.kind, span⟩ s).tokens, []⟩ ∧
    (step p.gap ⟨p.kind, span⟩ s).tokens.map Token.kind = ks) : Arranges s [p] ks t where
  state start := by simp only [through]; rw [(h _).1]
  kinds start := by simp only [through, List.append_nil]; exact (h _).2
  errors start := by simp only [through, List.append_nil]; rw [(h _).1]

theorem cons {p : Piece} (hp : Arranges s [p] ks t) (hps : Arranges t ps ls u) :
    Arranges s (p :: ps) (ks ++ ls) u := append hp hps

end Arranges

/-- The state behind a token that opens or closes a bracket, if it does. -/
def State.after (s : State) : Token.Kind → State
  | .symbol c =>
    if c.opens then { s with brackets := s.brackets + 1 }
    else if c.closes then { s with brackets := s.brackets - 1 }
    else s
  | _ => s

/-- Whether a token closes a bracket. -/
def closes : Token.Kind → Bool
  | .symbol c => c.closes
  | _ => false

theorem bracket_eq (t : Token) (s : State) (h : closes t.kind = true → s.brackets ≠ 0) :
    bracket t s = ⟨s.after t.kind, [t], []⟩ := by
  obtain ⟨kind, span⟩ := t
  cases kind with
  | symbol c =>
    unfold bracket State.after
    dsimp only
    split
    · rfl
    · split
      · next hc =>
        obtain ⟨n, hn⟩ := Nat.exists_eq_succ_of_ne_zero (h hc)
        rw [hn]
        rfl
      · rfl
  | _ => rfl

namespace Arranges

variable {s : State} {p : Piece}

/-- A newline at the start of a line, or within brackets, is dropped. -/
theorem blank (hp : p.kind = .newline) (h : s.brackets ≠ 0 ∨ s.fresh = true) :
    Arranges s [p] [] s := by
  refine one fun span => ?_
  have hnewline : step p.gap ⟨p.kind, span⟩ s = ⟨s, [], []⟩ := by
    rw [hp]
    unfold step newline
    dsimp only
    rw [if_neg]
    rintro hif
    simp at hif
    rcases h with h | h <;> simp_all
  rw [hnewline]
  exact ⟨rfl, rfl⟩

/-- A newline ends a line. -/
theorem line (hp : p.kind = .newline) (hbrackets : s.brackets = 0) (hfresh : s.fresh = false) :
    Arranges s [p] [.newline] { s with fresh := true } := by
  refine one fun span => ?_
  have hnewline : step p.gap ⟨p.kind, span⟩ s =
      ⟨{ s with fresh := true }, [⟨.newline, span⟩], []⟩ := by
    rw [hp]
    unfold step newline
    dsimp only
    rw [if_pos (by simp [hbrackets, hfresh])]
  rw [hnewline]
  exact ⟨rfl, rfl⟩

theorem step_eq (hp : p.kind ≠ .newline) (span : Span) : step p.gap ⟨p.kind, span⟩ s =
    let first := if s.fresh && s.brackets = 0
      then indent (indentation p.gap) span.start s else ⟨s, [], []⟩
    let last := bracket ⟨p.kind, span⟩ first.state
    ⟨last.state, first.tokens ++ last.tokens, first.errors ++ last.errors⟩ := by
  unfold step
  split
  · next h => exact absurd h hp
  · rfl

/-- A token within a line. -/
theorem within (hp : p.kind ≠ .newline) (h : s.brackets ≠ 0 ∨ s.fresh = false)
    (hcloses : closes p.kind = true → s.brackets ≠ 0) :
    Arranges s [p] [p.kind] (s.after p.kind) := by
  refine one fun span => ?_
  have hfirst : ¬ (s.fresh && decide (s.brackets = 0)) = true := by
    rcases h with h | h <;> simp [h]
  rw [step_eq hp, if_neg hfirst]
  dsimp only
  rw [bracket_eq _ _ hcloses]
  exact ⟨rfl, rfl⟩

section First

variable (hp : p.kind ≠ .newline) (hbrackets : s.brackets = 0) (hfresh : s.fresh = true)
  (hcloses : closes p.kind = false)
include hp hbrackets hfresh hcloses

/-- The first token of a line like the one before. -/
theorem first (h : indentation p.gap = s.level) :
    Arranges s [p] [p.kind] ({ s with fresh := false }.after p.kind) := by
  refine one fun span => ?_
  have hlevels : s.levels.takeWhile (s.level < ·) = [] := by
    unfold State.level
    cases s.levels <;> simp
  have hindent : indent (indentation p.gap) span.start s = ⟨{ s with fresh := false }, [], []⟩ := by
    unfold indent
    rw [h, if_neg (Nat.lt_irrefl _)]
    dsimp only
    rw [hlevels]
    simp [State.level]
  rw [step_eq hp, if_pos (by simp [hbrackets, hfresh]), hindent]
  dsimp only
  rw [bracket_eq _ _ (by simp [hcloses])]
  exact ⟨rfl, rfl⟩

/-- The first token of a line that opens a block. -/
theorem deeper (h : s.level < indentation p.gap) :
    Arranges s [p] [.indent, p.kind]
      (State.after ⟨indentation p.gap :: s.levels, s.brackets, false⟩ p.kind) := by
  refine one fun span => ?_
  have hindent : indent (indentation p.gap) span.start s =
      ⟨⟨indentation p.gap :: s.levels, s.brackets, false⟩, [mark .indent span.start], []⟩ := by
    unfold indent
    rw [if_pos h]
  rw [step_eq hp, if_pos (by simp [hbrackets, hfresh]), hindent]
  dsimp only
  rw [bracket_eq _ _ (by simp [hcloses])]
  exact ⟨rfl, rfl⟩

end First

end Arranges

end Layout

/-!
## Pieces that stand elsewhere

Wherever pieces stand, the layout treats them alike: the tokens are those that there are where the
pieces stand at the start of a text, moved on.
-/

/-- The token moved on by `n` bytes. -/
def Token.shift (n : Nat) (t : Token) : Token := ⟨t.kind, t.span.shift n⟩

/-- The error moved on by `n` bytes. -/
def LexError.shift (n : Nat) (e : LexError) : LexError := ⟨e.span.shift n, e.cause⟩

namespace Layout

/-- The step with its tokens and errors moved on by `n` bytes. -/
def Step.shift (n : Nat) (x : Step) : Step :=
  ⟨x.state, x.tokens.map (Token.shift n), x.errors.map (LexError.shift n)⟩

variable (n : Nat) (t : Token) (s : State)

theorem newline_shift : newline (t.shift n) s = (newline t s).shift n := by
  unfold newline
  split <;> rfl

theorem bracket_shift : bracket (t.shift n) s = (bracket t s).shift n := by
  unfold bracket Token.shift
  dsimp only
  split
  · split
    · rfl
    · split
      · split
        · simp [Step.shift, LexError.shift, Span.shift, Token.shift, Nat.add_right_comm]
        · rfl
      · rfl
  · rfl

theorem indent_shift (w position : Nat) :
    indent w (position + n) s = (indent w position s).shift n := by
  unfold indent
  split
  · rfl
  · simp only [Step.shift, List.map_map, Step.mk.injEq, true_and]
    refine ⟨rfl, ?_⟩
    split
    · rfl
    · simp [LexError.shift, Span.shift, Nat.add_right_comm]

theorem step_shift (gap : List Char) : step gap (t.shift n) s = (step gap t s).shift n := by
  unfold step
  rw [show (t.shift n).kind = t.kind from rfl]
  split
  · exact newline_shift n t s
  · simp only [bracket_shift, show (t.shift n).span.start = t.span.start + n from rfl, indent_shift]
    split <;> simp [Step.shift]

/-- The pieces contribute the same from a position further on. -/
theorem through_shift (start : Nat) (ps : List Piece) :
    through (start + n) s ps = (through start s ps).shift n := by
  induction ps generalizing start s with
  | nil => rfl
  | cons p ps ih =>
    have hhere := step_shift n ⟨p.kind, ⟨start + Text.byteLength p.gap,
      start + Text.byteLength p.gap + Text.byteLength p.chars⟩⟩ s p.gap
    have hspan : (⟨p.kind, ⟨start + n + Text.byteLength p.gap,
        start + n + Text.byteLength p.gap + Text.byteLength p.chars⟩⟩ : Token) =
          Token.shift n ⟨p.kind, ⟨start + Text.byteLength p.gap,
            start + Text.byteLength p.gap + Text.byteLength p.chars⟩⟩ := by
      simp [Token.shift, Span.shift, Nat.add_right_comm]
    have hstop : start + n + Text.byteLength p.gap + Text.byteLength p.chars =
        start + Text.byteLength p.gap + Text.byteLength p.chars + n := by omega
    unfold through
    dsimp only
    rw [hspan, hhere, hstop, show (Step.shift n _).state = Step.state _ from rfl, ih]
    simp [Step.shift]

theorem finish_shift (stop : Nat) : finish (stop + n) s = (finish stop s).map (Token.shift n) := by
  unfold finish
  rw [List.map_append, List.map_append, List.map_map]
  split <;> rfl

end Layout

end StagedScript
