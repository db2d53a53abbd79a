import Mathlib.Data.List.TakeWhile
import StagedScript.Proofs.Layout.Marks

/-!
# The layout of every text

The layout is taken from token to token, and what is known of it is kept at each: the blocks that
the marks leave open are those of the state, which are indented ever deeper, and a line starts only
outside of brackets and behind a newline of the text.
-/

namespace StagedScript.Layout

open Token (Kind depthAfter)

/-! ## The state between two tokens -/

/-- The open blocks are indented, the inner ones more. -/
def State.Nested (s : State) : Prop := (s.levels ++ [0]).Pairwise (· > ·)

namespace State.Nested

theorem start : State.start.Nested := List.pairwise_singleton _ _

theorem push {levels : List Nat} {brackets : Nat} {fresh : Bool}
    (h : Nested ⟨levels, brackets, fresh⟩) {w : Nat} (hw : levels.headD 0 < w) :
    Nested ⟨w :: levels, brackets, fresh⟩ := by
  refine List.Pairwise.cons (fun level hlevel => ?_) h
  cases levels with
  | nil =>
    obtain rfl : level = 0 := by simpa using hlevel
    exact hw
  | cons top levels =>
    rcases List.mem_cons.1 hlevel with rfl | hlevel
    · exact hw
    · exact Nat.lt_trans (List.rel_of_pairwise_cons h hlevel) hw

end State.Nested

theorem headD_mem (levels : List Nat) : levels.headD 0 ∈ levels ++ [0] := by
  cases levels <;> simp

/-- A line that is indented no less than the innermost block is indented like an open block only if
it is like that one. -/
theorem mem_levels_iff {levels : List Nat} (h : (levels ++ [0]).Pairwise (· > ·)) {w : Nat}
    (hw : levels.headD 0 ≤ w) : w ∈ levels ++ [0] ↔ w = levels.headD 0 := by
  refine ⟨fun hmem => ?_, fun heq => heq ▸ headD_mem levels⟩
  cases levels with
  | nil => simpa using hmem
  | cons top levels =>
    rcases List.mem_cons.1 hmem with rfl | hmem
    · rfl
    · exact absurd (List.rel_of_pairwise_cons h hmem) (Nat.not_lt.2 hw)

/-! ## The first token of a line -/

/-- Where blocks are closed until none is indented more than `w`, the line fits if the block that is
left is indented by `w`. -/
theorem misfits_iff {closed levels : List Nat} (h : (closed ++ levels ++ [0]).Pairwise (· > ·))
    {w : Nat} (hw : w ≤ (closed ++ levels).headD 0) (hclosed : ∀ level ∈ closed, w < level)
    (hlevels : levels.headD 0 ≤ w) :
    misfits w (closed ++ levels) = true ↔ w ≠ levels.headD 0 := by
  have hmem : w ∈ closed ++ levels ++ [0] ↔ w = levels.headD 0 := by
    rw [List.append_assoc] at h ⊢
    rw [← mem_levels_iff (List.pairwise_append.1 h).2.1 hlevels, List.mem_append]
    exact ⟨fun hw' => hw'.resolve_left fun hw'' => Nat.lt_irrefl w (hclosed w hw''), .inr⟩
  rw [misfits, Bool.and_eq_true, decide_eq_true_eq, Bool.not_eq_true', List.contains_eq_mem,
    decide_eq_false_iff_not, hmem]
  refine ⟨And.right, fun hne => ⟨Nat.lt_of_le_of_ne hw ?_, hne⟩⟩
  exact fun heq => hne (hmem.1 (heq ▸ headD_mem _))

/-- Of blocks that are indented ever deeper, those that are indented more than `w` are the innermost
ones. -/
theorem levels_eq_append {levels : List Nat} (h : (levels ++ [0]).Pairwise (· > ·)) (w : Nat) :
    levels.takeWhile (w < ·) = levels.filter (w < ·) ∧
      levels = levels.filter (w < ·) ++ levels.filter (· ≤ w) := by
  induction levels with
  | nil => exact ⟨rfl, rfl⟩
  | cons level levels ih =>
    obtain ⟨htake, hsplit⟩ := ih h.of_cons
    by_cases hw : w < level
    · have hle : ¬ level ≤ w := Nat.not_le.2 hw
      rw [List.takeWhile_cons_of_pos (by simpa using hw),
        List.filter_cons_of_pos (by simpa using hw), List.filter_cons_of_neg (by simpa using hle),
        htake, List.cons_append, ← hsplit]
      exact ⟨rfl, rfl⟩
    · have hle : level ≤ w := Nat.not_lt.1 hw
      have hall : ∀ l ∈ level :: levels, l ≤ w := List.forall_mem_cons.2 ⟨hle, fun l hl =>
        Nat.le_trans (Nat.le_of_lt (List.rel_of_pairwise_cons h (List.mem_append_left _ hl))) hle⟩
      have hnone : (level :: levels).filter (w < ·) = [] :=
        List.filter_eq_nil_iff.2 fun l hl => by simpa using hall l hl
      have hkept : (level :: levels).filter (· ≤ w) = level :: levels :=
        List.filter_eq_self.2 fun l hl => by simpa using hall l hl
      rw [List.takeWhile_cons_of_neg (by simpa using hw), hnone, hkept]
      exact ⟨rfl, rfl⟩

/-- The first token of a line opens a block, or closes those that are indented more. -/
theorem indent_eq (w position : Nat) {s : State} (hs : s.Nested) : indent w position s =
    ⟨⟨levelsBehind w s.levels, s.brackets, false⟩, marksBefore w position s.levels,
      lineErrors w position s.levels⟩ := by
  unfold indent levelsBehind marksBefore lineErrors State.level
  by_cases hw : s.levels.headD 0 < w
  · have hfits : misfits w s.levels = false := by
      simp only [misfits, Bool.and_eq_false_iff, decide_eq_false_iff_not]
      omega
    rw [if_pos hw, if_pos hw, if_pos hw, hfits]
    rfl
  · obtain ⟨htake, hsplit⟩ := levels_eq_append hs w
    have hdrop : s.levels.drop (s.levels.filter (w < ·)).length = s.levels.filter (· ≤ w) := by
      conv_lhs => rw [hsplit]
      simp
    have hmisfits : misfits w s.levels = true ↔ w ≠ (s.levels.filter (· ≤ w)).headD 0 := by
      conv_lhs => rw [hsplit]
      refine misfits_iff (hsplit ▸ hs) (hsplit ▸ Nat.not_lt.1 hw) (fun level hlevel => ?_) ?_
      · simpa using (List.mem_filter.1 hlevel).2
      · cases hhead : s.levels.filter (· ≤ w) with
        | nil => exact Nat.zero_le w
        | cons top rest =>
          have htop : top ∈ s.levels.filter (· ≤ w) := hhead ▸ List.mem_cons_self
          simpa using (List.mem_filter.1 htop).2
    rw [if_neg hw, if_neg hw, if_neg hw, htake]
    dsimp only
    rw [hdrop]
    simp only [hmisfits, ne_eq, ite_not]
    rfl

/-- There is a mark for the block that a line opens, or there is one for each block that it
closes. -/
theorem marks_cases {levels : List Nat} (h : (levels ++ [0]).Pairwise (· > ·)) (w position : Nat) :
    (levels.headD 0 < w ∧ marksBefore w position levels = [mark .indent position] ∧
      levelsBehind w levels = w :: levels) ∨
    ∃ closed kept, levels = closed ++ kept ∧ levelsBehind w levels = kept ∧
      marksBefore w position levels = closed.map fun _ => mark .dedent position := by
  unfold marksBefore levelsBehind
  by_cases hw : levels.headD 0 < w
  · exact .inl ⟨hw, if_pos hw, if_pos hw⟩
  · exact .inr ⟨_, _, (levels_eq_append h w).2, if_neg hw, if_neg hw⟩

/-- What stands on a line in front of a gap is not there if the line starts in front of it. -/
theorem column_append {done gap : List Char} (hdone : lineHead done = []) (rest : List Char) :
    column (done ++ gap ++ rest) (Text.byteLength (done ++ gap)) = indentation gap := by
  have hhead : lineHead (done ++ gap) = lineHead gap := by
    unfold lineHead at hdone ⊢
    rw [List.reverse_append, List.takeWhile_append, List.reverse_eq_nil_iff.1 hdone]
    split
    · next hall => rw [List.append_nil, (List.takeWhile_prefix _).eq_of_length hall]
    · rfl
  rw [column, Text.takeBytes?_byteLength, Option.getD_some, indentation, hhead, indentation]

/-- Marks that close blocks stand behind the start of a line, or behind each other. -/
theorem dedents_adjacent (closed : List Nat) (position : Nat) {k : Kind}
    (hk : k = .newline ∨ k = .dedent) :
    (k :: (closed.map fun _ => mark .dedent position).map Token.kind).IsChain Adjacent := by
  induction closed generalizing k with
  | nil => exact .singleton _
  | cons level closed ih => exact .cons_cons (adjacent_dedent hk) (ih (.inr rfl))

/-! ## From state to state -/

/-- The state may be behind a token of this kind. -/
def State.Behind (s : State) (k : Kind) : Prop := if s.fresh then k = .newline else k.Inner

/-- What the layout does between two states: the tokens `raw` become `out`. -/
structure Passes (s : State) (raw out : List Token) (t : State) : Prop where
  depth : depthAfter s.levels.length (out.map Token.kind) = some t.levels.length
  adjacent : ∀ k, s.Behind k → (k :: out.map Token.kind).IsChain Adjacent ∧
    ∀ j ∈ (k :: out.map Token.kind).getLast?, t.Behind j
  eof : ∀ t ∈ out, t.kind ≠ .eof
  words : out.filter isInner = raw.filter (!·.kind.alike .newline)

namespace Passes

variable {s t u : State} {raw raw' out out' : List Token}

theorem nil (s : State) : Passes s [] [] s where
  depth := rfl
  adjacent k hk := ⟨.singleton _, by simpa using hk⟩
  eof := by simp
  words := rfl

theorem append (h : Passes s raw out t) (h' : Passes t raw' out' u) :
    Passes s (raw ++ raw') (out ++ out') u where
  depth := by rw [List.map_append, Token.depthAfter_append, h.depth, Option.bind_some, h'.depth]
  adjacent k hk := by
    obtain ⟨hchain, hlast⟩ := h.adjacent k hk
    obtain ⟨j, hj⟩ : ∃ j, (k :: out.map Token.kind).getLast? = some j :=
      ⟨_, List.getLast?_eq_some_getLast (by simp)⟩
    obtain ⟨hchain', hlast'⟩ := h'.adjacent j (hlast j hj)
    rw [List.map_append, ← List.cons_append]
    refine ⟨List.isChain_append.2 ⟨hchain, hchain'.tail, fun x hx y hy => ?_⟩, ?_⟩
    · obtain rfl : j = x := Option.some_inj.1 (hj.symm.trans hx)
      exact (List.isChain_cons.1 hchain').1 y hy
    · intro x hx
      refine hlast' x ?_
      rw [List.getLast?_append, hj] at hx
      cases hout : out'.map Token.kind <;> simpa [hout, List.getLast?_cons] using hx
  eof x hx := (List.mem_append.1 hx).elim (h.eof x) (h'.eof x)
  words := by rw [List.filter_append, List.filter_append, h.words, h'.words]

end Passes

/-! ## The tokens of a line -/

section Token

variable {text : List Char} {s : State} {t : Token}

theorem unindents_bracket (t : Token) (s : State) : unindents (bracket t s).errors = [] := by
  unfold bracket
  split
  · split
    · rfl
    · split
      · split <;> rfl
      · rfl
  · rfl

theorem filter_isInner_mark (closed : List Nat) (position : Nat) :
    (closed.map fun _ => mark .dedent position).filter isInner = [] := by
  rw [List.filter_eq_nil_iff]
  intro t ht
  obtain ⟨-, -, rfl⟩ := List.mem_map.1 ht
  simp [isInner, mark]

/-- A token within a line is kept as it is. -/
theorem bracket_passes (ht : t.kind.Inner) (hs : s.fresh = false) :
    Passes s [t] (bracket t s).tokens (bracket t s).state := by
  obtain ⟨htokens, hlevels, hfresh⟩ := bracket_tokens t s
  rw [htokens]
  refine ⟨?_, fun k hk => ?_, ?_, ?_⟩
  · rw [hlevels]
    exact Token.Balanced.flat ht.1 _
  · refine ⟨.cons_cons (adjacent_inner k ht) (.singleton _), fun j hj => ?_⟩
    obtain rfl : t.kind = j := by simpa using hj
    simpa [State.Behind, hfresh, hs] using ht
  · simpa using ht.2.2
  · have hnewline : ¬ t.kind.alike .newline = true := fun h =>
      ht.2.1 ((Kind.alike_iff (by trivial)).1 h)
    simp [isInner_of_inner ht, hnewline]

section Marks

variable {levels : List Nat} (h : (levels ++ [0]).Pairwise (· > ·)) (w position : Nat)
include h

theorem marks_depthAfter :
    depthAfter levels.length ((marksBefore w position levels).map Token.kind) =
    some (levelsBehind w levels).length := by
  obtain ⟨-, hmarks, hbehind⟩ | ⟨closed, kept, hsplit, hbehind, hmarks⟩ := marks_cases h w position
  · rw [hmarks, hbehind]
    simp [mark, depthAfter]
  · rw [hmarks, hbehind, hsplit, List.length_append, List.map_map]
    exact depthAfter_dedents closed _ position

/-- The blocks that a line opens and closes are marked at its start. -/
theorem marks_adjacent :
    (Kind.newline :: (marksBefore w position levels).map Token.kind).IsChain Adjacent := by
  obtain ⟨-, hmarks, -⟩ | ⟨closed, kept, -, -, hmarks⟩ := marks_cases h w position
  · rw [hmarks]
    exact .cons_cons adjacent_indent (.singleton _)
  · rw [hmarks]
    exact dedents_adjacent closed position (.inl rfl)

theorem marks_isInner : (marksBefore w position levels).filter isInner = [] ∧
    ∀ t ∈ marksBefore w position levels, t.kind ≠ .eof := by
  obtain ⟨-, hmarks, -⟩ | ⟨closed, kept, -, -, hmarks⟩ := marks_cases h w position
  · rw [hmarks]
    exact ⟨rfl, by simp [mark]⟩
  · rw [hmarks]
    exact ⟨filter_isInner_mark closed position, by simp [mark]⟩

/-- The blocks that are open behind the start of a line are indented ever deeper. -/
theorem nested_levelsBehind : (levelsBehind w levels ++ [0]).Pairwise (· > ·) := by
  obtain ⟨hw, -, hbehind⟩ | ⟨closed, kept, hsplit, hbehind, -⟩ := marks_cases h w 0
  · rw [hbehind]
    have hnested : State.Nested ⟨levels, 0, false⟩ := h
    exact hnested.push hw
  · rw [hsplit, List.append_assoc] at h
    rw [hbehind]
    exact (List.pairwise_append.1 h).2.1

end Marks

/-- The first token of a line, with the marks in front of it. -/
theorem first_passes (w : Nat) (hs : s.Nested) (hfresh : s.fresh = true) (ht : t.kind.Inner) :
    let first := indent w t.span.start s
    let last := bracket t first.state
    Passes s [t] (first.tokens ++ last.tokens) last.state := by
  intro first last
  obtain ⟨htokens, hlevels, hfresh'⟩ := bracket_tokens t first.state
  have hfirst : first = _ := indent_eq w t.span.start hs
  obtain ⟨hinner, heof⟩ := marks_isInner hs w t.span.start
  have hlast : last.state.fresh = false := hfresh'.trans (indent_fresh w t.span.start s)
  have hnewline : ¬ t.kind.alike .newline = true := fun h =>
    ht.2.1 ((Kind.alike_iff (by trivial)).1 h)
  rw [htokens]
  refine ⟨?_, fun k hk => ?_, fun x hx => ?_, ?_⟩
  · rw [hlevels, hfirst, List.map_append, Token.depthAfter_append, marks_depthAfter hs]
    exact Token.Balanced.flat ht.1 _
  · have hk : k = .newline := by simpa [State.Behind, hfresh] using hk
    rw [hk, hfirst, List.map_append, ← List.cons_append]
    refine ⟨List.isChain_append.2 ⟨marks_adjacent hs w t.span.start, .singleton _, ?_⟩, ?_⟩
    · intro x _ y hy
      obtain rfl : t.kind = y := by simpa using hy
      exact adjacent_inner x ht
    · intro j hj
      obtain rfl : t.kind = j := Option.some_inj.1 (List.getLast?_concat.symm.trans hj)
      simpa [State.Behind, hlast] using ht
  · rw [hfirst] at hx
    rcases List.mem_append.1 hx with hx | hx
    · exact heof x hx
    · obtain rfl := List.mem_singleton.1 hx
      exact ht.2.2
  · rw [hfirst, List.filter_append, hinner]
    simp [isInner_of_inner ht, hnewline]

/-- A newline ends a line. -/
theorem line_passes (ht : t.kind = .newline) (hfresh : s.fresh = false) {raw : List Token}
    (hraw : raw.filter (!·.kind.alike .newline) = []) (n : Nat) :
    Passes s raw [t] ⟨s.levels, n, true⟩ where
  depth := by
    rw [List.map_singleton, ht]
    exact Token.Balanced.flat (by simp [Token.Kind.Flat]) _
  adjacent k hk := by
    have hk : k.Inner := by simpa [State.Behind, hfresh] using hk
    rw [List.map_singleton, ht]
    refine ⟨.cons_cons (adjacent_newline hk.2.1) (.singleton _), fun j hj => ?_⟩
    obtain rfl : Kind.newline = j := by simpa using hj
    simp [State.Behind]
  eof := by simp [ht]
  words := by
    rw [hraw]
    simp [isInner, ht]

/-- A newline of the text ends a line, or is dropped. -/
theorem newline_passes (ht : t.kind = .newline) :
    Passes s [t] (newline t s).tokens (newline t s).state := by
  have hraw : [t].filter (!·.kind.alike .newline) = [] := by simp [ht, Kind.alike]
  unfold newline
  split
  · next h =>
    obtain ⟨-, hfresh⟩ : s.brackets = 0 ∧ s.fresh = false := by simpa using h
    exact line_passes ht hfresh hraw s.brackets
  · refine ⟨rfl, fun k hk => ⟨.singleton _, by simpa using hk⟩, by simp, ?_⟩
    rw [hraw]
    rfl

end Token

/-! ## The whole text -/

/-- What is known of a state behind the characters `done`. A line starts outside of brackets, and
with nothing in front of it. -/
structure State.Sound (s : State) (done : List Char) : Prop where
  nested : s.Nested
  brackets : s.fresh = true → s.brackets = 0
  head : s.fresh = true → lineHead done = []

theorem State.Sound.start : State.start.Sound [] := ⟨.start, fun _ => rfl, fun _ => rfl⟩

theorem indent_nested (w position : Nat) {s : State} (hs : s.Nested) :
    (indent w position s).state.Nested := by
  rw [indent_eq w position hs]
  exact nested_levelsBehind hs w

theorem lineHead_newline (cs : List Char) : lineHead (cs ++ ['\n']) = [] := by
  simp [lineHead]

/-- Where a token stands first on its line, the text in front of it has its indentation. -/
theorem State.Sound.column {done rest gap : List Char} {s : State} (hs : s.Sound done)
    (hfresh : s.fresh = true) {text : List Char} (htext : text = done ++ gap ++ rest)
    {position : Nat} (hposition : position = Text.byteLength (done ++ gap)) :
    Layout.column text position = indentation gap := by
  rw [htext, hposition]
  exact column_append (hs.head hfresh) _

/-- What a token becomes wherever it stands. -/
theorem step_passes {done : List Char} {s : State} (hs : s.Sound done) {p : Piece} (hp : p.Solid)
    (span : Span) :
    let here := step p.gap ⟨p.kind, span⟩ s
    Passes s [⟨p.kind, span⟩] here.tokens here.state := by
  rcases hp with hinner | ⟨hkind, -⟩
  · rw [Arranges.step_eq hinner.2.1]
    by_cases hfresh : s.fresh = true
    · rw [if_pos (by simp [hfresh, hs.brackets hfresh])]
      exact first_passes _ hs.nested hfresh hinner
    · rw [if_neg (by simp [hfresh])]
      exact bracket_passes hinner (by simpa using hfresh)
  · have hstep : step p.gap ⟨p.kind, span⟩ s = newline ⟨p.kind, span⟩ s := by
      unfold step
      rw [hkind]
    rw [hstep]
    exact newline_passes hkind

/-- What is known behind a token. -/
theorem State.Sound.step {done : List Char} {s : State} (hs : s.Sound done) {p : Piece}
    (hp : p.Solid) (span : Span) :
    (step p.gap ⟨p.kind, span⟩ s).state.Sound (done ++ p.gap ++ p.chars) := by
  rcases hp with hinner | ⟨hkind, cs, hchars⟩
  · rw [Arranges.step_eq hinner.2.1]
    by_cases hfresh : s.fresh = true
    · rw [if_pos (by simp [hfresh, hs.brackets hfresh])]
      obtain ⟨-, hlevels, hfresh'⟩ :=
        bracket_tokens ⟨p.kind, span⟩ (indent (indentation p.gap) span.start s).state
      have hlast := hfresh'.trans (indent_fresh (indentation p.gap) span.start s)
      refine ⟨?_, fun h => absurd h (by simp [hlast]), fun h => absurd h (by simp [hlast])⟩
      unfold State.Nested
      rw [hlevels]
      exact indent_nested _ _ hs.nested
    · rw [if_neg (by simp [hfresh])]
      obtain ⟨-, hlevels, hfresh'⟩ := bracket_tokens ⟨p.kind, span⟩ s
      refine ⟨?_, fun h => absurd (hfresh'.symm.trans h) hfresh,
        fun h => absurd (hfresh'.symm.trans h) hfresh⟩
      unfold State.Nested
      rw [hlevels]
      exact hs.nested
  · have hstep : Layout.step p.gap ⟨p.kind, span⟩ s = newline ⟨p.kind, span⟩ s := by
      unfold Layout.step
      rw [hkind]
    have hhead : lineHead (done ++ p.gap ++ p.chars) = [] := by
      rw [hchars, ← List.append_assoc]
      exact lineHead_newline _
    rw [hstep]
    unfold newline
    split
    · next h =>
      have hbrackets : s.brackets = 0 ∧ s.fresh = false := by simpa using h
      exact ⟨hs.nested, fun _ => hbrackets.1, fun _ => hhead⟩
    · exact ⟨hs.nested, hs.brackets, fun _ => hhead⟩

/-- What the tokens of a text become, from a state on. -/
theorem through_passes {ps : List Piece} (hps : ∀ p ∈ ps, p.Solid) {done : List Char} {s : State}
    (hs : s.Sound done) :
    let all := through (Text.byteLength done) s ps
    Passes s (Piece.place (Text.byteLength done) ps) all.tokens all.state := by
  induction ps generalizing done s with
  | nil => exact .nil s
  | cons p ps ih =>
    obtain ⟨hp, hps⟩ := List.forall_mem_cons.1 hps
    have hrest := ih hps (hs.step hp ⟨Text.byteLength done + Text.byteLength p.gap,
      Text.byteLength done + Text.byteLength p.gap + Text.byteLength p.chars⟩)
    rw [Text.byteLength_append, Text.byteLength_append] at hrest
    exact (step_passes hs hp _).append hrest

theorem closing_depthAfter (levels : List Nat) (stop : Nat) :
    depthAfter levels.length ((closing levels stop).map Token.kind) = some 0 := by
  have hdedents : depthAfter levels.length
      ((levels.map fun _ => mark .dedent stop).map Token.kind) = some 0 := by
    rw [List.map_map]
    exact depthAfter_dedents levels 0 stop
  rw [closing, List.map_append, Token.depthAfter_append, hdedents]
  rfl

theorem closing_adjacent (levels : List Nat) (stop : Nat) :
    (Kind.newline :: (closing levels stop).map Token.kind).IsChain Adjacent := by
  rw [closing, List.map_append, ← List.cons_append]
  refine List.isChain_append.2 ⟨dedents_adjacent levels stop (.inl rfl), .singleton _, ?_⟩
  intro x _ y hy
  obtain rfl : Kind.eof = y := by simpa [mark] using hy
  exact adjacent_eof x

theorem closing_isInner (levels : List Nat) (stop : Nat) :
    (closing levels stop).filter isInner = [] := by
  rw [closing, List.filter_append, filter_isInner_mark]
  rfl

/-- The end of a text closes all blocks that are open. -/
theorem Passes.closed {raw out : List Token} {s : State} (h : Passes .start raw out s)
    (hfresh : s.fresh = true) (stop : Nat) : Framed raw (out ++ closing s.levels stop) := by
  obtain ⟨hchain, hlast⟩ := h.adjacent .newline rfl
  have hdepth : depthAfter 0 ((out ++ closing s.levels stop).map Token.kind) = some 0 := by
    have hout : depthAfter 0 (out.map Token.kind) = some s.levels.length := h.depth
    rw [List.map_append, Token.depthAfter_append, hout, Option.bind_some, closing_depthAfter]
  refine ⟨⟨out ++ _, _, (List.append_assoc ..).symm, rfl, fun t ht => ?_⟩,
    fun _ => nested_of_depthAfter hdepth, ?_, fun t ht hkind => ?_, ?_, ?_⟩
  · rcases List.mem_append.1 ht with ht | ht
    · exact h.eof t ht
    · obtain ⟨-, -, rfl⟩ := List.mem_map.1 ht
      simp [mark]
  · simpa using (countP_of_depthAfter hdepth).symm
  · -- Nothing is open in front of the first token.
    obtain ⟨ts, hts⟩ := List.head?_eq_some_iff.1 ht
    have hfirst : [t].countP (·.kind.alike .dedent) ≤ [t].countP (·.kind.alike .indent) :=
      nested_of_depthAfter hdepth ⟨ts, hts.symm⟩
    simp [hkind, Kind.alike] at hfirst
  · rw [List.map_append]
    refine List.isChain_append.2 ⟨hchain.tail, (closing_adjacent s.levels stop).tail, ?_⟩
    intro x hx y hy
    have hbehind : s.Behind x := hlast x (by rw [List.getLast?_cons, hx]; rfl)
    obtain rfl : x = .newline := by simpa [State.Behind, hfresh] using hbehind
    exact (List.isChain_cons.1 (closing_adjacent s.levels stop)).1 y hy
  · rw [List.filter_append, h.words, closing_isInner, List.append_nil]

/-- The layout of a text passes over its tokens, the last line included, and closes the blocks that
are open then. -/
theorem resolve_framed (text : List Char) :
    Framed (Token.scan text).1 (resolve text (Token.scan text).1).1 := by
  obtain ⟨ps, tail, htext, hraw, hps⟩ := Token.pieces_of_scan 0 Token.errorLimit text
  have hraw : (Token.scan text).1 = Piece.place 0 ps := hraw
  have hpasses : Passes .start (Piece.place 0 ps) (through 0 .start ps).tokens
      (through 0 .start ps).state := through_passes hps .start
  have hresolve : (resolve text (Piece.place 0 ps)).1 = (through 0 .start ps).tokens ++
      finish (0 + Text.byteLength text) (through 0 .start ps).state := by
    rw [resolve, htext, resolveFrom_text]
  rw [hraw, hresolve, finish, List.append_assoc]
  cases hfresh : (through 0 .start ps).state.fresh with
  | true => exact hpasses.closed hfresh _
  | false =>
    have hline : Passes (through 0 .start ps).state [] [mark .newline (0 + Text.byteLength text)]
        ⟨(through 0 .start ps).state.levels, 0, true⟩ := line_passes rfl hfresh rfl 0
    have hall := (hpasses.append hline).closed rfl (0 + Text.byteLength text)
    rwa [List.append_nil, List.append_assoc] at hall

/-- The tokens of a text that are no marks of its layout are those that it is scanned as. -/
theorem filter_isInner_ofText (text : List Char) : (Lexed.ofText text).tokens.filter isInner =
    (Token.scan text).1.filter (!·.kind.alike .newline) :=
  (resolve_framed text).words

/-! ## Line by line -/

/-- What has been written of a line, behind the marks in front of it. -/
def begun (text : List Char) (levels : List Nat) : List Token → List Token
  | [] => []
  | first :: more =>
    marksBefore (column text first.span.start) first.span.start levels ++ first :: more

/-- What has been found wrong with a line. -/
def begunErrors (text : List Char) (levels : List Nat) : List Token → List LexError
  | [] => []
  | first :: _ => lineErrors (column text first.span.start) first.span.start levels

/-- The blocks that are open within a line. -/
def begunLevels (text : List Char) (levels : List Nat) : List Token → List Nat
  | [] => levels
  | first :: _ => levelsBehind (column text first.span.start) levels

/-- The state stands behind the tokens `line` of a line, in front of which the blocks `levels` are
open. -/
structure State.Amid (s : State) (text : List Char) (levels : List Nat) (line : List Token) :
    Prop where
  levels : s.levels = begunLevels text levels line
  fresh : s.fresh = line.isEmpty

theorem bracket_brackets (t : Token) (s : State) :
    (bracket t s).state.brackets = bracketsAfter s.brackets t := by
  obtain ⟨kind, span⟩ := t
  cases kind with
  | symbol c =>
    simp only [bracket, bracketsAfter]
    split
    · rfl
    · split
      · cases hbrackets : s.brackets <;> simp [hbrackets]
      · rfl
  | _ => rfl

theorem linesFrom_inner {t : Token} (ht : t.kind.Inner) (line : List Token) (n : Nat)
    (ts : List Token) :
    linesFrom line n (t :: ts) = linesFrom (line ++ [t]) (bracketsAfter n t) ts := by
  rw [linesFrom]
  split
  · next hkind => exact absurd hkind ht.2.1
  · rfl

theorem linesFrom_newline {t : Token} (ht : t.kind = .newline) (line : List Token) (n : Nat)
    (ts : List Token) : linesFrom line n (t :: ts) =
      if n = 0 then endLine line (some t) ++ linesFrom [] 0 ts else linesFrom line n ts := by
  rw [linesFrom, ht]

section

variable {text : List Char} {levels : List Nat} {line : List Token}

/-- A line that ends is laid out as it has been written, and its newline behind it. -/
theorem laidOut_endLine (text : List Char) (levels : List Nat) (line : List Token)
    (stop? : Option Token) (ls : List LogicalLine) :
    laidOut text levels (endLine line stop? ++ ls) = begun text levels line ++
      ((if line.isEmpty then [] else [stop?.getD (mark .newline (Text.byteLength text))]) ++
        laidOut text (begunLevels text levels line) ls) ∧
    unindentErrors text levels (endLine line stop? ++ ls) = begunErrors text levels line ++
      unindentErrors text (begunLevels text levels line) ls := by
  cases line with
  | nil => exact ⟨rfl, rfl⟩
  | cons first more =>
    refine ⟨?_, rfl⟩
    simp only [endLine, laidOut, begun, List.append_assoc, List.cons_append]
    rfl

/-- A further token on a line. -/
theorem begun_concat (text : List Char) (levels : List Nat) (hline : line ≠ []) (t : Token) :
    begun text levels (line ++ [t]) = begun text levels line ++ [t] ∧
      begunErrors text levels (line ++ [t]) = begunErrors text levels line ∧
      begunLevels text levels (line ++ [t]) = begunLevels text levels line := by
  obtain ⟨first, more, rfl⟩ := List.exists_cons_of_ne_nil hline
  refine ⟨?_, rfl, rfl⟩
  simp only [List.cons_append, begun, List.append_assoc]

/-- With one more token, what is laid out is `front`, which is complete, and the line that has been
begun behind it. -/
theorem step_laidOut {done rest : List Char} {s : State} (hs : s.Sound done) {p : Piece}
    (hp : p.Solid) (htext : text = done ++ p.gap ++ (p.chars ++ rest)) (span : Span)
    (hspan : span.start = Text.byteLength (done ++ p.gap)) (hline : s.Amid text levels line)
    (ts : List Token) :
    let here := step p.gap ⟨p.kind, span⟩ s
    ∃ levels' line' front errors, here.state.Amid text levels' line' ∧
      laidOut text levels (linesFrom line s.brackets (⟨p.kind, span⟩ :: ts)) =
        front ++ laidOut text levels' (linesFrom line' here.state.brackets ts) ∧
      begun text levels line ++ here.tokens = front ++ begun text levels' line' ∧
      unindentErrors text levels (linesFrom line s.brackets (⟨p.kind, span⟩ :: ts)) =
        errors ++ unindentErrors text levels' (linesFrom line' here.state.brackets ts) ∧
      begunErrors text levels line ++ unindents here.errors =
        errors ++ begunErrors text levels' line' := by
  obtain ⟨hlevels, hempty⟩ := hline
  rcases hp with hinner | ⟨hkind, -⟩
  · rw [Arranges.step_eq hinner.2.1, linesFrom_inner hinner]
    by_cases hfresh : s.fresh = true
    · -- The token is the first one of its line.
      have hcolumn : column text span.start = indentation p.gap := hs.column hfresh htext hspan
      obtain rfl : line = [] := List.isEmpty_iff.1 (hempty ▸ hfresh)
      have hlevels : s.levels = levels := hlevels
      rw [if_pos (by simp [hfresh, hs.brackets hfresh]), indent_eq _ _ hs.nested]
      dsimp only
      obtain ⟨htokens, hlevels', hfresh'⟩ := bracket_tokens ⟨p.kind, span⟩
        ⟨levelsBehind (indentation p.gap) s.levels, s.brackets, false⟩
      refine ⟨levels, [⟨p.kind, span⟩], [], [], ⟨?_, hfresh'⟩, ?_, ?_, ?_, ?_⟩
      · rw [hlevels', begunLevels, hcolumn, hlevels]
      · rw [bracket_brackets]
        rfl
      · rw [htokens, hlevels]
        simp only [begun, hcolumn, List.nil_append]
      · rw [bracket_brackets]
        rfl
      · have hown : unindents (lineErrors (indentation p.gap) span.start levels) =
            lineErrors (indentation p.gap) span.start levels := by
          unfold lineErrors
          split <;> rfl
        rw [unindents, List.filter_append, ← unindents, ← unindents, unindents_bracket,
          List.append_nil, hlevels, hown]
        simp only [begunErrors, hcolumn, List.nil_append]
    · rw [if_neg (by simp [hfresh])]
      dsimp only
      have hsome : line ≠ [] := by
        rintro rfl
        exact hfresh hempty
      obtain ⟨hbegun, herrors, hbehind⟩ := begun_concat text levels hsome
        ⟨p.kind, span⟩
      obtain ⟨htokens, hlevels', hfresh'⟩ := bracket_tokens ⟨p.kind, span⟩ s
      refine ⟨levels, line ++ [⟨p.kind, span⟩], [], [], ⟨?_, ?_⟩, ?_, ?_, ?_, ?_⟩
      · rw [hlevels', hbehind, hlevels]
      · rw [hfresh', Bool.eq_false_iff.2 hfresh]
        simp
      · rw [bracket_brackets]
        rfl
      · rw [List.nil_append, htokens, List.nil_append, hbegun]
      · rw [bracket_brackets]
        rfl
      · rw [List.nil_append, unindents_bracket, List.append_nil, List.nil_append, herrors]
  · have hstep : step p.gap ⟨p.kind, span⟩ s = newline ⟨p.kind, span⟩ s := by
      unfold step
      rw [hkind]
    rw [hstep, linesFrom_newline (t := ⟨p.kind, span⟩) hkind, newline]
    by_cases hbrackets : s.brackets = 0
    · obtain ⟨hlaid, hwrong⟩ := laidOut_endLine text levels line
        (some ⟨p.kind, span⟩) (linesFrom [] 0 ts)
      rw [if_pos hbrackets, hlaid, hwrong]
      by_cases hfresh : s.fresh = true
      · -- The line is blank.
        obtain rfl : line = [] := List.isEmpty_iff.1 (hempty ▸ hfresh)
        rw [if_neg (by simp [hfresh])]
        exact ⟨levels, [], [], [], ⟨hlevels, hempty⟩, by rw [hbrackets]; rfl, rfl,
          by rw [hbrackets]; rfl, rfl⟩
      · have hsome : line.isEmpty = false := hempty ▸ Bool.eq_false_iff.2 hfresh
        rw [if_pos (by simp [hbrackets, hfresh]), hsome]
        dsimp only
        refine ⟨begunLevels text levels line, [], begun text levels line ++ [⟨p.kind, span⟩],
          begunErrors text levels line, ⟨hlevels, rfl⟩, ?_, ?_, by rw [hbrackets], rfl⟩
        · rw [hbrackets, List.append_assoc]
          rfl
        · rw [begun, List.append_nil]
    · -- Within brackets a newline is dropped.
      rw [if_neg hbrackets, if_neg (by simp [hbrackets])]
      exact ⟨levels, line, [], [], ⟨hlevels, hempty⟩, rfl, by simp, rfl, by simp [unindents]⟩

/-- From any state on, the tokens of a text become its lines as they are laid out. -/
theorem through_laidOut {tail : List Char} {ps : List Piece} (hps : ∀ p ∈ ps, p.Solid)
    {done : List Char} {s : State} (hs : s.Sound done)
    (htext : text = done ++ (Piece.text ps ++ tail)) (hline : s.Amid text levels line) :
    let start := Text.byteLength done
    let all := through start s ps
    laidOut text levels (linesFrom line s.brackets (Piece.place start ps)) =
        begun text levels line ++ (all.tokens ++ finish (Text.byteLength text) all.state) ∧
      unindentErrors text levels (linesFrom line s.brackets (Piece.place start ps)) =
        begunErrors text levels line ++ unindents all.errors := by
  induction ps generalizing done s levels line with
  | nil =>
    obtain ⟨hlaid, hwrong⟩ := laidOut_endLine text levels line
      none []
    rw [List.append_nil] at hlaid hwrong
    refine ⟨hlaid.trans ?_, hwrong⟩
    simp only [through, finish, List.nil_append, hline.fresh, hline.levels, List.append_assoc]
    rfl
  | cons p ps ih =>
    obtain ⟨hp, hps⟩ := List.forall_mem_cons.1 hps
    have hsplit : text = done ++ p.gap ++ (p.chars ++ (Piece.text ps ++ tail)) := by
      rw [htext]
      simp [Piece.text]
    obtain ⟨levels', line', front, errors, hline', hlaid, htokens, hwrong, herrors⟩ :=
      step_laidOut hs hp hsplit ⟨Text.byteLength done + Text.byteLength p.gap,
        Text.byteLength done + Text.byteLength p.gap + Text.byteLength p.chars⟩
        (Text.byteLength_append done p.gap).symm hline
        (Piece.place (Text.byteLength done + Text.byteLength p.gap + Text.byteLength p.chars) ps)
    obtain ⟨hrest, hrest'⟩ := ih hps (hs.step hp _) (by rw [hsplit]; simp) hline'
    rw [Text.byteLength_append, Text.byteLength_append] at hrest hrest'
    constructor
    · refine hlaid.trans ?_
      rw [hrest, ← List.append_assoc, ← htokens]
      simp only [through, List.append_assoc]
    · refine hwrong.trans ?_
      rw [hrest', ← List.append_assoc, ← herrors]
      simp only [through, unindents, List.filter_append, List.append_assoc]

end

/-- The layout of a text adds marks to its tokens, drops newlines, and does nothing else. -/
theorem resolve_marked (text : List Char) :
    let raw := (Token.scan text).1
    Marked text raw (resolve text raw).1 (resolve text raw).2 := by
  intro raw
  obtain ⟨ps, tail, htext, hraw, hps⟩ := Token.pieces_of_scan 0 Token.errorLimit text
  have hraw : raw = Piece.place 0 ps := hraw
  have hline : State.start.Amid text [] [] := ⟨rfl, rfl⟩
  obtain ⟨hlaid, hwrong⟩ := through_laidOut hps .start htext hline
  have hresolve : resolve text raw = ((through 0 .start ps).tokens ++
      finish (Text.byteLength text) (through 0 .start ps).state, (through 0 .start ps).errors) := by
    rw [resolve, hraw, htext, resolveFrom_text, Nat.zero_add]
  refine ⟨resolve_framed text, ?_, ?_⟩
  · rw [hresolve, hraw]
    exact hlaid.symm
  · rw [hresolve, hraw]
    exact hwrong.symm

/-- The last line closes the block, but it is indented where no block is. -/
example : (let text := "if a:\n        b\n    c\n".toList
    unindentErrors text [] (lines (Token.scan text).1)) = [unindentError 20] := by
  decide +kernel

end StagedScript.Layout
