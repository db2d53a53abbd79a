import StagedScript.Proofs.Parsing.Mirrored
import StagedScript.Proofs.Reading.LineEnds

/-!
# Lines at several depths

A text of lines, each indented by the depth that it stands at, is read as the tokens of its lines.
The layout marks a block where a line stands deeper than the one before, and closes as many blocks
as a line stands less deep.
-/

namespace StagedScript

/-- A line of a text: its pieces, of which the first one stands at its start, and what is skipped
behind the last one.  It is read as such wherever its end may follow, and has its brackets in
pairs. -/
structure Row where
  /-- The piece of its first token. -/
  first : Piece
  /-- The pieces behind it. -/
  more : List Piece
  /-- What is skipped behind them. -/
  tail : List Char
  start : first.gap = []
  fit : ∀ rest, Piece.EndsLine rest → Piece.Fit (first :: more) (tail ++ rest) ∧ Skips tail rest
  inner : ∀ p ∈ first :: more, p.kind.Inner
  paired : Token.Counts 0 ((first :: more).map Piece.kind) 0

namespace Row

/-- What the tokens of a row are. -/
def kinds (r : Row) : List Token.Kind := (r.first :: r.more).map Piece.kind

/-- The text of a row. -/
def text (r : Row) : List Char := Piece.text (r.first :: r.more) ++ r.tail

/-- The pieces of a row behind so many spaces. -/
def indented (r : Row) (n : Nat) : List Piece :=
  { r.first with gap := List.replicate n ' ' } :: r.more

theorem text_indented (r : Row) (n : Nat) :
    Piece.text (r.indented n) ++ r.tail = List.replicate n ' ' ++ r.text := by
  simp [indented, text, Piece.text, r.start]

theorem fit_indented (r : Row) (n : Nat) {rest : List Char} (hrest : Piece.EndsLine rest) :
    Piece.Fit (r.indented n) (r.tail ++ rest) := by
  obtain ⟨hfirst, hmore⟩ := (r.fit rest hrest).1
  refine ⟨⟨Skips.spaces n ?_, hfirst.token⟩, hmore⟩
  obtain ⟨c, cs, hchars, hblank⟩ := hfirst.head
  change Without _ (r.first.chars ++ _)
  rw [hchars]
  exact .cons hblank

/-! ## Rows below each other -/

/-- The pieces of rows, each at its depth and behind the end of the one before. -/
def joined (width : Nat) : List (Nat × Row) → List Piece
  | [] => []
  | [(d, r)] => r.indented (d * width)
  | (d, r) :: row :: rows =>
    r.indented (d * width) ++ Piece.newline r.tail :: joined width (row :: rows)

/-- What is skipped behind the last row. -/
def lastTail : List (Nat × Row) → List Char
  | [] => []
  | [(_, r)] => r.tail
  | _ :: row :: rows => lastTail (row :: rows)

/-- A row as it stands in a text. -/
def placed (width : Nat) (row : Nat × Row) : List Char :=
  List.replicate (row.1 * width) ' ' ++ row.2.text

variable {width : Nat}

theorem joined_append {rows rows' : List (Nat × Row)} (h : rows ≠ []) (h' : rows' ≠ []) :
    joined width (rows ++ rows') =
      joined width rows ++ Piece.newline (lastTail rows) :: joined width rows' := by
  induction rows with
  | nil => exact absurd rfl h
  | cons row rows ih =>
    cases rows with
    | nil =>
      obtain ⟨row', rows', rfl⟩ := List.exists_cons_of_ne_nil h'
      rfl
    | cons next rows =>
      have ih := ih (by simp)
      rw [List.cons_append] at ih
      rw [List.cons_append, List.cons_append, joined, ih, joined, lastTail]
      simp

theorem text_joined {rows : List (Nat × Row)} (h : rows ≠ []) :
    Piece.text (joined width rows) ++ lastTail rows =
    ['\n'].intercalate (rows.map (placed width)) := by
  induction rows with
  | nil => exact absurd rfl h
  | cons row rows ih =>
    obtain ⟨d, r⟩ := row
    cases rows with
    | nil =>
      rw [joined, lastTail, text_indented]
      simp [placed]
    | cons next rows =>
      have ih := ih (by simp)
      rw [List.map_cons, List.map_cons, List.intercalate_cons_cons, ← List.map_cons, ← ih, joined,
        lastTail, Piece.text_append, placed, ← text_indented]
      simp [Piece.text, Piece.newline]

theorem read_joined (rows : List (Nat × Row)) : Piece.Read (joined width rows) (lastTail rows) := by
  induction rows with
  | nil => exact .nil
  | cons row rows ih =>
    obtain ⟨d, r⟩ := row
    cases rows with
    | nil =>
      have hfit := r.fit_indented (d * width) (.inl rfl)
      rw [List.append_nil] at hfit
      have hread : Piece.Read (r.indented (d * width) ++ []) r.tail :=
        Piece.Fit.read (by simpa [Piece.text] using hfit) (r.fit [] (.inl rfl)).2
      rwa [List.append_nil] at hread
    | cons next rows =>
      refine Piece.Fit.read ?_ ⟨⟨?_, '\n', [], rfl, rfl⟩, ih⟩
      · have hends : Piece.EndsLine ('\n' :: (Piece.text (joined width (next :: rows)) ++
            lastTail (next :: rows))) := .inr ⟨_, rfl⟩
        have hfit := r.fit_indented (d * width) hends
        simpa [Piece.text, Piece.newline, lastTail] using hfit
      · exact (r.fit _ (.inr ⟨_, rfl⟩)).2

end Row

namespace Layout

theorem indentation_spaces (n : Nat) : indentation (List.replicate n ' ') = n := by
  have hhead : lineHead (List.replicate n ' ') = List.replicate n ' ' := by
    unfold lineHead
    rw [List.reverse_replicate, List.takeWhile_replicate, if_pos (by decide),
      List.reverse_replicate]
  have hwidth (n w : Nat) : (List.replicate n ' ').foldl
      (fun w c => if c = '\t' then (w / tabStop + 1) * tabStop else w + 1) w = w + n := by
    induction n generalizing w with
    | zero => rfl
    | succ n ih =>
      rw [List.replicate_succ, List.foldl_cons, if_neg (by decide), ih]
      omega
  rw [indentation, hhead, width, hwidth, Nat.zero_add]

/-- Tokens stay within a line as their brackets say. -/
theorem Inside.of_counts {ps : List Piece} {n m : Nat} (hps : ∀ p ∈ ps, p.kind.Inner)
    (h : Token.Counts n (ps.map Piece.kind) m) : Inside n ps m := by
  induction ps generalizing n with
  | nil =>
    cases h
    exact .nil
  | cons p ps ih =>
    obtain ⟨hp, hps⟩ := List.forall_mem_cons.1 hps
    cases h with
    | @cons _ l _ _ _ hk hrest =>
      refine Inside.append (show Inside n [p] l from ?_) (ih hps hrest)
      have hplain (heq : l = n) (h : ∀ s, p.kind = .symbol s → s.opens = false ∧ s.closes = false) :
          Inside n [p] l := heq ▸ .plain hp.2.1 h
      cases hkind : p.kind with
      | symbol s =>
        rw [hkind] at hk
        simp only [Token.Kind.Counts] at hk
        split at hk
        · next hopens => exact hk ▸ .opening hkind hopens
        · next hopens =>
          split at hk
          · next hcloses => exact hk ▸ .closing hkind hcloses
          · next hcloses =>
            refine hplain hk fun s' hs' => ?_
            obtain rfl : s = s' := by simpa [hkind] using hs'
            exact ⟨by simpa using hopens, by simpa using hcloses⟩
      | _ =>
        rw [hkind] at hk
        exact hplain hk fun s hs => by simp [hkind] at hs

/-- In front of a line that is indented by `w`, the layout puts these marks, and leads from the one
list of open blocks to the other. -/
structure Leads (w : Nat) (levels : List Nat) (marks : List Token.Kind) (base : List Nat) :
    Prop where
  state : ∀ position, (indent w position ⟨levels, 0, true⟩).state = ⟨base, 0, false⟩
  kinds : ∀ position, (indent w position ⟨levels, 0, true⟩).tokens.map Token.kind = marks
  errors : ∀ position, (indent w position ⟨levels, 0, true⟩).errors = []

/-- A line opens a block if it is indented more. -/
theorem Leads.deeper {w : Nat} {levels : List Nat} (h : levels.headD 0 < w) :
    Leads w levels [.indent] (w :: levels) := by
  have hindent (position : Nat) : indent w position ⟨levels, 0, true⟩ =
      ⟨⟨w :: levels, 0, false⟩, [mark .indent position], []⟩ := if_pos h
  exact ⟨fun position => by rw [hindent], fun position => by rw [hindent]; rfl,
    fun position => by rw [hindent]⟩

/-- A line closes the blocks that are indented more, if it is indented like the block around
them. -/
theorem Leads.back {w : Nat} {closed levels : List Nat} (hclosed : ∀ level ∈ closed, w < level)
    (h : levels.headD 0 = w) : Leads w (closed ++ levels) (closed.map fun _ => .dedent) levels := by
  have htake : (closed ++ levels).takeWhile (w < ·) = closed := by
    rw [List.takeWhile_append_of_pos (by simpa using hclosed)]
    cases levels with
    | nil => simp
    | cons level levels =>
      rw [List.takeWhile_cons_of_neg (by simpa using Nat.le_of_eq h), List.append_nil]
  have hle : ¬ (closed ++ levels).headD 0 < w := by
    cases closed with
    | nil => exact Nat.not_lt.2 (Nat.le_of_eq h.symm)
    | cons level closed => exact Nat.not_lt.2 (Nat.le_of_lt (hclosed level (by simp)))
  have hindent (position : Nat) : indent w position ⟨closed ++ levels, 0, true⟩ =
      ⟨⟨levels, 0, false⟩, closed.map fun _ => mark .dedent position, []⟩ := by
    unfold indent
    rw [if_neg (show ¬ State.level ⟨closed ++ levels, 0, true⟩ < w from hle)]
    dsimp only
    rw [htake, List.drop_left, if_pos h.symm]
  exact ⟨fun position => by rw [hindent], fun position => by rw [hindent]; simp [mark],
    fun position => by rw [hindent]⟩

/-- Where a line starts, its first token has the marks in front of it. -/
theorem Arranges.leads {levels base : List Nat} {marks ks : List Token.Kind} {p : Piece}
    {ps : List Piece} {t : State} (hp : p.kind ≠ .newline)
    (hleads : Leads (indentation p.gap) levels marks base)
    (h : Arranges ⟨base, 0, false⟩ (p :: ps) ks t) :
    Arranges ⟨levels, 0, true⟩ (p :: ps) (marks ++ ks) t := by
  have hstep (span : Span) : step p.gap ⟨p.kind, span⟩ ⟨levels, 0, true⟩ =
      let here := step p.gap ⟨p.kind, span⟩ ⟨base, 0, false⟩
      ⟨here.state, (indent (indentation p.gap) span.start ⟨levels, 0, true⟩).tokens ++ here.tokens,
        here.errors⟩ := by
    rw [step_eq hp, step_eq hp, if_pos (by rfl), if_neg (by simp)]
    dsimp only
    rw [hleads.state, hleads.errors, List.nil_append, List.nil_append]
  have hkinds := h.kinds
  have hstate := h.state
  have herrors := h.errors
  simp only [through] at hkinds hstate herrors
  refine ⟨fun start => ?_, fun start => ?_, fun start => ?_⟩
  · simp only [through, hstep]
    exact hstate start
  · simp only [through, hstep]
    rw [List.append_assoc, List.map_append, hleads.kinds, hkinds start]
  · simp only [through, hstep]
    exact herrors start

/-- A row of a text, indented by its depth. -/
theorem Arranges.row {n : Nat} {levels base : List Nat} {marks : List Token.Kind} (r : Row)
    (hleads : Leads n levels marks base) :
    Arranges ⟨levels, 0, true⟩ (r.indented n) (marks ++ r.kinds) ⟨base, 0, false⟩ := by
  have hinside : Inside 0 (r.indented n) 0 := .of_counts (by simpa [Row.indented] using r.inner)
    (by simpa [Row.indented] using r.paired)
  refine Arranges.leads (r.inner _ List.mem_cons_self).2.1 ?_ (hinside base)
  rwa [indentation_spaces]

/-! ## Blocks of rows -/

/-- The blocks that are open around rows of a depth. -/
def blocksAt (width : Nat) : Nat → List Nat
  | 0 => []
  | d + 1 => (d + 1) * width :: blocksAt width d

theorem headD_blocksAt (width d : Nat) : (blocksAt width d).headD 0 = d * width := by
  cases d with
  | zero => exact (Nat.zero_mul width).symm
  | succ d => rfl

/-- Whatever is open in front of the first of these rows, the layout has the words of the rows
behind the marks that lead to their depth.  The blocks that are open behind the last row are those
deeper inside, which are closed by as many marks. -/
def Lays (width d : Nat) (rows : List (Nat × Row)) (words : List Token.Kind) : Prop :=
  ∀ levels marks, Leads (d * width) levels marks (blocksAt width d) → ∃ ks inner,
    Arranges ⟨levels, 0, true⟩ (Row.joined width rows) (marks ++ ks)
      ⟨inner ++ blocksAt width d, 0, false⟩ ∧
    (∀ level ∈ inner, d * width < level) ∧ ks ++ .newline :: inner.map (fun _ => .dedent) = words

namespace Lays

variable {width d : Nat} {rows rows' : List (Nat × Row)} {ks ls : List Token.Kind}

theorem one (r : Row) : Lays width d [(d, r)] (r.kinds ++ [.newline]) :=
  fun _ _ hleads => ⟨r.kinds, [], .row r hleads, by simp, rfl⟩

/-- The end of a row, whatever is skipped in front of it. -/
theorem lineEnd (levels : List Nat) (gap : List Char) :
    Arranges ⟨levels, 0, false⟩ [Piece.newline gap] [.newline] ⟨levels, 0, true⟩ :=
  .line rfl rfl rfl

theorem append (hrows : rows ≠ []) (hrows' : rows' ≠ []) (h : Lays width d rows ks)
    (h' : Lays width d rows' ls) : Lays width d (rows ++ rows') (ks ++ ls) := by
  intro levels marks hleads
  obtain ⟨ks, inner, harranges, hinner, rfl⟩ := h levels marks hleads
  obtain ⟨ls, inner', harranges', hinner', rfl⟩ :=
    h' _ _ (.back hinner (headD_blocksAt width d))
  refine ⟨ks ++ .newline :: (inner.map (fun _ => .dedent) ++ ls), inner', ?_, hinner', by simp⟩
  rw [Row.joined_append hrows hrows']
  have hall := harranges.append ((lineEnd _ (Row.lastTail rows)).append harranges')
  simpa using hall

/-- A header with rows that are indented by one step more. -/
theorem block (hwidth : 0 < width) (hrows : rows ≠ []) (r : Row) (h : Lays width (d + 1) rows ks) :
    Lays width d ((d, r) :: rows) (r.kinds ++ .newline :: .indent :: (ks ++ [.dedent])) := by
  intro levels marks hleads
  have hdeeper : d * width < (d + 1) * width := by
    rw [Nat.succ_mul]
    omega
  obtain ⟨ks, inner, harranges, hinner, rfl⟩ :=
    h _ _ (Leads.deeper (by rw [headD_blocksAt]; exact hdeeper))
  refine ⟨r.kinds ++ .newline :: .indent :: ks, inner ++ [(d + 1) * width], ?_, ?_, by simp⟩
  · rw [← List.singleton_append, Row.joined_append (by simp) hrows]
    have hall := (Arranges.row r hleads).append ((lineEnd _ r.tail).append harranges)
    simpa [blocksAt, Row.joined, Row.lastTail] using hall
  · intro level hlevel
    rcases List.mem_append.1 hlevel with hlevel | hlevel
    · exact Nat.lt_trans hdeeper (hinner level hlevel)
    · exact List.mem_singleton.1 hlevel ▸ hdeeper

end Lays

end Layout

end StagedScript
