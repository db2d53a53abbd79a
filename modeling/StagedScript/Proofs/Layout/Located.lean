import StagedScript.Proofs.Layout.Below
import StagedScript.Proofs.Parsing.Tandem
import StagedScript.Proofs.Reading.Gaps

/-!
# Where tokens come from

A token that a reader takes is one of the text, and what is read from it on is what stands there.
-/

namespace StagedScript

open Token (Kind Counts)

/-! ## Tokens that are taken -/

namespace Token

theorem Settled.of_append {ks ls : List Kind} (h : Settled (ks ++ ls)) : Settled ls := by
  intro k hk
  exact h k (by rw [List.getLast?_append, hk]; rfl)

theorem Settled.of_cons {k : Kind} {ks : List Kind} (h : Settled (k :: ks)) : Settled ks :=
  (show Settled ([k] ++ ks) from h).of_append

end Token

/-- Where the last of the tokens ends that stand for characters of their own. -/
def Token.wordStop (start : Nat) (ts : List Token) : Nat :=
  ((ts.filter Layout.isInner).getLast?.map (·.span.stop)).getD start

namespace Cursor

variable {c c' : Cursor} {k : Kind} {ks : List Kind}

/-- The cursor is not moved past the end of the text. -/
theorem Moved.uncons (h : c.Moved (k :: ks) c') : k ≠ .eof ∧ c.advance.Moved ks c' := by
  have heof : k ≠ .eof := by
    rintro rfl
    obtain ⟨t, ts, hrest, hk, -⟩ := rest_of_ahead h.ahead
    have hstays : c.advance = c := by
      obtain ⟨rest, lastStop, lastWordStop, bound, hbound⟩ := c
      cases hrest
      unfold Cursor.advance
      simp [hk]
    have hafter (n : Nat) : c.after n = c := by
      induction n with
      | zero => rfl
      | succ n ih => rw [Cursor.after, hstays, ih]
    have hlength := h.length_le
    rw [h.after, hafter, List.length_cons] at hlength
    omega
  refine ⟨heof, ⟨?_, h.after⟩⟩
  rw [ahead_advance h.ahead heof]
  rfl

theorem Moved.ne_eof (h : c.Moved ks c') : ∀ k ∈ ks, k ≠ .eof := by
  induction ks generalizing c with
  | nil => simp
  | cons k ks ih =>
    obtain ⟨hk, h⟩ := h.uncons
    exact List.forall_mem_cons.2 ⟨hk, ih h⟩

/-- The tokens that are taken, and where the last of them ends. -/
theorem Moved.rest (h : c.Moved ks c') : ∃ ts, c.rest = ts ++ c'.rest ∧ ts.map Token.kind = ks ∧
    c'.lastWordStop = Token.wordStop c.lastWordStop ts := by
  induction ks generalizing c with
  | nil =>
    have hc : c' = c := h.after
    exact ⟨[], by rw [hc]; rfl, rfl, by rw [hc]; rfl⟩
  | cons k ks ih =>
    obtain ⟨heof, hadvance⟩ := h.uncons
    obtain ⟨t, us, hrest, rfl, -⟩ := rest_of_ahead h.ahead
    obtain ⟨hus, -, hstop⟩ := advance_of_rest hrest heof
    obtain ⟨ts, hts, hkinds, hlast⟩ := ih hadvance
    refine ⟨t :: ts, by rw [hrest, ← hus, hts]; rfl, by rw [List.map_cons, hkinds], ?_⟩
    rw [hlast, hstop, Token.wordStop, Token.wordStop, List.filter_cons]
    have hinner : Layout.isInner t = !t.kind.isLayout := by
      obtain ⟨kind, span⟩ := t
      cases kind with
      | eof => exact absurd rfl heof
      | _ => rfl
    rw [hinner]
    cases t.kind.isLayout with
    | true => rfl
    | false =>
      rw [Bool.not_false, if_pos rfl, List.getLast?_cons]
      cases (ts.filter Layout.isInner).getLast? <;> rfl

end Cursor

namespace Layout

variable {ps : List Piece} {s : State} {start stop : Nat}

/-! ## Lines -/

theorem lined_of_not_inner {ks ls : List Kind} (hks : ∀ k ∈ ks, ¬ k.Inner) (hls : Token.Lined ls) :
    Token.Lined (ks ++ ls) := by
  induction ks with
  | nil => exact hls
  | cons k ks ih =>
    obtain ⟨hk, hks⟩ := List.forall_mem_cons.1 hks
    exact ⟨fun hinner => absurd hinner hk, ih hks⟩

theorem not_inner_dedents (closed : List Nat) (position : Nat) :
    ∀ k ∈ (closed.map fun _ => mark .dedent position).map Token.kind, ¬ k.Inner := by
  rw [kinds_dedents]
  intro k hk
  rw [List.eq_of_mem_replicate hk]
  exact fun h => h.1.2 rfl

theorem not_inner_finish {t : Token} (h : t ∈ finish stop s) : ¬ t.kind.Inner := by
  unfold finish at h
  simp only [List.mem_append, List.mem_map, List.mem_singleton] at h
  rcases h with (h | ⟨-, -, rfl⟩) | rfl
  · split at h
    · cases h
    · cases List.mem_singleton.1 h
      exact fun h => h.2.1 rfl
  · exact fun h => h.1.2 rfl
  · exact fun h => h.2.2 rfl

theorem finish_lined (stop : Nat) (s : State) : Token.Lined ((finish stop s).map Token.kind) := by
  rw [← List.append_nil ((finish stop s).map Token.kind)]
  refine lined_of_not_inner (fun k hk => ?_) trivial
  obtain ⟨t, ht, rfl⟩ := List.mem_map.1 hk
  exact not_inner_finish ht

/-- Every line of a text has an end. -/
theorem through_lined (hn : s.fresh = true → s.brackets = 0)
    (hps : ∀ p ∈ ps, p.kind ≠ .newline → p.kind.Inner)
    (herrors : (through start s ps).errors = []) :
    let ks := ((through start s ps).tokens ++ finish stop (through start s ps).state).map Token.kind
    Token.Lined ks ∧
      (s.fresh = false → ∃ ls rest, ks = ls ++ .newline :: rest ∧ ∀ l ∈ ls, l.Inner) := by
  induction ps generalizing s start with
  | nil =>
    refine ⟨finish_lined stop s, fun hfresh => ?_⟩
    have hfinish : finish stop s = mark .newline stop ::
        (s.levels.map (fun _ => mark .dedent stop) ++ [mark .eof stop]) := by
      unfold finish
      rw [hfresh]
      rfl
    exact ⟨[], _, congrArg (List.map Token.kind) hfinish, fun k hk => absurd hk List.not_mem_nil⟩
  | cons p ps ih =>
    obtain ⟨hp, hps⟩ := List.forall_mem_cons.1 hps
    unfold through at herrors ⊢
    dsimp only at herrors ⊢
    obtain ⟨hhere, hrest⟩ := List.append_eq_nil_iff.1 herrors
    rcases step_cases hn hhere with ⟨hk, hdrop, hstep⟩ | ⟨hk, hfresh, hzero, hstep⟩ |
      ⟨hk, hfresh, l, hl, hstep⟩ | ⟨hk, hfresh, l, hl, hw, hstep⟩ |
      ⟨hk, hfresh, l, closed, levels, hl, hlevels, hw, hstep⟩
    all_goals rw [hstep] at hrest ⊢
    · exact ih hn hps hrest
    · obtain ⟨hlined, -⟩ := ih (s := ⟨s.levels, s.brackets, true⟩) (fun _ => hzero) hps hrest
      exact ⟨⟨fun h => absurd rfl h.2.1, hlined⟩, fun _ => ⟨[], _, rfl, by simp⟩⟩
    all_goals
      obtain ⟨hlined, hline⟩ := ih (by simp) hps hrest
      obtain ⟨ls, rest, hls, hinner⟩ := hline rfl
    · exact ⟨⟨fun _ => ⟨ls, rest, hls, hinner⟩, hlined⟩,
        fun _ => ⟨p.kind :: ls, rest, congrArg (p.kind :: ·) hls,
          List.forall_mem_cons.2 ⟨hp hk, hinner⟩⟩⟩
    · exact ⟨⟨fun h => absurd rfl h.1.1, fun _ => ⟨ls, rest, hls, hinner⟩, hlined⟩,
        fun h => absurd (h.symm.trans hfresh) Bool.false_ne_true⟩
    · refine ⟨?_, fun h => absurd (h.symm.trans hfresh) Bool.false_ne_true⟩
      simp only [List.append_assoc, List.map_append] at hlined hls ⊢
      exact lined_of_not_inner (not_inner_dedents closed _)
        ⟨fun _ => ⟨ls, rest, hls, hinner⟩, hlined⟩

/-! ## Where a token stands -/

/-- The token is that of a piece at the start of a line, and the tokens behind it are those of the
pieces behind that one. -/
def Located (stop start : Nat) (s : State) (ps : List Piece) (t : Token) (after : List Token) :
    Prop :=
  ∃ front p back levels l, ps = front ++ p :: back ∧ p.kind = t.kind ∧
    (through start s front).state.fresh = true ∧
    t.span.start = start + Text.byteLength (Piece.text front) + Text.byteLength p.gap ∧
    t.span.stop = t.span.start + Text.byteLength p.chars ∧
    indentation p.gap = levels.headD 0 ∧ p.kind.Counts 0 l ∧
    (s.Nested → State.Nested ⟨levels, l, false⟩) ∧
    (through t.span.stop ⟨levels, l, false⟩ back).errors = [] ∧
    (through t.span.stop ⟨levels, l, false⟩ back).tokens ++
      finish stop (through t.span.stop ⟨levels, l, false⟩ back).state = after

/-- A piece stands in front. -/
theorem Located.cons {p : Piece} {t : Token} {after : List Token} {s' : State}
    (hstate : (step p.gap ⟨p.kind, ⟨start + Text.byteLength p.gap,
      start + Text.byteLength p.gap + Text.byteLength p.chars⟩⟩ s).state = s')
    (hnested : s.Nested → s'.Nested)
    (h : Located stop (start + Text.byteLength p.gap + Text.byteLength p.chars) s' ps t after) :
    Located stop start s (p :: ps) t after := by
  obtain ⟨front, q, back, levels, l, rfl, hk, hfresh, hfirst, hlast, hlevels, hl, hs, hrest⟩ := h
  refine ⟨p :: front, q, back, levels, l, rfl, hk, ?_, ?_, hlast, hlevels, hl, hs ∘ hnested, hrest⟩
  · unfold through
    dsimp only
    rwa [hstate]
  · rw [hfirst, Piece.text, Text.byteLength_append, Text.byteLength_append]
    simp only [Nat.add_assoc]

/-- The piece itself is the first of its line. -/
theorem Located.here {p : Piece} {t : Token} {levels : List Nat} {l : Nat}
    (ht : t = ⟨p.kind, ⟨start + Text.byteLength p.gap,
      start + Text.byteLength p.gap + Text.byteLength p.chars⟩⟩) (hfresh : s.fresh = true)
    (hlevels : indentation p.gap = levels.headD 0) (hl : p.kind.Counts 0 l)
    (hs : s.Nested → State.Nested ⟨levels, l, false⟩)
    (herrors : (through t.span.stop ⟨levels, l, false⟩ ps).errors = []) :
    Located stop start s (p :: ps) t ((through t.span.stop ⟨levels, l, false⟩ ps).tokens ++
      finish stop (through t.span.stop ⟨levels, l, false⟩ ps).state) := by
  subst ht
  exact ⟨[], p, ps, levels, l, rfl, rfl, hfresh, rfl, rfl, hlevels, hl, hs, herrors, rfl⟩

/-- What is in front of the first token of a line is the marks in front of that line, or there is a
line in front of it. -/
theorem append_eq_cons_of_marks {marks rest before after : List Token} {u t : Token}
    (hmarks : ∀ m ∈ marks, ¬ m.kind.Inner) (hu : u.kind.isLayout = false) (ht : t.kind.Inner)
    (h : marks ++ u :: rest = before ++ t :: after)
    (hbefore : Token.Settled (before.map Token.kind)) :
    before = marks ∧ t = u ∧ rest = after ∨ ∃ before', before' ≠ [] ∧
    Token.Settled (before'.map Token.kind) ∧
      rest = before' ++ t :: after := by
  rcases List.append_eq_append_iff.1 h with ⟨as, rfl, has⟩ | ⟨cs, rfl, hcs⟩
  · cases as with
    | nil =>
      obtain ⟨rfl, rfl⟩ := List.cons.inj has
      exact .inl ⟨List.append_nil _, rfl, rfl⟩
    | cons v before' =>
      obtain ⟨rfl, hrest⟩ := List.cons.inj has
      rw [List.map_append, List.map_cons] at hbefore
      refine .inr ⟨before', ?_, (hbefore.of_append).of_cons, hrest⟩
      rintro rfl
      have hlayout := hbefore.of_append u.kind (by simp)
      rw [hu] at hlayout
      cases hlayout
  · cases cs with
    | nil =>
      obtain ⟨rfl, rfl⟩ := List.cons.inj hcs
      exact .inl ⟨(List.append_nil _).symm, rfl, rfl⟩
    | cons m cs =>
      obtain ⟨rfl, -⟩ := List.cons.inj hcs
      exact absurd ht (hmarks _ (by simp))

/-- A token at the start of a line is that of a piece. -/
theorem through_located (hps : ∀ p ∈ ps, p.kind ≠ .newline → p.kind.Inner)
    (hn : s.fresh = true → s.brackets = 0) (herrors : (through start s ps).errors = [])
    {before after : List Token} {t : Token} (ht : t.kind.Inner)
    (htokens : (through start s ps).tokens ++
      finish stop (through start s ps).state = before ++ t :: after)
    (hfresh : before = [] → s.fresh = true) (hbefore : Token.Settled (before.map Token.kind)) :
    Located stop start s ps t after := by
  induction ps generalizing s start before with
  | nil =>
    have hmem : t ∈ finish stop s := by
      have h : finish stop s = before ++ t :: after := htokens
      rw [h]
      simp
    exact absurd ht (not_inner_finish hmem)
  | cons p ps ih =>
    obtain ⟨hp, hps⟩ := List.forall_mem_cons.1 hps
    unfold through at herrors htokens
    dsimp only at herrors htokens
    obtain ⟨hhere, hrest⟩ := List.append_eq_nil_iff.1 herrors
    rw [List.append_assoc] at htokens
    -- The first token of a line stands behind marks.
    have hline {marks : List Token} {levels : List Nat} {l : Nat} (hs : s.fresh = true)
        (hk : p.kind ≠ .newline) (hl : p.kind.Counts s.brackets l)
        (hmarks : ∀ m ∈ marks, ¬ m.kind.Inner) (hlevels : indentation p.gap = levels.headD 0)
        (hnested : s.Nested → State.Nested ⟨levels, l, false⟩)
        (hstep : step p.gap ⟨p.kind, ⟨start + Text.byteLength p.gap,
          start + Text.byteLength p.gap + Text.byteLength p.chars⟩⟩ s =
            ⟨⟨levels, l, false⟩, marks ++ [⟨p.kind, ⟨start + Text.byteLength p.gap,
              start + Text.byteLength p.gap + Text.byteLength p.chars⟩⟩], []⟩) :
        Located stop start s (p :: ps) t after := by
      rw [hstep] at hrest htokens
      rw [List.append_assoc] at htokens
      rw [hn hs] at hl
      rcases append_eq_cons_of_marks hmarks (hp hk).not_layout ht htokens hbefore
        with ⟨-, rfl, rfl⟩ | ⟨before', hne, hbefore', hbehind⟩
      · exact .here rfl hs hlevels hl hnested hrest
      · exact .cons (congrArg Step.state hstep) hnested
          (ih hps (by simp) hrest hbehind (fun h => absurd h hne) hbefore')
    rcases step_cases hn hhere with ⟨hk, hdrop, hstep⟩ | ⟨hk, hs, hzero, hstep⟩ |
      ⟨hk, hs, l, hl, hstep⟩ | ⟨hk, hs, l, hl, hw, hstep⟩ |
      ⟨hk, hs, l, closed, levels, hl, hlevels, hw, hstep⟩
    · rw [hstep] at hrest htokens
      exact .cons (congrArg Step.state hstep) id (ih hps hn hrest htokens hfresh hbefore)
    · rw [hstep] at hrest htokens
      cases before with
      | nil => exact absurd (hs.symm.trans (hfresh rfl)) Bool.false_ne_true
      | cons u before =>
        obtain ⟨-, hbehind⟩ := List.cons.inj htokens
        exact .cons (congrArg Step.state hstep) id
          (ih hps (fun _ => hzero) hrest hbehind (fun _ => rfl) hbefore.of_cons)
    · rw [hstep] at hrest htokens
      have hmarks (m : Token) (h : m ∈ ([] : List Token)) : ¬ m.kind.Inner :=
        absurd h List.not_mem_nil
      rcases append_eq_cons_of_marks hmarks (hp hk).not_layout ht htokens hbefore with ⟨hnil, -⟩ |
        ⟨before', hne, hbefore', hbehind⟩
      · exact absurd (hs.symm.trans (hfresh hnil)) Bool.false_ne_true
      · exact .cons (congrArg Step.state hstep) id
          (ih hps (by simp) hrest hbehind (fun h => absurd h hne) hbefore')
    · have hmarks : ∀ m ∈ [mark .indent (start + Text.byteLength p.gap)], ¬ m.kind.Inner := by
        intro m hm
        cases List.mem_singleton.1 hm
        exact fun h => h.1.1 rfl
      exact hline hs hk hl hmarks rfl (fun h => State.Nested.push h hw) hstep
    · refine hline hs hk hl (fun m hm => ?_) hw (fun h => ?_) hstep
      · obtain ⟨-, -, rfl⟩ := List.mem_map.1 hm
        exact fun h => h.1.2 rfl
      · unfold State.Nested at h ⊢
        rw [hlevels, List.append_assoc] at h
        exact (List.pairwise_append.1 h).2.1

/-- The tokens that are no marks are those of the pieces. -/
theorem through_isInner (hps : ∀ p ∈ ps, p.kind ≠ .newline → p.kind.Inner)
    (hn : s.fresh = true → s.brackets = 0) (herrors : (through start s ps).errors = []) :
    (through start s ps).tokens.filter isInner = (Piece.place start ps).filter isInner := by
  induction ps generalizing s start with
  | nil => rfl
  | cons p ps ih =>
    obtain ⟨hp, hps⟩ := List.forall_mem_cons.1 hps
    unfold through at herrors ⊢
    dsimp only at herrors ⊢
    obtain ⟨hhere, hrest⟩ := List.append_eq_nil_iff.1 herrors
    have hword (hk : p.kind ≠ .newline) (span : Span) (ts : List Token) :
        (⟨p.kind, span⟩ :: ts).filter isInner = ⟨p.kind, span⟩ :: ts.filter isInner := by
      rw [List.filter_cons, if_pos (isInner_of_inner (hp hk))]
    rw [Piece.place, List.filter_append]
    rcases step_cases hn hhere with ⟨hk, hdrop, hstep⟩ | ⟨hk, hfresh, hzero, hstep⟩ |
      ⟨hk, hfresh, l, hl, hstep⟩ | ⟨hk, hfresh, l, hl, hw, hstep⟩ |
      ⟨hk, hfresh, l, closed, levels, hl, hlevels, hw, hstep⟩
    all_goals rw [hstep] at hrest ⊢
    · rw [ih hps hn hrest, hk]
      rfl
    · rw [ih (s := ⟨s.levels, s.brackets, true⟩) hps (fun _ => hzero) hrest, hk]
      rfl
    all_goals
      rw [ih hps (by simp) hrest, hword hk]
    · rw [hword hk]
      rfl
    · rw [List.filter_cons, if_neg (by simp [isInner, mark]), hword hk]
      rfl
    · rw [List.filter_append, filter_isInner_mark, hword hk]
      rfl

/-- What is known of the state behind some pieces. -/
theorem State.Sound.through {done : List Char} (hs : s.Sound done) (hps : ∀ p ∈ ps, p.Solid) :
    (through (Text.byteLength done) s ps).state.Sound (done ++ Piece.text ps) := by
  induction ps generalizing done s with
  | nil =>
    rw [Piece.text, List.append_nil]
    exact hs
  | cons p ps ih =>
    obtain ⟨hp, hps⟩ := List.forall_mem_cons.1 hps
    have hrest := ih (hs.step hp ⟨Text.byteLength done + Text.byteLength p.gap,
      Text.byteLength done + Text.byteLength p.gap + Text.byteLength p.chars⟩) hps
    rw [Text.byteLength_append, Text.byteLength_append] at hrest
    unfold Layout.through
    simpa [Piece.text] using hrest

end Layout

/-! ## White space in front of lines -/

/-- What stands in front of a token on its line are blanks. -/
theorem Skips.isBlank_lineHead {gap rest : List Char} (h : Skips gap rest) (hrest : rest ≠ [])
    (hnewline : ∀ more, rest ≠ '\n' :: more) :
    ∀ c ∈ Layout.lineHead gap, Lexeme.isBlank c = true := by
  induction hn : gap.length using Nat.strongRecOn generalizing gap with
  | ind n ih =>
    subst hn
    rcases h.cases_gap hrest with rfl | ⟨c, more, rfl, hc, hmore⟩ | ⟨cs, more, -, -, hmore⟩ |
      ⟨more, rfl, hmore⟩ | ⟨more, rfl, hmore⟩
    · simp [Layout.lineHead]
    · have hblanks := ih _ (by simp) hmore rfl
      by_cases hmem : '\n' ∈ more
      · rwa [← List.singleton_append, Layout.lineHead_append hmem]
      · have hne : '\n' ≠ c := by
          rintro rfl
          cases hc
        rw [Layout.lineHead_of_not_mem hmem] at hblanks
        rw [Layout.lineHead_of_not_mem (by simp [hne, hmem])]
        exact List.forall_mem_cons.2 ⟨hc, hblanks⟩
    · exact absurd hmore (hnewline more)
    · rw [← List.singleton_append, Layout.lineHead_append (by simp), Layout.lineHead_cons_newline]
      exact ih _ (by simp only [List.length_cons]; omega) hmore rfl
    · have hsplit : '\\' :: '\r' :: '\n' :: more = ['\\', '\r'] ++ '\n' :: more := rfl
      rw [hsplit, Layout.lineHead_append (by simp), Layout.lineHead_cons_newline]
      exact ih _ (by simp only [List.length_cons]; omega) hmore rfl

end StagedScript
