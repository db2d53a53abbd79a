import StagedScript.Proofs.Layout.Resolved
import StagedScript.Proofs.Parsing.Mirrored

/-!
# Lines below another one

A line and the block that hangs off it are one piece of a text: the lines of the block are indented
more than the line, and the next line is not.  What hangs off a line is told by the tokens with
their marks, and by the indentation of the lines.
-/

namespace StagedScript

open Token (Kind Counts)

/-! ## Tokens below a line -/

namespace Token

/-- The tokens are the rest of a line and all that hangs off it, with `d` blocks open that do.  The
flag tells whether a line starts in front of the first token. -/
inductive Hung : Nat → Bool → List Kind → Prop
  | nil : Hung 0 true []
  | newline {d : Nat} {fresh : Bool} {ks : List Kind} : (fresh = true → d ≠ 0) → Hung d true ks →
      Hung d fresh (.newline :: ks)
  | indent {d : Nat} {fresh : Bool} {ks : List Kind} : (d = 0 → fresh = true) →
      Hung (d + 1) true ks → Hung d fresh (.indent :: ks)
  | dedent {d : Nat} {fresh : Bool} {ks : List Kind} : (d = 0 → ks = []) → Hung d true ks →
      Hung (d + 1) fresh (.dedent :: ks)
  | word {d : Nat} {fresh : Bool} {k : Kind} {ks : List Kind} : k.Flat → k ≠ .newline →
      (fresh = true → d ≠ 0) → Hung d false ks → Hung d fresh (k :: ks)

namespace Hung

variable {d : Nat} {fresh : Bool} {ks : List Kind}

/-- The rest of a block, and its end. -/
theorem of_depthAfter (h : depthAfter d ks = some 0) : Hung (d + 1) fresh (ks ++ [.dedent]) := by
  induction ks generalizing d fresh with
  | nil =>
    cases h
    exact .dedent (fun _ => rfl) .nil
  | cons k ks ih =>
    by_cases hflat : k.Flat
    · rw [depthAfter_flat hflat] at h
      by_cases hk : k = .newline
      · subst hk
        exact .newline (by simp) (ih h)
      · exact .word hflat hk (by simp) (ih h)
    · rcases Kind.eq_of_not_flat hflat with rfl | rfl
      · rw [depthAfter_indent] at h
        exact .indent (by simp) (ih h)
      · cases d with
        | zero => cases h
        | succ d => exact .dedent (by simp) (ih h)

theorem depthAfter_of {n : Nat} (h : Hung n fresh ks) (hn : n = d + 1) :
    ∃ ls, ks = ls ++ [.dedent] ∧ depthAfter d ls = some 0 := by
  induction h generalizing d with
  | nil => cases hn
  | newline _ _ ih =>
    obtain ⟨ls, rfl, hls⟩ := ih hn
    exact ⟨.newline :: ls, rfl, by rwa [depthAfter_flat (by simp [Kind.Flat])]⟩
  | indent _ _ ih =>
    subst hn
    obtain ⟨ls, rfl, hls⟩ := ih rfl
    exact ⟨.indent :: ls, rfl, by rwa [depthAfter_indent]⟩
  | @dedent e _ _ hlast _ ih =>
    obtain rfl : e = d := Nat.succ.inj hn
    cases e with
    | zero =>
      rw [hlast rfl]
      exact ⟨[], rfl, rfl⟩
    | succ e =>
      obtain ⟨ls, rfl, hls⟩ := ih rfl
      exact ⟨.dedent :: ls, rfl, hls⟩
  | @word _ _ k _ hflat _ _ _ ih =>
    obtain ⟨ls, rfl, hls⟩ := ih hn
    exact ⟨k :: ls, rfl, by rwa [depthAfter_flat hflat]⟩

/-- What hangs off a line is nothing or a block. -/
theorem block (h : Hung 0 true ks) :
    ks = [] ∨ ∃ ls, ks = .indent :: (ls ++ [.dedent]) ∧ Balanced ls := by
  cases h with
  | nil => exact .inl rfl
  | newline hfresh => exact absurd rfl (hfresh rfl)
  | indent _ h =>
    obtain ⟨ls, rfl, hls⟩ := h.depthAfter_of rfl
    exact .inr ⟨ls, rfl, balanced_of_depthAfter hls⟩
  | word _ _ hfresh => exact absurd rfl (hfresh rfl)

/-- The rest of the line, and what hangs off it. -/
theorem line (h : Hung 0 false ks) : ∃ ls below, ks = ls ++ .newline :: below ∧
    (∀ k ∈ ls, k.Flat ∧ k ≠ .newline) ∧ Hung 0 true below := by
  generalize hd : 0 = d at h
  generalize hfresh : false = fresh at h
  induction h with
  | nil => cases hfresh
  | newline _ h _ =>
    subst hd
    exact ⟨[], _, rfl, by simp, h⟩
  | indent hmark _ _ =>
    subst hfresh
    exact absurd (hmark hd.symm) Bool.false_ne_true
  | dedent => cases hd
  | @word _ _ k _ hflat hk _ _ ih =>
    obtain ⟨ls, below, rfl, hls, hbelow⟩ := ih hd rfl
    exact ⟨k :: ls, below, rfl, List.forall_mem_cons.2 ⟨⟨hflat, hk⟩, hls⟩, hbelow⟩

theorem of_line {ls below : List Kind} (hls : ∀ k ∈ ls, k.Flat ∧ k ≠ .newline)
    (hbelow : below = [] ∨ ∃ used, below = .indent :: (used ++ [.dedent]) ∧ Balanced used) :
    Hung 0 false (ls ++ .newline :: below) := by
  induction ls with
  | nil =>
    refine .newline (by simp) ?_
    rcases hbelow with rfl | ⟨used, rfl, hused⟩
    · exact .nil
    · exact .indent (fun _ => rfl) (.of_depthAfter (hused 0))
  | cons k ls ih =>
    obtain ⟨⟨hflat, hk⟩, hls⟩ := List.forall_mem_cons.1 hls
    exact .word hflat hk (by simp) (ih hls)

/-- The ends of all the blocks that are open. -/
theorem dedents (d : Nat) : Hung d true (List.replicate d .dedent) := by
  induction d with
  | zero => exact .nil
  | succ d ih =>
    refine .dedent (fun hd => ?_) ih
    rw [hd]
    rfl

theorem dedents_append {d e : Nat} (hd : d ≠ 0) (h : Hung d true ks) :
    Hung (e + d) true (List.replicate e .dedent ++ ks) := by
  induction e with
  | zero => rwa [Nat.zero_add]
  | succ e ih =>
    rw [Nat.add_right_comm]
    exact .dedent (by omega) ih

theorem of_nil (h : Hung d fresh []) : d = 0 ∧ fresh = true := by
  cases h
  exact ⟨rfl, rfl⟩

theorem of_newline (h : Hung d fresh (.newline :: ks)) : Hung d true ks := by
  cases h with
  | newline _ h => exact h
  | word _ hk => exact absurd rfl hk

theorem of_indent (h : Hung d fresh (.indent :: ks)) : Hung (d + 1) true ks := by
  cases h with
  | indent _ h => exact h
  | word hflat => exact absurd rfl hflat.1

theorem of_dedents {e : Nat} (h : Hung d true (List.replicate e .dedent ++ ks)) :
    ∃ l, d = e + l ∧ Hung l true ks := by
  induction e generalizing d with
  | zero => exact ⟨d, (Nat.zero_add d).symm, h⟩
  | succ e ih =>
    cases h with
    | dedent _ h =>
      obtain ⟨l, rfl, hl⟩ := ih h
      exact ⟨l, by omega, hl⟩
    | word hflat => exact absurd rfl hflat.2

theorem of_word {k : Kind} (hk : k.Inner) (h : Hung d fresh (k :: ks)) :
    (fresh = true → d ≠ 0) ∧ Hung d false ks := by
  cases h with
  | newline => exact absurd rfl hk.2.1
  | indent => exact absurd rfl hk.1.1
  | dedent => exact absurd rfl hk.1.2
  | word _ _ hfresh h => exact ⟨hfresh, h⟩

end Hung

theorem Kind.Counts.unique {k : Kind} {n m l : Nat} (hm : k.Counts n m) (hl : k.Counts n l) :
    m = l := by
  cases k with
  | symbol c =>
    simp only [Kind.Counts] at hm hl
    by_cases hopens : c.opens = true
    · rw [if_pos hopens] at hm hl
      omega
    · rw [if_neg hopens] at hm hl
      split at hm <;> split at hl <;> simp_all
  | _ => exact Eq.trans hm (Eq.symm hl)

theorem Counts.of_dedents {e n m : Nat} {ks : List Kind}
    (h : Counts n (List.replicate e .dedent ++ ks) m) : Counts n ks m := by
  induction e with
  | zero => exact h
  | succ e ih =>
    cases h with
    | cons hk h =>
      cases hk
      exact ih h

end Token

/-! ## What a token does -/

namespace Layout

variable {s : State} {p : Piece} {span : Span}

theorem bracket_counts {t : Token} (h : (bracket t s).errors = []) :
    ∃ l, t.kind.Counts s.brackets l ∧ bracket t s = ⟨{ s with brackets := l }, [t], []⟩ := by
  obtain ⟨kind, span⟩ := t
  cases kind with
  | symbol c =>
    unfold bracket at h ⊢
    unfold Kind.Counts
    dsimp only at h ⊢
    by_cases hopens : c.opens = true
    · simp only [if_pos hopens]
      exact ⟨_, rfl, rfl⟩
    · simp only [if_neg hopens] at h ⊢
      by_cases hcloses : c.closes = true
      · simp only [if_pos hcloses] at h ⊢
        obtain ⟨levels, n, fresh⟩ := s
        cases n with
        | zero => cases h
        | succ n => exact ⟨n, rfl, rfl⟩
      · simp only [if_neg hcloses]
        exact ⟨_, rfl, rfl⟩
  | _ => exact ⟨_, rfl, rfl⟩

/-- What a token does where it is no error: a newline is dropped or ends a line, and any other token
goes on with a line, opens a block, or closes some and goes on in the one that is indented like
it. -/
theorem step_cases (hbrackets : s.fresh = true → s.brackets = 0)
    (h : (step p.gap ⟨p.kind, span⟩ s).errors = []) :
    (p.kind = .newline ∧ (s.fresh = true ∨ s.brackets ≠ 0) ∧
      step p.gap ⟨p.kind, span⟩ s = ⟨s, [], []⟩) ∨
    (p.kind = .newline ∧ s.fresh = false ∧ s.brackets = 0 ∧ step p.gap ⟨p.kind, span⟩ s =
      ⟨{ s with fresh := true }, [⟨.newline, span⟩], []⟩) ∨
    (p.kind ≠ .newline ∧ s.fresh = false ∧ ∃ l, p.kind.Counts s.brackets l ∧
      step p.gap ⟨p.kind, span⟩ s = ⟨⟨s.levels, l, false⟩, [⟨p.kind, span⟩], []⟩) ∨
    (p.kind ≠ .newline ∧ s.fresh = true ∧ ∃ l, p.kind.Counts s.brackets l ∧
      s.level < indentation p.gap ∧
      step p.gap ⟨p.kind, span⟩ s = ⟨⟨indentation p.gap :: s.levels, l, false⟩,
        [mark .indent span.start, ⟨p.kind, span⟩], []⟩) ∨
    (p.kind ≠ .newline ∧ s.fresh = true ∧ ∃ l closed levels, p.kind.Counts s.brackets l ∧
      s.levels = closed ++ levels ∧ indentation p.gap = levels.headD 0 ∧
      step p.gap ⟨p.kind, span⟩ s = ⟨⟨levels, l, false⟩,
        (closed.map fun _ => mark .dedent span.start) ++ [⟨p.kind, span⟩], []⟩) := by
  obtain ⟨levels, n, fresh⟩ := s
  by_cases hk : p.kind = .newline
  · rw [hk]
    cases hdrop : (decide (n = 0) && !fresh) with
    | true =>
      simp only [Bool.and_eq_true, decide_eq_true_eq, Bool.not_eq_true'] at hdrop
      obtain ⟨rfl, rfl⟩ := hdrop
      exact .inr (.inl ⟨rfl, rfl, rfl, rfl⟩)
    | false =>
      refine .inl ⟨rfl, ?_, ?_⟩
      · simp only [Bool.and_eq_false_iff, decide_eq_false_iff_not, Bool.not_eq_false'] at hdrop
        exact hdrop.symm
      · change newline _ _ = _
        unfold newline
        rw [hdrop]
        rfl
  · rw [Arranges.step_eq hk] at h ⊢
    dsimp only at h ⊢
    cases fresh with
    | false =>
      rw [if_neg (by simp)] at h ⊢
      obtain ⟨l, hl, heq⟩ := bracket_counts (List.append_eq_nil_iff.1 h).2
      refine .inr (.inr (.inl ⟨hk, rfl, l, hl, ?_⟩))
      rw [heq]
      rfl
    | true =>
      obtain rfl : n = 0 := hbrackets rfl
      rw [if_pos (by simp)] at h ⊢
      obtain ⟨hfirst, hlast⟩ := List.append_eq_nil_iff.1 h
      unfold indent at hfirst hlast ⊢
      by_cases hw : State.level ⟨levels, 0, true⟩ < indentation p.gap
      · rw [if_pos hw] at hlast ⊢
        obtain ⟨l, hl, heq⟩ := bracket_counts hlast
        refine .inr (.inr (.inr (.inl ⟨hk, rfl, l, hl, hw, ?_⟩)))
        dsimp only
        rw [heq]
        rfl
      · rw [if_neg hw] at hfirst hlast ⊢
        dsimp only at hfirst hlast ⊢
        have hsplit := List.takeWhile_append_dropWhile (p := (indentation p.gap < ·)) (l := levels)
        have hdrop : levels.drop (levels.takeWhile (indentation p.gap < ·)).length =
            levels.dropWhile (indentation p.gap < ·) := by
          conv_lhs => arg 2; rw [← hsplit]
          exact List.drop_left
        rw [hdrop] at hfirst hlast ⊢
        split at hfirst
        · next hw' =>
          obtain ⟨l, hl, heq⟩ := bracket_counts hlast
          refine .inr (.inr (.inr (.inr ⟨hk, rfl, l, _, _, hl, hsplit.symm, hw', ?_⟩)))
          rw [heq, if_pos hw']
          rfl
        · cases hfirst

/-! ## Where lines start -/

/-- Lines start with gaps of a property; a line starts where the flag tells so, and behind a newline
outside of brackets.  The brackets lead from one count to the other. -/
inductive Starts (P : List Char → Prop) : Bool → Nat → List Piece → Nat → Prop
  | nil {fresh : Bool} {n : Nat} : Starts P fresh n [] n
  | newline {fresh : Bool} {n m : Nat} {p : Piece} {ps : List Piece} : p.kind = .newline →
      Starts P (fresh || n == 0) n ps m → Starts P fresh n (p :: ps) m
  | token {fresh : Bool} {n l m : Nat} {p : Piece} {ps : List Piece} : p.kind.Inner →
      (fresh = true → P p.gap) → p.kind.Counts n l → Starts P false l ps m →
      Starts P fresh n (p :: ps) m

/-- A block that is left open at a line with some indentation. -/
theorem suffix_of_headD {x closed levels : List Nat} {b w : Nat} (h : x ++ [b] = closed ++ levels)
    (hw : w = levels.headD 0) (hpos : 0 < w) : ∃ y, levels = y ++ [b] ∧ x = closed ++ y := by
  rcases List.eq_nil_or_concat levels with rfl | ⟨y, c, rfl⟩
  · rw [hw] at hpos
    exact absurd hpos (Nat.lt_irrefl 0)
  · rw [List.concat_eq_append, ← List.append_assoc] at h
    obtain ⟨hx, hc⟩ := List.append_inj' h rfl
    cases hc
    exact ⟨y, List.concat_eq_append, hx⟩

theorem kinds_dedents (closed : List Nat) (position : Nat) :
    (closed.map fun _ => mark .dedent position).map Token.kind =
      List.replicate closed.length .dedent := by
  rw [List.map_map]
  exact List.map_const' ..

/-- Behind lines with some indentation the outermost block is still open.  If all of them are
indented more than it, they hang off the line in front of them. -/
theorem Starts.through {P : List Char → Prop} {fresh : Bool} {n m b : Nat} {ps : List Piece}
    (h : Starts P fresh n ps m) (hP : ∀ gap, P gap → 0 < indentation gap) {x : List Nat}
    (hs : State.Nested ⟨x ++ [b], n, fresh⟩) (hn : fresh = true → n = 0) {start : Nat}
    (herrors : (through start ⟨x ++ [b], n, fresh⟩ ps).errors = []) :
    ∃ y fresh', (through start ⟨x ++ [b], n, fresh⟩ ps).state = ⟨y ++ [b], m, fresh'⟩ ∧
      State.Nested ⟨y ++ [b], m, fresh'⟩ ∧ (fresh' = true → m = 0) ∧
      ((∀ gap, P gap → b < indentation gap) → ∀ more, Token.Hung y.length fresh' more →
        Token.Hung x.length fresh
          ((through start ⟨x ++ [b], n, fresh⟩ ps).tokens.map Token.kind ++ more)) := by
  induction h generalizing x start with
  | nil => exact ⟨x, _, rfl, hs, hn, fun _ _ hmore => hmore⟩
  | @newline fresh n m p ps hk _ ih =>
    unfold Layout.through at herrors ⊢
    dsimp only at herrors ⊢
    obtain ⟨hhere, hrest⟩ := List.append_eq_nil_iff.1 herrors
    rcases step_cases hn hhere with ⟨-, hdrop, hstep⟩ | ⟨-, hfresh, hzero, hstep⟩ |
      ⟨hne, -⟩ | ⟨hne, -⟩ | ⟨hne, -⟩
    · have hstays : (fresh || n == 0) = fresh := by
        rcases hdrop with hfresh | hne
        · have hfresh : fresh = true := hfresh
          rw [hfresh]
          rfl
        · have hne : n ≠ 0 := hne
          simp [hne]
      rw [hstays] at ih
      rw [hstep] at hrest ⊢
      exact ih hs hn hrest
    · have hfresh : fresh = false := hfresh
      have hzero : n = 0 := hzero
      subst hfresh hzero
      rw [hstep] at hrest ⊢
      obtain ⟨y, fresh', hstate, hnested, hm, hung⟩ := ih hs (fun _ => rfl) hrest
      exact ⟨y, fresh', hstate, hnested, hm, fun hb more hmore =>
        .newline (by simp) (hung hb more hmore)⟩
    all_goals exact absurd hk hne
  | @token fresh n l m p ps hk hgap hcounts _ ih =>
    unfold Layout.through at herrors ⊢
    dsimp only at herrors ⊢
    obtain ⟨hhere, hrest⟩ := List.append_eq_nil_iff.1 herrors
    rcases step_cases hn hhere with ⟨hnewline, -⟩ | ⟨hnewline, -⟩ | ⟨-, hfresh, l', hl', hstep⟩ |
      ⟨-, hfresh, l', hl', hw, hstep⟩ | ⟨-, hfresh, l', closed, levels, hl', hlevels, hw, hstep⟩
    · exact absurd hnewline hk.2.1
    · exact absurd hnewline hk.2.1
    all_goals
      obtain rfl := hcounts.unique hl'
      rw [hstep] at hrest ⊢
    · obtain ⟨y, fresh', hstate, hnested, hm, hung⟩ := ih hs (by simp) hrest
      refine ⟨y, fresh', hstate, hnested, hm, fun hb more hmore => ?_⟩
      exact .word hk.1 hk.2.1 (by rw [show fresh = false from hfresh]; simp) (hung hb more hmore)
    · obtain ⟨y, fresh', hstate, hnested, hm, hung⟩ :=
        ih (x := indentation p.gap :: x) (State.Nested.push hs hw) (by simp) hrest
      refine ⟨y, fresh', hstate, hnested, hm, fun hb more hmore => ?_⟩
      exact .indent (fun _ => hfresh) (.word hk.1 hk.2.1 (by simp) (hung hb more hmore))
    · obtain ⟨y, rfl, rfl⟩ := suffix_of_headD hlevels hw (hP _ (hgap hfresh))
      have hnested : State.Nested ⟨y ++ [b], l, false⟩ := by
        have hs : (closed ++ (y ++ [b] ++ [0])).Pairwise (· > ·) := by
          simpa only [State.Nested, List.append_assoc] using hs
        exact (List.pairwise_append.1 hs).2.1
      obtain ⟨z, fresh', hstate, hnested, hm, hung⟩ := ih hnested (by simp) hrest
      refine ⟨z, fresh', hstate, hnested, hm, fun hb more hmore => ?_⟩
      have hy : y.length ≠ 0 := by
        intro hzero
        obtain rfl := List.length_eq_zero_iff.1 hzero
        have := hb _ (hgap hfresh)
        simp only [List.nil_append, List.headD_cons] at hw
        omega
      have hfresh : fresh = true := hfresh
      subst hfresh
      rw [List.map_append, List.map_append, kinds_dedents, List.append_assoc, List.append_assoc,
        List.length_append]
      exact Token.Hung.dedents_append hy (.word hk.1 hk.2.1 (fun _ => hy) (hung hb more hmore))

/-- A line that is indented no more than the outermost block is indented like it, and closes the
others. -/
theorem step_outermost {x : List Nat} {n b : Nat} (hs : State.Nested ⟨x ++ [b], n, true⟩)
    (hn : n = 0) (hk : p.kind ≠ .newline) (hpos : 0 < indentation p.gap)
    (hw : indentation p.gap ≤ b) (h : (step p.gap ⟨p.kind, span⟩ ⟨x ++ [b], n, true⟩).errors = []) :
    indentation p.gap = b ∧ ∃ l, p.kind.Counts n l ∧ step p.gap ⟨p.kind, span⟩ ⟨x ++ [b], n, true⟩ =
      ⟨⟨[b], l, false⟩, (x.map fun _ => mark .dedent span.start) ++ [⟨p.kind, span⟩], []⟩ := by
  rcases step_cases (fun _ => hn) h with ⟨hnewline, -⟩ | ⟨hnewline, -⟩ | ⟨-, hfresh, -⟩ |
    ⟨-, -, l, -, hlt, -⟩ | ⟨-, -, l, closed, levels, hl, hlevels, hhead, hstep⟩
  · exact absurd hnewline hk
  · exact absurd hnewline hk
  · cases hfresh
  · exfalso
    cases x with
    | nil => exact absurd hw (Nat.not_le.2 hlt)
    | cons top x =>
      have : b < top := List.rel_of_pairwise_cons hs (by simp)
      have hlt : top < indentation p.gap := hlt
      omega
  · obtain ⟨y, rfl, rfl⟩ := suffix_of_headD hlevels hhead hpos
    cases y with
    | nil =>
      refine ⟨hhead, l, hl, ?_⟩
      rw [List.append_nil] at hstep ⊢
      exact hstep
    | cons top y =>
      exfalso
      unfold State.Nested at hs
      rw [List.append_assoc, List.append_assoc] at hs
      have : b < top := List.rel_of_pairwise_cons (List.pairwise_append.1 hs).2.1 (by simp)
      have hhead : indentation p.gap = top := hhead
      omega

/-- Tokens that are marks change no count of brackets. -/
theorem counts_filter {ts : List Token} {n m : Nat} (h : Counts n (ts.map Token.kind) m) :
    Counts n ((ts.filter isInner).map Token.kind) m := by
  induction ts generalizing n with
  | nil => exact h
  | cons t ts ih =>
    cases h with
    | cons hk hts =>
      rw [List.filter_cons]
      split
      · exact .cons hk (ih hts)
      · next hinner =>
        obtain ⟨kind, span⟩ := t
        cases kind with
        | newline | indent | dedent | eof =>
          cases hk
          exact ih hts
        | _ => exact absurd rfl hinner

theorem lt_of_nested {x base : List Nat} {n : Nat} {fresh : Bool}
    (hs : State.Nested ⟨x ++ base, n, fresh⟩) {w : Nat} (hw : w ∈ x) : base.headD 0 < w := by
  unfold State.Nested at hs
  rw [List.append_assoc] at hs
  exact (List.pairwise_append.1 hs).2.2 w hw _ (headD_mem base)

/-- The tokens are those of the front of some pieces and of marks.  The lines that start there are
indented by more than `b`, all brackets are closed behind them, and a newline follows unless nothing
does. -/
def Covers (b : Nat) (fresh : Bool) (n start : Nat) (ps : List Piece) (used : List Token) : Prop :=
  ∃ front back, ps = front ++ back ∧ Starts (b < indentation ·) fresh n front 0 ∧
    (Piece.place start front).filter isInner = used.filter isInner ∧
    (∀ p ∈ front.getLast?, p.kind ≠ .newline) ∧
    (front = [] ∧ fresh = true ∨ back = [] ∨ ∃ q more, back = q :: more ∧ q.kind = .newline)

namespace Covers

variable {b n l start : Nat} {fresh : Bool} {ps : List Piece} {used used' : List Token}

/-- No token is of any piece. -/
theorem marks (hused : used.filter isInner = []) (hcounts : Counts n (used.map Token.kind) 0)
    (h : fresh = true ∨ ps = []) : Covers b fresh n start ps used := by
  have hzero := counts_filter hcounts
  rw [hused] at hzero
  cases hzero
  exact ⟨[], ps, rfl, .nil, hused.symm, by simp, h.imp (⟨rfl, ·⟩) .inl⟩

/-- A newline is left behind unless there is more to come. -/
theorem newline (hp : p.kind = .newline) (hused : used'.filter isInner = used.filter isInner)
    (h : Covers b (fresh || n == 0) n (start + Text.byteLength p.gap + Text.byteLength p.chars) ps
      used') :
    Covers b fresh n start (p :: ps) used := by
  obtain ⟨front, back, hsplit, hstarts, hplace, hlast, hback⟩ := h
  cases front with
  | nil =>
    cases hstarts
    exact ⟨[], p :: ps, rfl, .nil, hplace.trans hused, by simp, .inr (.inr ⟨p, ps, rfl, hp⟩)⟩
  | cons q front =>
    refine ⟨p :: q :: front, back, by rw [hsplit]; rfl, .newline hp hstarts, ?_, ?_, ?_⟩
    · rw [Piece.place, hp]
      exact hplace.trans hused
    · rwa [List.getLast?_cons_cons]
    · exact .inr (hback.resolve_left (by simp))

/-- A token of a line, or the first one of a further line. -/
theorem word (hp : p.kind.Inner) (hfresh : fresh = true → b < indentation p.gap)
    (hl : p.kind.Counts n l) (hused : used.filter isInner = ⟨p.kind, ⟨start + Text.byteLength p.gap,
      start + Text.byteLength p.gap + Text.byteLength p.chars⟩⟩ :: used'.filter isInner)
    (h : Covers b false l (start + Text.byteLength p.gap + Text.byteLength p.chars) ps used') :
    Covers b fresh n start (p :: ps) used := by
  obtain ⟨front, back, hsplit, hstarts, hplace, hlast, hback⟩ := h
  refine ⟨p :: front, back, by rw [hsplit]; rfl, .token hp hfresh hl hstarts, ?_, ?_, ?_⟩
  · rw [hused, Piece.place, List.filter_cons, if_pos (isInner_of_inner hp), hplace]
  · cases front with
    | nil =>
      intro q hq
      cases hq
      exact hp.2.1
    | cons q front => rwa [List.getLast?_cons_cons]
  · exact .inr (hback.resolve_left (by simp))

end Covers

/-! ## What hangs off a line, piece by piece -/

/-- The position behind a piece that stands behind a position. -/
abbrev stopAt (start : Nat) (p : Piece) : Nat :=
  start + Text.byteLength p.gap + Text.byteLength p.chars

/-- The token of a piece that stands behind a position. -/
abbrev tokenAt (start : Nat) (p : Piece) : Token :=
  ⟨p.kind, ⟨start + Text.byteLength p.gap, stopAt start p⟩⟩

/-- The tokens `used` are the rest of what hangs off a line, and pieces become them and what
follows.  The blocks `x` are open that hang off the line, and the blocks `base` around it. -/
structure HangsOff (base x : List Nat) (n : Nat) (fresh : Bool) (start stop : Nat) (ps : List Piece)
    (used rest : List Token) : Prop where
  nested : State.Nested ⟨x ++ base, n, fresh⟩
  brackets : fresh = true → n = 0
  errors : (through start ⟨x ++ base, n, fresh⟩ ps).errors = []
  tokens : (through start ⟨x ++ base, n, fresh⟩ ps).tokens ++
    finish stop (through start ⟨x ++ base, n, fresh⟩ ps).state = used ++ rest
  hung : Token.Hung x.length fresh (used.map Token.kind)
  counts : Counts n (used.map Token.kind) 0

namespace HangsOff

variable {base x : List Nat} {n l start stop : Nat} {fresh : Bool} {ps : List Piece}
  {used rest : List Token}

/-- Where there are no more pieces, marks are left. -/
theorem of_nil (h : HangsOff base x n fresh start stop [] used rest) :
    used.filter isInner = [] := by
  have hfront : used <+: finish stop ⟨x ++ base, n, fresh⟩ := ⟨rest, h.tokens.symm⟩
  have hfinish : (finish stop ⟨x ++ base, n, fresh⟩).filter isInner = [] := by
    unfold finish
    rw [List.filter_append, List.filter_append, filter_isInner_mark]
    split <;> rfl
  exact List.prefix_nil.1 (hfinish ▸ hfront.filter isInner)

/-- What the pieces behind the first one become. -/
theorem behind (h : HangsOff base x n fresh start stop (p :: ps) used rest) {s : State}
    {ts : List Token} (hstep : step p.gap (tokenAt start p) ⟨x ++ base, n, fresh⟩ = ⟨s, ts, []⟩) :
    (through (stopAt start p) s ps).errors = [] ∧
      ts ++ ((through (stopAt start p) s ps).tokens ++
        finish stop (through (stopAt start p) s ps).state) = used ++ rest := by
  have herrors := h.errors
  have htokens := h.tokens
  unfold Layout.through at herrors htokens
  dsimp only at herrors htokens
  rw [hstep] at herrors htokens
  exact ⟨(List.append_eq_nil_iff.1 herrors).2, by rwa [List.append_assoc] at htokens⟩

/-- The rest of a line begins with its next token. -/
theorem exists_cons (h : HangsOff base x n false start stop (p :: ps) used rest) {t : Token}
    {more : List Token} (htokens : t :: more = used ++ rest) :
    ∃ used', used = t :: used' ∧ more = used' ++ rest := by
  cases used with
  | nil => exact absurd (Token.Hung.of_nil h.hung).2 Bool.false_ne_true
  | cons u used =>
    obtain ⟨rfl, hbehind⟩ := List.cons.inj htokens
    exact ⟨used, rfl, hbehind⟩

/-- A newline is dropped. -/
theorem dropped (h : HangsOff base x n fresh start stop (p :: ps) used rest)
    (hdrop : fresh = true ∨ n ≠ 0) (hstep : step p.gap (tokenAt start p) ⟨x ++ base, n, fresh⟩ =
      ⟨⟨x ++ base, n, fresh⟩, [], []⟩) :
    HangsOff base x n (fresh || n == 0) (stopAt start p) stop ps used rest := by
  obtain ⟨herrors, htokens⟩ := h.behind hstep
  have hstays : (fresh || n == 0) = fresh := by
    rcases hdrop with hfresh | hne
    · rw [hfresh]
      rfl
    · simp [hne]
  rw [hstays]
  exact ⟨h.nested, h.brackets, herrors, htokens, h.hung, h.counts⟩

/-- A newline ends a line. -/
theorem ended (h : HangsOff base x 0 false start stop (p :: ps) used rest) {span : Span}
    (hstep : step p.gap (tokenAt start p) ⟨x ++ base, 0, false⟩ =
      ⟨⟨x ++ base, 0, true⟩, [⟨.newline, span⟩], []⟩) :
    ∃ used', used'.filter isInner = used.filter isInner ∧
      HangsOff base x 0 true (stopAt start p) stop ps used' rest := by
  obtain ⟨herrors, htokens⟩ := h.behind hstep
  obtain ⟨used', rfl, hbehind⟩ := h.exists_cons htokens
  have hung := h.hung
  have hcounts := h.counts
  rw [List.map_cons] at hung hcounts
  refine ⟨used', by rw [List.filter_cons]; rfl, h.nested, fun _ => rfl, herrors, hbehind,
    hung.of_newline, ?_⟩
  cases hcounts with
  | cons hu hcounts =>
    cases hu
    exact hcounts

/-- A line goes on. -/
theorem goesOn (h : HangsOff base x n false start stop (p :: ps) used rest) (hp : p.kind.Inner)
    (hl : p.kind.Counts n l) (hstep : step p.gap (tokenAt start p) ⟨x ++ base, n, false⟩ =
      ⟨⟨x ++ base, l, false⟩, [tokenAt start p], []⟩) :
    ∃ used', used.filter isInner = tokenAt start p :: used'.filter isInner ∧
      HangsOff base x l false (stopAt start p) stop ps used' rest := by
  obtain ⟨herrors, htokens⟩ := h.behind hstep
  obtain ⟨used', rfl, hbehind⟩ := h.exists_cons htokens
  have hung := h.hung
  have hcounts := h.counts
  rw [List.map_cons] at hung hcounts
  refine ⟨used', ?_, h.nested, by simp, herrors, hbehind, (hung.of_word hp).2, ?_⟩
  · rw [List.filter_cons, if_pos (isInner_of_inner (t := tokenAt start p) hp)]
  · cases hcounts with
    | cons hu hcounts =>
      obtain rfl := hl.unique hu
      exact hcounts

/-- A line opens a block, unless what hangs off is over in front of it. -/
theorem opened (h : HangsOff base x n true start stop (p :: ps) used rest) (hp : p.kind.Inner)
    (hl : p.kind.Counts n l) (hw : (x ++ base).headD 0 < indentation p.gap)
    (hstep : step p.gap (tokenAt start p) ⟨x ++ base, n, true⟩ =
      ⟨⟨indentation p.gap :: (x ++ base), l, false⟩,
        [mark .indent (tokenAt start p).span.start, tokenAt start p], []⟩) :
    used.filter isInner = [] ∨ base.headD 0 < indentation p.gap ∧
      ∃ used', used.filter isInner = tokenAt start p :: used'.filter isInner ∧
        HangsOff base (indentation p.gap :: x) l false (stopAt start p) stop ps used' rest := by
  have hnested : State.Nested ⟨indentation p.gap :: x ++ base, l, false⟩ :=
    State.Nested.push h.nested hw
  obtain ⟨herrors, htokens⟩ := h.behind hstep
  cases used with
  | nil => exact .inl rfl
  | cons u used =>
    obtain ⟨rfl, hbehind⟩ := List.cons.inj htokens
    have hung := Token.Hung.of_indent h.hung
    have hcounts := h.counts
    cases used with
    | nil => exact absurd (Token.Hung.of_nil hung).1 (Nat.succ_ne_zero _)
    | cons u used =>
      obtain ⟨rfl, hbehind'⟩ := List.cons.inj hbehind
      rw [List.map_cons] at hung hcounts
      refine .inr ⟨lt_of_nested hnested List.mem_cons_self, used, ?_, hnested, by simp, herrors,
        hbehind', (hung.of_word hp).2, ?_⟩
      · rw [List.filter_cons, if_neg (by simp [isInner, mark]), List.filter_cons,
          if_pos (isInner_of_inner (t := tokenAt start p) hp)]
      · cases hcounts with
        | cons hu hcounts =>
          cases hu
          cases hcounts with
          | cons hu hcounts =>
            obtain rfl := hl.unique hu
            exact hcounts

/-- A line closes blocks that hang off, or what hangs off is over in front of it. -/
theorem closed (h : HangsOff base x n true start stop (p :: ps) used rest) (hp : p.kind.Inner)
    (hl : p.kind.Counts n l) {gone levels : List Nat} (hlevels : x ++ base = gone ++ levels)
    (hw : indentation p.gap = levels.headD 0)
    (hstep : step p.gap (tokenAt start p) ⟨x ++ base, n, true⟩ = ⟨⟨levels, l, false⟩,
      (gone.map fun _ => mark .dedent (tokenAt start p).span.start) ++ [tokenAt start p], []⟩) :
    used.filter isInner = [] ∨ base.headD 0 < indentation p.gap ∧
      ∃ y used', used.filter isInner = tokenAt start p :: used'.filter isInner ∧
        HangsOff base y l false (stopAt start p) stop ps used' rest := by
  obtain ⟨herrors, htokens⟩ := h.behind hstep
  rw [List.append_assoc] at htokens
  rcases List.append_eq_append_iff.1 htokens with ⟨as, rfl, has⟩ | ⟨cs, hcs, -⟩
  · cases as with
    | nil =>
      rw [List.append_nil]
      exact .inl (filter_isInner_mark gone _)
    | cons u used =>
      obtain ⟨rfl, hbehind⟩ := List.cons.inj has
      have hung := h.hung
      have hcounts := h.counts
      rw [List.map_append, kinds_dedents, List.map_cons] at hung hcounts
      obtain ⟨e, hlength, hline⟩ := hung.of_dedents
      obtain ⟨he, hmore⟩ := hline.of_word hp
      -- What is left open hangs off the line as well, and the line is indented like it.
      obtain ⟨y, rfl, rfl⟩ : ∃ y, levels = y ++ base ∧ x = gone ++ y := by
        rcases List.append_eq_append_iff.1 hlevels with ⟨y, rfl, -⟩ | ⟨y, rfl, hy⟩
        · rw [List.length_append] at hlength
          exact absurd (show e = 0 by omega) (he rfl)
        · exact ⟨y, hy, rfl⟩
      rw [List.length_append, Nat.add_left_cancel_iff] at hlength
      have hnested : State.Nested ⟨y ++ base, l, false⟩ := by
        have hs : (gone ++ (y ++ base ++ [0])).Pairwise (· > ·) := by
          simpa only [State.Nested, List.append_assoc] using h.nested
        exact (List.pairwise_append.1 hs).2.1
      have hb : base.headD 0 < indentation p.gap := by
        cases y with
        | nil => exact absurd hlength.symm (he rfl)
        | cons top y =>
          rw [hw]
          exact lt_of_nested hnested List.mem_cons_self
      refine .inr ⟨hb, y, used, ?_, hnested, by simp, herrors, hbehind, hlength ▸ hmore, ?_⟩
      · rw [List.filter_append, filter_isInner_mark, List.nil_append, List.filter_cons,
          if_pos (isInner_of_inner (t := tokenAt start p) hp)]
      · cases Counts.of_dedents hcounts with
        | cons hu hcounts =>
          obtain rfl := hl.unique hu
          exact hcounts
  · have hfront : used <+: gone.map fun _ => mark .dedent (tokenAt start p).span.start :=
      ⟨cs, hcs.symm⟩
    exact .inl (List.prefix_nil.1 (filter_isInner_mark gone _ ▸ hfront.filter isInner))

/-- What hangs off a line is over, or it goes on with a newline, or with a token. -/
theorem step_cases (h : HangsOff base x n fresh start stop (p :: ps) used rest)
    (hp : p.kind ≠ .newline → p.kind.Inner) :
    (fresh = true ∧ used.filter isInner = []) ∨
    (p.kind = .newline ∧ ∃ used', used'.filter isInner = used.filter isInner ∧
      HangsOff base x n (fresh || n == 0) (stopAt start p) stop ps used' rest) ∨
    (p.kind.Inner ∧ (fresh = true → base.headD 0 < indentation p.gap) ∧ ∃ y l used',
      p.kind.Counts n l ∧ used.filter isInner = tokenAt start p :: used'.filter isInner ∧
      HangsOff base y l false (stopAt start p) stop ps used' rest) := by
  have hhere : (step p.gap (tokenAt start p) ⟨x ++ base, n, fresh⟩).errors = [] := by
    have herrors := h.errors
    unfold Layout.through at herrors
    exact (List.append_eq_nil_iff.1 herrors).1
  rcases Layout.step_cases h.brackets hhere with ⟨hk, hdrop, hstep⟩ | ⟨hk, hfresh, hzero, hstep⟩ |
    ⟨hk, hfresh, l, hl, hstep⟩ | ⟨hk, hfresh, l, hl, hw, hstep⟩ |
    ⟨hk, hfresh, l, gone, levels, hl, hlevels, hw, hstep⟩
  · exact .inr (.inl ⟨hk, used, rfl, h.dropped hdrop hstep⟩)
  · obtain rfl : fresh = false := hfresh
    obtain rfl : n = 0 := hzero
    exact .inr (.inl ⟨hk, h.ended hstep⟩)
  · obtain rfl : fresh = false := hfresh
    obtain ⟨used', hused, hrest⟩ := h.goesOn (hp hk) hl hstep
    exact .inr (.inr ⟨hp hk, by simp, x, l, used', hl, hused, hrest⟩)
  · obtain rfl : fresh = true := hfresh
    rcases h.opened (hp hk) hl hw hstep with hover | ⟨hb, used', hused, hrest⟩
    · exact .inl ⟨rfl, hover⟩
    · exact .inr (.inr ⟨hp hk, fun _ => hb, _, l, used', hl, hused, hrest⟩)
  · obtain rfl : fresh = true := hfresh
    rcases h.closed (hp hk) hl hlevels hw hstep with hover | ⟨hb, y, used', hused, hrest⟩
    · exact .inl ⟨rfl, hover⟩
    · exact .inr (.inr ⟨hp hk, fun _ => hb, y, l, used', hl, hused, hrest⟩)

/-- The tokens of what hangs off a line are those of pieces. -/
theorem covers (hps : ∀ p ∈ ps, p.kind ≠ .newline → p.kind.Inner)
    (h : HangsOff base x n fresh start stop ps used rest) :
    Covers (base.headD 0) fresh n start ps used := by
  induction ps generalizing x n fresh start used with
  | nil => exact .marks h.of_nil h.counts (.inr rfl)
  | cons p ps ih =>
    obtain ⟨hp, hps⟩ := List.forall_mem_cons.1 hps
    rcases h.step_cases hp with ⟨hfresh, hover⟩ | ⟨hk, used', hused, hrest⟩ |
      ⟨hinner, hb, y, l, used', hl, hused, hrest⟩
    · exact .marks hover h.counts (.inl hfresh)
    · exact .newline hk hused (ih hps hrest)
    · exact .word hinner hb hl hused (ih hps hrest)

end HangsOff

end Layout

end StagedScript
