import StagedScript.Proofs.Layout.Located

/-!
# Where lines break

Between the last token of a line and the first one of the next line the layout puts the end of the
line, and then the start of a block or the ends of some.  Whatever part of that leaves no block open
has the ends of all blocks that were open.
-/

namespace StagedScript

namespace Token

variable {n : Nat} {fresh : Bool} {ks ls : List Kind}

/-- What the layout puts in front of a line: the start of a block, or the ends of some. -/
inductive Lead : List Kind → Prop
  | opens : Lead [.indent]
  | closes (n : Nat) : Lead (List.replicate n .dedent)

/-- What the layout puts in front of a word, where a line starts or goes on. -/
def Break (fresh : Bool) (ks : List Kind) : Prop :=
  if fresh then Lead ks else ks = [] ∨ ∃ ls, ks = .newline :: ls ∧ Lead ls

/-- With this many blocks open, so many ends of blocks leave none open. -/
theorem eq_of_depthAfter_dedents {m : Nat} (h : depthAfter n (List.replicate m .dedent) = some 0) :
    m = n := by
  induction m generalizing n with
  | zero =>
    cases h
    rfl
  | succ m ih =>
    cases n with
    | zero => cases h
    | succ n => exact congrArg (· + 1) (ih h)

/-- Ends of blocks in front of a line that leave no block open. -/
theorem Lead.closed (h : Lead ls) (hks : ks <+: ls) (hdepth : depthAfter n ks = some 0) :
    ks = List.replicate n .dedent := by
  cases h with
  | opens =>
    rcases List.prefix_cons_iff.1 hks with rfl | ⟨t, rfl, ht⟩
    · cases hdepth
      rfl
    · rw [List.prefix_nil.1 ht] at hdepth
      cases hdepth
  | closes m =>
    obtain ⟨hlength, hks⟩ := List.prefix_replicate_iff.1 hks
    rw [hks] at hdepth
    rw [hks, eq_of_depthAfter_dedents hdepth]

/-- What ends a line and leaves no block open. -/
theorem Break.closed (h : Break false ls) (hks : ks <+: ls) (hne : ks ≠ [])
    (hdepth : depthAfter n ks = some 0) : ks = .newline :: List.replicate n .dedent := by
  rcases h with rfl | ⟨ls, rfl, hls⟩
  · exact absurd (List.prefix_nil.1 hks) hne
  · rcases List.prefix_cons_iff.1 hks with rfl | ⟨ks, rfl, hks⟩
    · exact absurd rfl hne
    · have hbehind : ks <+: ls := (List.cons_prefix_cons.1 hks).2
      exact congrArg (Kind.newline :: ·) (hls.closed hbehind hdepth)

end Token

namespace Layout

open Token (depthAfter depthAfter_flat depthAfter_indent)

variable {ps : List Piece} {s : State} {start : Nat}

/-- Behind some pieces as many blocks are open as the layout tells. -/
theorem through_depthAfter (hn : s.fresh = true → s.brackets = 0)
    (hps : ∀ p ∈ ps, p.kind ≠ .newline → p.kind.Inner)
    (herrors : (through start s ps).errors = []) :
    depthAfter s.levels.length ((through start s ps).tokens.map Token.kind) =
      some (through start s ps).state.levels.length := by
  induction ps generalizing s start with
  | nil => rfl
  | cons p ps ih =>
    obtain ⟨hp, hps⟩ := List.forall_mem_cons.1 hps
    unfold through at herrors ⊢
    dsimp only at herrors ⊢
    obtain ⟨hhere, hrest⟩ := List.append_eq_nil_iff.1 herrors
    rcases step_cases hn hhere with ⟨hk, hdrop, hstep⟩ | ⟨hk, hfresh, hzero, hstep⟩ |
      ⟨hk, hfresh, l, hl, hstep⟩ | ⟨hk, hfresh, l, hl, hw, hstep⟩ |
      ⟨hk, hfresh, l, closed, levels, hl, hlevels, hw, hstep⟩
    all_goals rw [hstep] at hrest ⊢
    · exact ih hn hps hrest
    · exact ih (s := ⟨s.levels, s.brackets, true⟩) (fun _ => hzero) hps hrest
    · rw [List.map_append, List.map_singleton, List.singleton_append, depthAfter_flat (hp hk).1]
      exact ih (s := ⟨s.levels, l, false⟩) (by simp) hps hrest
    · rw [List.map_append, List.map_cons, List.map_singleton, List.cons_append,
        List.singleton_append]
      refine (depthAfter_indent _ _).trans ?_
      rw [depthAfter_flat (hp hk).1]
      exact ih (s := ⟨indentation p.gap :: s.levels, l, false⟩) (by simp) hps hrest
    · have hdedents (position : Nat) : depthAfter (closed.length + levels.length)
          ((closed.map fun _ => mark .dedent position).map Token.kind) = some levels.length := by
        rw [List.map_map]
        exact depthAfter_dedents closed levels.length position
      rw [List.map_append, List.map_append, List.append_assoc, hlevels, List.length_append,
        Token.depthAfter_append, hdedents, Option.bind_some, List.map_singleton,
        List.singleton_append, depthAfter_flat (hp hk).1]
      exact ih (s := ⟨levels, l, false⟩) (by simp) hps hrest

/-- In front of every word there are the marks of a break, or none. -/
theorem through_break (stop : Nat) (hn : s.fresh = true → s.brackets = 0)
    (hps : ∀ p ∈ ps, p.kind ≠ .newline → p.kind.Inner)
    (herrors : (through start s ps).errors = []) :
    ∃ marks t rest, (through start s ps).tokens ++ finish stop (through start s ps).state =
      marks ++ t :: rest ∧ Token.Break s.fresh (marks.map Token.kind) ∧
      (t.kind.Inner ∨ t.kind = .eof) := by
  induction ps generalizing s start with
  | nil =>
    have hdedents : Token.Lead ((s.levels.map fun _ => mark .dedent stop).map Token.kind) := by
      rw [kinds_dedents]
      exact .closes _
    cases hfresh : s.fresh with
    | true =>
      refine ⟨s.levels.map fun _ => mark .dedent stop, mark .eof stop, [], ?_, hdedents, .inr rfl⟩
      change finish stop s = _
      rw [finish, hfresh]
      rfl
    | false =>
      refine ⟨mark .newline stop :: s.levels.map fun _ => mark .dedent stop, mark .eof stop, [], ?_,
        .inr ⟨_, rfl, hdedents⟩, .inr rfl⟩
      change finish stop s = _
      rw [finish, hfresh]
      rfl
  | cons p ps ih =>
    obtain ⟨hp, hps⟩ := List.forall_mem_cons.1 hps
    unfold through at herrors ⊢
    dsimp only at herrors ⊢
    obtain ⟨hhere, hrest⟩ := List.append_eq_nil_iff.1 herrors
    rcases step_cases hn hhere with ⟨hk, hdrop, hstep⟩ | ⟨hk, hfresh, hzero, hstep⟩ |
      ⟨hk, hfresh, l, hl, hstep⟩ | ⟨hk, hfresh, l, hl, hw, hstep⟩ |
      ⟨hk, hfresh, l, closed, levels, hl, hlevels, hw, hstep⟩
    all_goals rw [hstep] at hrest ⊢
    · exact ih hn hps hrest
    · obtain ⟨marks, t, rest, htokens, hmarks, ht⟩ :=
        ih (s := ⟨s.levels, s.brackets, true⟩) (fun _ => hzero) hps hrest
      rw [hfresh]
      exact ⟨_ :: marks, t, rest, congrArg (List.cons _) htokens, .inr ⟨_, rfl, hmarks⟩, ht⟩
    · rw [hfresh]
      exact ⟨[], _, _, rfl, .inl rfl, .inl (hp hk)⟩
    · rw [hfresh]
      exact ⟨[_], _, _, rfl, .opens, .inl (hp hk)⟩
    · rw [hfresh, List.append_assoc, List.append_assoc]
      refine ⟨closed.map fun _ => mark .dedent _, _, _, rfl, ?_, .inl (hp hk)⟩
      rw [kinds_dedents]
      exact Token.Lead.closes _

end Layout

end StagedScript
