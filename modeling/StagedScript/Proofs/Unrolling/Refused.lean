import StagedScript.Proofs.Unrolling.Expansion

/-!
# Refused unrolling

Unrolling goes through the statements in order, and stops at the first loop over a known name that
it cannot write out.  The statements have been taken out of the script by then, and they are not put
back: what is left is a script without statements, wherever the loop stands and however much has
been written out in front of it.
-/

namespace StagedScript

/-- What is made of a result is an error if the result is one. -/
theorem Except.bind_pure_eq_error {ε α β : Type} {x : Except ε α} {f : α → β} {e : ε} :
    (do return f (← x)) = Except.error e ↔ x = .error e := by
  cases x <;> simp [bind, Except.bind, pure, Except.pure]

namespace Unroll

/-- A loop over a known name is refused: it has an `else` clause, the number of its rounds is not
fixed, or its body leaves it. -/
inductive Refused (span : Span) (x : String) :
    Extent → List Stmt → List Stmt → Span × UnrollError.Cause → Prop
  | hasElse {extent : Extent} {body els : List Stmt} : els ≠ [] →
      Refused span x extent body els (span, .hasElse)
  | unsized {type : String} {body : List Stmt} :
      Refused span x (.unsized type) body [] (span, .unsized x type)
  | leaves {n : Nat} {body : List Stmt} {at_ : Span} {exit : LoopExit} :
      Stmt.exitIn? body = some (at_, exit) → Refused span x (.sized n) body [] (at_, .leaves exit x)

/-- The first loop that is refused stands behind statements that are unrolled.  It is the next
statement, or it stands in the body of the next statement, which is a loop that has rounds, or in
the blocks of one that is kept, which are taken one behind the other. -/
inductive FirstRefused (known : Table Extent) : List Stmt → Span × UnrollError.Cause → Prop
  | behind {s : Stmt} {b out : List Stmt} {e : Span × UnrollError.Cause} : stmt known s = .ok out →
      FirstRefused known b e → FirstRefused known (s :: b) e
  | loop {span at_ : Span} {target : Expr} {x : String} {extent : Extent} {body els b : List Stmt}
      {e : Span × UnrollError.Cause} : known.get? x = some extent →
      Refused span x extent body els e →
      FirstRefused known (.each span target (.name at_ x) body els :: b) e
  | round {span at_ : Span} {target : Expr} {x : String} {n : Nat} {body b : List Stmt}
      {e : Span × UnrollError.Cause} : known.get? x = some (.sized n) → n ≠ 0 →
      Stmt.exitIn? body = none →
      FirstRefused known body e →
      FirstRefused known (.each span target (.name at_ x) body [] :: b) e
  | block {s : Stmt} {b : List Stmt} {e : Span × UnrollError.Cause} :
      (∀ x ∈ s.iterated, known.get? x = none) → FirstRefused known s.blocks.flatten e →
      FirstRefused known (s :: b) e

variable {known : Table Extent} {span at_ : Span} {target : Expr} {x : String} {extent : Extent}
  {body els a b out : List Stmt} {s : Stmt} {e : Span × UnrollError.Cause}

/-! ## Where unrolling stops -/

theorem count_eq_error_iff :
    count span x extent body els = .error e ↔ Refused span x extent body els e := by
  unfold count
  constructor
  · intro h
    split at h
    · next hels =>
      cases h
      exact .hasElse (by simpa using hels)
    · next hels =>
      obtain rfl : els = [] := by simpa using hels
      split at h
      · cases h
        exact .unsized
      · split at h
        · next hexit =>
          cases h
          exact .leaves hexit
        · cases h
  · rintro (hels | _ | hexit)
    · rw [if_pos (by simpa using hels)]
    · rfl
    · rw [if_neg (by simp)]
      simp only [hexit]

theorem stmts_cons_eq_error : stmts known (s :: b) = .error e ↔
    stmt known s = .error e ∨ ∃ out, stmt known s = .ok out ∧ stmts known b = .error e := by
  rw [stmts, Except.bind_eq_error]
  exact or_congr_right (exists_congr fun front => and_congr_right fun _ =>
    Except.bind_pure_eq_error)

theorem stmts_append_eq_error : stmts known (a ++ b) = .error e ↔
    stmts known a = .error e ∨ ∃ out, stmts known a = .ok out ∧ stmts known b = .error e := by
  induction a with
  | nil => simp [stmts, pure, Except.pure]
  | cons s a ih =>
    rw [List.cons_append, stmts_cons_eq_error, stmts_cons_eq_error, ih]
    cases hs : stmt known s with
    | error e' => simp [stmts, hs, bind, Except.bind]
    | ok front =>
      cases ha : stmts known a <;> simp [stmts, hs, ha, bind, Except.bind, pure, Except.pure]

/-- In a loop over a known name it is the loop that is refused, or something in its rounds. -/
theorem each_eq_error (hx : known.get? x = some extent) :
    stmt known (.each span target (.name at_ x) body els) = .error e ↔
    Refused span x extent body els e ∨
      ∃ n, count span x extent body els = .ok n ∧ n ≠ 0 ∧ stmts known body = .error e := by
  have hknown : known? known (.name at_ x) = some (x, extent) := by simp [known?, hx]
  rw [stmt, hknown, ← count_eq_error_iff]
  refine Except.bind_eq_error.trans (or_congr_right (exists_congr fun n =>
      and_congr_right fun _ => ?_))
  split_ifs with hn
  · refine iff_of_false ?_ fun h => h.1 hn
    rintro ⟨⟩
  · rw [and_iff_right hn]
    exact Except.bind_pure_eq_error

/-- In a statement that is kept it is something in its blocks. -/
theorem stmt_eq_error (hs : ∀ x ∈ s.iterated, known.get? x = none) :
    stmt known s = .error e ↔ stmts known s.blocks.flatten = .error e := by
  have hone {make : List Stmt → Stmt} {a : List Stmt} :
      (do return [make (← stmts known a)]) = Except.error (α := List Stmt) e ↔
        stmts known [a].flatten = .error e := by
    rw [List.flatten_singleton]
    exact Except.bind_pure_eq_error
  have htwo {make : List Stmt → List Stmt → Stmt} {a b : List Stmt} :
      (do let a ← stmts known a; return [make a (← stmts known b)]) =
      Except.error (α := List Stmt) e ↔
        stmts known [a, b].flatten = .error e := by
    rw [List.flatten_cons, List.flatten_singleton, stmts_append_eq_error, Except.bind_eq_error]
    exact or_congr_right (exists_congr fun _ => and_congr_right fun _ => Except.bind_pure_eq_error)
  cases s with
  | expr _ _ | assign _ _ _ | pass _ | ret _ _ | brk _ | cont _ => exact iff_of_false nofun nofun
  | cond span test a b => exact htwo
  | loop span test b => exact hone
  | define span name decorators params b => exact hone
  | class_ span name base b => exact hone
  | each span target iter a b =>
    rw [stmt, known?_eq_none hs]
    exact htwo

namespace FirstRefused

theorem append_left (h : FirstRefused known a e) (b : List Stmt) :
    FirstRefused known (a ++ b) e := by
  induction h with
  | behind hs _ ih => exact .behind hs ih
  | loop hx hrefused => exact .loop hx hrefused
  | round hx hn hexit hbody => exact .round hx hn hexit hbody
  | block hs hblocks => exact .block hs hblocks

theorem append_right (ha : stmts known a = .ok out) (h : FirstRefused known b e) :
    FirstRefused known (a ++ b) e := by
  induction a generalizing out with
  | nil => exact h
  | cons s a ih =>
    obtain ⟨front, hs, ha⟩ := Except.bind_eq_ok.1 ha
    obtain ⟨rest, hrest, -⟩ := Except.bind_eq_ok.1 ha
    exact .behind hs (ih hrest)

theorem flatten {bs : List (List Stmt)}
    (hbs : ∀ c ∈ bs, stmts known c = .error e → FirstRefused known c e)
    (h : stmts known bs.flatten = .error e) : FirstRefused known bs.flatten e := by
  induction bs with
  | nil => cases h
  | cons c bs ih =>
    obtain ⟨hc, hbs⟩ := List.forall_mem_cons.1 hbs
    rw [List.flatten_cons] at h ⊢
    rcases stmts_append_eq_error.1 h with h | ⟨out, hout, h⟩
    · exact (hc h).append_left _
    · exact append_right hout (ih hbs h)

end FirstRefused

/-- Unrolling stops at the first loop that is refused, and nowhere else. -/
theorem stmts_eq_error_iff : stmts known b = .error e ↔ FirstRefused known b e := by
  constructor
  · intro h
    induction b using Stmt.blocks_induction with
    | h b ihblocks =>
      induction b with
      | nil => cases h
      | cons s b ih =>
        obtain ⟨hblocks, hrest⟩ := List.forall_mem_cons.1 ihblocks
        rcases stmts_cons_eq_error.1 h with hs | ⟨out, hs, hb⟩
        · by_cases hiterated : ∀ x ∈ s.iterated, known.get? x = none
          · exact .block hiterated (.flatten hblocks ((stmt_eq_error hiterated).1 hs))
          · simp only [not_forall] at hiterated
            obtain ⟨x, hx, hknown⟩ := hiterated
            obtain ⟨extent, hknown⟩ := Option.ne_none_iff_exists'.1 hknown
            cases s with
            | each span target iter body els =>
              obtain ⟨at_, rfl⟩ := Expr.mem_alone.1 hx
              rcases (each_eq_error hknown).1 hs with hrefused | ⟨n, hn, hn0, hbody⟩
              · exact .loop hknown hrefused
              · obtain ⟨rfl, rfl, hexit⟩ := Unrolls.count_eq_ok hn
                exact .round hknown hn0 hexit (hblocks body (by simp [Stmt.blocks]) hbody)
            | _ => cases hx
        · exact .behind hs (ih hrest hb)
  · intro h
    induction h with
    | behind hs _ ih => exact stmts_cons_eq_error.2 (.inr ⟨_, hs, ih⟩)
    | loop hx hrefused => exact stmts_cons_eq_error.2 (.inl ((each_eq_error hx).2 (.inl hrefused)))
    | round hx hn hexit _ ih =>
      refine stmts_cons_eq_error.2 (.inl ((each_eq_error hx).2 (.inr ⟨_, ?_, hn, ih⟩)))
      simp [count, hexit]
    | block hs _ ih => exact stmts_cons_eq_error.2 (.inl ((stmt_eq_error hs).2 ih))

end Unroll

/-! ## Refused scripts -/

/-- The error of a refused script is about the first loop that is refused, and the script has lost
its statements. -/
theorem Script.unroll_eq_error_iff {known : Table Extent} {script script' : Script}
    {e : UnrollError} :
    Script.unroll known script = .error e script' ↔
      (∃ span cause, Unroll.FirstRefused known script.body (span, cause) ∧
        e = ⟨script.location span, cause⟩) ∧ script' = { script with body := [] } := by
  rw [unroll_eq]
  simp only [← Unroll.stmts_eq_error_iff]
  cases Unroll.stmts known script.body with
  | ok b => simp
  | error at_ =>
    obtain ⟨span, cause⟩ := at_
    simp [eq_comm]

/-- A refused script is never what it was, and whatever is known the next time, it is then taken for
a script that there is nothing to unroll in. -/
theorem Script.unroll_refused_empties {known : Table Extent} {script script' : Script}
    {e : UnrollError} (h : Script.unroll known script = .error e script') :
    script.body ≠ [] ∧ script' = { script with body := [] } ∧
      ∀ known', Script.unroll known' script' = .ok () script' := by
  obtain ⟨⟨span, cause, hrefused, -⟩, rfl⟩ := Script.unroll_eq_error_iff.1 h
  refine ⟨?_, rfl, fun known' => Script.unroll_eq_ok.2 ⟨[], rfl, rfl⟩⟩
  intro hnil
  rw [hnil] at hrefused
  cases hrefused

/-- A script with a loop that can be unrolled in front of one that cannot. -/
def sampleRefused : Script where
  body := [
    .each ⟨0, 21⟩ (.name ⟨4, 5⟩ "u") (.name ⟨9, 11⟩ "xs") [.pass ⟨17, 21⟩] [],
    .each ⟨22, 44⟩ (.name ⟨26, 27⟩ "v") (.name ⟨31, 33⟩ "xs") [.brk ⟨39, 44⟩] []]
  source := ⟨"sample", "for u in xs:\n    pass\nfor v in xs:\n    break\n"⟩
  lineOffset := 0

/-- The second loop is refused for its `break`, and the first one is lost with it, also where
nothing is known the next time. -/
theorem sampleRefused_emptied :
    let known : Table Extent := .ofList [("xs", .sized 2)]
    let script' := { sampleRefused with body := [] }
    Script.unroll known sampleRefused =
      .error ⟨⟨"sample", 4, 5⟩, .leaves .brk "xs"⟩ script' ∧
    sampleRefused.body ≠ [] ∧ Script.unroll .empty script' = .ok () script' := by
  intro known script'
  have hunroll : Script.unroll known sampleRefused =
      .error ⟨⟨"sample", 4, 5⟩, .leaves .brk "xs"⟩ script' := by
    rfl
  obtain ⟨hbody, -, hagain⟩ := Script.unroll_refused_empties hunroll
  exact ⟨hunroll, hbody, hagain .empty⟩

end StagedScript
