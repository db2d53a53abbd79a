import StagedScript.Proofs.Unrolling.Meaning
import StagedScript.Proofs.Unrolling.Specialized

/-!
# Control statements of unrolled loops

The unroller refuses a loop that a statement of its body leaves, and the check of a script refuses a
statement that leaves a loop where there is none.  Both look for the same statements, so that the
copies of a body can stand wherever the loop has stood.
-/

namespace StagedScript

namespace Stmt

mutual

/-- A statement that may stand outside of loops leaves none. -/
theorem exit?_of_placed {c : Surroundings} (hc : c.inLoop = false) (s : Stmt)
    (hs : misplaced? c s = none) : exit? s = none := by
  cases s with
  | brk span | cont span =>
    rw [misplaced?, hc] at hs
    cases hs
  | cond span test a b =>
    obtain ⟨ha, hb⟩ := Option.or_eq_none_iff.1 hs
    exact Option.or_eq_none_iff.2 ⟨exitIn?_of_placed hc a ha, exitIn?_of_placed hc b hb⟩
  | each span target iter b e => exact exitIn?_of_placed hc e (Option.or_eq_none_iff.1 hs).2
  | expr _ _ | assign _ _ _ | pass _ | ret _ _ | loop _ _ _ | define _ _ _ _ _ | class_ _ _ _ _ =>
      rfl

theorem exitIn?_of_placed {c : Surroundings} (hc : c.inLoop = false) (b : List Stmt)
    (hb : misplacedIn? c b = none) : exitIn? b = none := by
  cases b with
  | nil => rfl
  | cons s ss =>
    obtain ⟨hs, hss⟩ := Option.or_eq_none_iff.1 hb
    exact Option.or_eq_none_iff.2 ⟨exit?_of_placed hc s hs, exitIn?_of_placed hc ss hss⟩

end

/-- Of statements that may stand in a loop, those that do not leave it are those that may stand
outside of it as well. -/
theorem exitIn?_eq_none_iff {inFunction : Bool} {b : List Stmt}
    (hb : misplacedIn? ⟨inFunction, true⟩ b = none) :
    exitIn? b = none ↔ misplacedIn? ⟨inFunction, false⟩ b = none := by
  constructor
  · intro hexit
    exact (misplacedIn?_loop ⟨inFunction, false⟩ b hexit).symm.trans hb
  · exact exitIn?_of_placed rfl b

end Stmt

namespace Unroll

variable {known : Table Extent}

/-- The copies of a body may stand where the body may. -/
theorem placed_rounds {c : Surroundings} {b : List Stmt} (hb : Stmt.misplacedIn? c b = none)
    (span : Span) (target : Expr) (x : String) (n : Nat) :
    Stmt.misplacedIn? c (rounds span target x n b) = none := by
  rw [rounds_eq]
  cases n with
  | zero => rfl
  | succ n => rw [Unrolls.misplacedIn?_roundsFrom, hb]

mutual

/-- What a statement is replaced by may stand where the statement does. -/
theorem placed_stmt {c : Surroundings} (s : Stmt) {b : List Stmt} (hb : stmt known s = .ok b)
    (hs : Stmt.misplaced? c s = none) : Stmt.misplacedIn? c b = none := by
  have hone {s' : Stmt} (hs' : Stmt.misplaced? c s' = none) : Stmt.misplacedIn? c [s'] = none :=
    Option.or_eq_none_iff.2 ⟨hs', rfl⟩
  cases s with
  | expr _ _ | assign _ _ _ | pass _ | ret _ _ | brk _ | cont _ =>
    cases hb
    exact hone hs
  | cond span test a e =>
    obtain ⟨ha, he⟩ := Option.or_eq_none_iff.1 hs
    obtain ⟨a', ha', hb⟩ := Except.bind_eq_ok.1 hb
    obtain ⟨e', he', hb⟩ := Except.bind_eq_ok.1 hb
    cases hb
    exact hone (Option.or_eq_none_iff.2 ⟨placed_stmts a ha' ha, placed_stmts e he' he⟩)
  | loop span test body | define span name ds ps body | class_ span name base body =>
    obtain ⟨body', hbody', hb⟩ := Except.bind_eq_ok.1 hb
    cases hb
    exact hone (placed_stmts body hbody' hs)
  | each span target iter body els =>
    obtain ⟨hbody, hels⟩ := Option.or_eq_none_iff.1 hs
    unfold stmt at hb
    split at hb
    · next x extent hknown =>
      obtain ⟨n, hn, hb⟩ := Except.bind_eq_ok.1 hb
      obtain ⟨-, -, hexit⟩ := Unrolls.count_eq_ok hn
      split at hb
      · cases hb
        rfl
      · obtain ⟨body', hbody', hb⟩ := Except.bind_eq_ok.1 hb
        cases hb
        -- Nothing leaves the loop, so that its body may stand around it.
        rw [Stmt.misplacedIn?_loop c body hexit] at hbody
        exact placed_rounds (placed_stmts body hbody' hbody) span target x n
    · obtain ⟨body', hbody', hb⟩ := Except.bind_eq_ok.1 hb
      obtain ⟨els', hels', hb⟩ := Except.bind_eq_ok.1 hb
      cases hb
      exact hone (Option.or_eq_none_iff.2 ⟨placed_stmts body hbody' hbody,
          placed_stmts els hels' hels⟩)

/-- What statements are replaced by may stand where they do. -/
theorem placed_stmts {c : Surroundings} (b : List Stmt) {b' : List Stmt}
    (hb : stmts known b = .ok b') (hplaced : Stmt.misplacedIn? c b = none) :
    Stmt.misplacedIn? c b' = none := by
  cases b with
  | nil =>
    cases hb
    rfl
  | cons s ss =>
    obtain ⟨hs, hss⟩ := Option.or_eq_none_iff.1 hplaced
    obtain ⟨front, hfront, hb⟩ := Except.bind_eq_ok.1 hb
    obtain ⟨rest, hrest, hb⟩ := Except.bind_eq_ok.1 hb
    cases hb
    rw [Unrolls.misplacedIn?_append, placed_stmt s hfront hs, placed_stmts ss hrest hss]
    rfl

end

end Unroll

/-- The unroller and the check of control statements agree.

* Of the bodies that the check accepts in a loop, the unroller finds a statement that leaves the
  loop in exactly those that the check refuses outside of loops.
* A script that the check accepts is accepted when its loops have been unrolled, whatever is known
  of the names that they run over. -/
theorem Unroll.agrees_with_placement :
    (∀ (inFunction : Bool) (b : List Stmt), Stmt.misplacedIn? ⟨inFunction, true⟩ b = none →
      (Stmt.exitIn? b = none ↔ Stmt.misplacedIn? ⟨inFunction, false⟩ b = none)) ∧
    ∀ (known : Table Extent) (script script' : Script), script.misplaced? = none →
      Script.unroll known script = .ok () script' → script'.misplaced? = none := by
  refine ⟨fun inFunction b hb => Stmt.exitIn?_eq_none_iff hb,
    fun known script script' hplaced h => ?_⟩
  obtain ⟨b, hb, rfl⟩ := Script.unroll_eq_ok.1 h
  exact Unroll.placed_stmts script.body hb hplaced

/-- A loop over a name that a statement of its `else` clause would leave another loop from:

    for w in ys:
        break
    else:
        continue
-/
def sampleLeaving : Stmt :=
  .each ⟨0, 0⟩ (.name ⟨0, 0⟩ "w") (.name ⟨0, 0⟩ "ys") [.brk ⟨0, 0⟩] [.cont ⟨0, 0⟩]

/-- A loop that is kept, around one over a name with what replaces it, or not:

    while True:
        for v in xs:
            for w in ys:
                break
        break
-/
def sampleNest (replace : List Stmt → List Stmt) : Script where
  body := [.loop ⟨0, 0⟩ (.bool ⟨0, 0⟩ true)
    (replace [sampleLoop "w" "ys" [.brk ⟨0, 0⟩]] ++ [.brk ⟨0, 0⟩])]
  source := ⟨"sample", ""⟩
  lineOffset := 0

/-- What leaves a loop from an `else` clause is found, and what leaves another loop than the one
that is replaced stays in it. -/
theorem sampleNest_placed :
    (Stmt.misplacedIn? ⟨true, true⟩ [sampleLeaving] = none ∧
      (Stmt.exitIn? [sampleLeaving] = none ↔ Stmt.misplacedIn? ⟨true, false⟩ [sampleLeaving] =
        none)) ∧
    (sampleNest fun b => [sampleLoop "v" "xs" b]).misplaced? = none ∧
    Script.unroll (.ofList [("xs", .sized 2)]) (sampleNest fun b => [sampleLoop "v" "xs" b]) =
      .ok () (sampleNest (Unroll.rounds ⟨0, 0⟩ (.name ⟨0, 0⟩ "v") "xs" 2)) ∧
    (sampleNest (Unroll.rounds ⟨0, 0⟩ (.name ⟨0, 0⟩ "v") "xs" 2)).misplaced? = none := by
  have hleaving : Stmt.misplacedIn? ⟨true, true⟩ [sampleLeaving] = none := rfl
  have hplaced : (sampleNest fun b => [sampleLoop "v" "xs" b]).misplaced? = none := rfl
  have hunroll : Script.unroll (.ofList [("xs", .sized 2)])
      (sampleNest fun b => [sampleLoop "v" "xs" b]) =
      .ok () (sampleNest (Unroll.rounds ⟨0, 0⟩ (.name ⟨0, 0⟩ "v") "xs" 2)) := rfl
  obtain ⟨hexits, hscripts⟩ := Unroll.agrees_with_placement
  exact ⟨⟨hleaving, hexits true [sampleLeaving] hleaving⟩, hplaced, hunroll,
    hscripts _ _ _ hplaced hunroll⟩

end StagedScript
