import StagedScript.Proofs.Unrolling.Meaning

/-!
# Unrolled functions and shadowing

A function is made anew by a maker, whose parameters are the names with fixed values.  Loops are
unrolled by name alone, so the unrolled function computes what the other one does as long as no
scope around a loop over one of the names binds that name anew.  The body of a class does not see
the parameters of the function right around it, so for the classes of the maker all of them count
as bound.
-/

namespace StagedScript

namespace Stmt

mutual

/-- No scope of the statement that is around a loop over a known name hides the name.  Some names
are hidden around the statement; its classes do not see the parameters of the maker, if it is one of
the maker's own. -/
def Unshadowed (known : Table Extent) (bound params : String → Prop) : Stmt → Prop
  | each _ _ i b e =>
    (∀ x ∈ i.alone, known.contains x = true → ¬ bound x) ∧
    UnshadowedAll known bound params b ∧ UnshadowedAll known bound params e
  | cond _ _ a b => UnshadowedAll known bound params a ∧ UnshadowedAll known bound params b
  | loop _ _ b => UnshadowedAll known bound params b
  | define _ _ _ ps b =>
    UnshadowedAll known (fun x => bound x ∨ x ∈ Param.names ps ∨ x ∈ bindsAll b) (fun _ => False) b
  | class_ _ _ _ b => UnshadowedAll known (fun x => bound x ∨ params x ∨ x ∈ bindsAll b) params b
  | expr _ _ | assign _ _ _ | pass _ | ret _ _ | brk _ | cont _ => True

/-- No scope of the statements that is around a loop over a known name hides the name. -/
def UnshadowedAll (known : Table Extent) (bound params : String → Prop) : List Stmt → Prop
  | [] => True
  | s :: ss => Unshadowed known bound params s ∧ UnshadowedAll known bound params ss

end

variable {known : Table Extent}

mutual

theorem Unshadowed.reads {bound params : String → Prop} (s : Stmt)
    (hs : s.Unshadowed known bound params) :
    ∀ x ∈ s.iterates, known.contains x = true → ¬ bound x ∧ x ∈ s.reads := by
  cases s with
  | expr _ _ | assign _ _ _ | pass _ | ret _ _ | brk _ | cont _ =>
    intro x hx
    cases hx
  | cond span test a b =>
    intro x hx hk
    rcases List.mem_append.1 hx with hx | hx
    · exact (UnshadowedAll.reads a hs.1 x hx hk).imp id fun h => by simp [Stmt.reads, h]
    · exact (UnshadowedAll.reads b hs.2 x hx hk).imp id fun h => by simp [Stmt.reads, h]
  | loop span test b =>
    intro x hx hk
    exact (UnshadowedAll.reads b hs x hx hk).imp id fun h => by simp [Stmt.reads, h]
  | each span target iter b e =>
    intro x hx hk
    rw [iterates, List.mem_append, List.mem_append] at hx
    rcases hx with (hx | hx) | hx
    · obtain ⟨at_, rfl⟩ := Expr.mem_alone.1 hx
      exact ⟨hs.1 x hx hk, by simp [Stmt.reads, Expr.reads]⟩
    · exact (UnshadowedAll.reads b hs.2.1 x hx hk).imp id fun h => by simp [Stmt.reads, h]
    · exact (UnshadowedAll.reads e hs.2.2 x hx hk).imp id fun h => by simp [Stmt.reads, h]
  | define span name ds ps b =>
    intro x hx hk
    obtain ⟨hbound, hreads⟩ := UnshadowedAll.reads b hs x hx hk
    rw [not_or, not_or] at hbound
    exact ⟨hbound.1, by simp [Stmt.reads, without, hbound, hreads]⟩
  | class_ span name base b =>
    intro x hx hk
    obtain ⟨hbound, hreads⟩ := UnshadowedAll.reads b hs x hx hk
    rw [not_or, not_or] at hbound
    exact ⟨hbound.1, by simp [Stmt.reads, without, hbound, hreads]⟩

/-- A known name that a loop runs over is read, and not hidden around. -/
theorem UnshadowedAll.reads {bound params : String → Prop} (b : List Stmt)
    (hb : UnshadowedAll known bound params b) :
    ∀ x ∈ iteratesAll b, known.contains x = true → ¬ bound x ∧ x ∈ readsAll b := by
  cases b with
  | nil =>
    intro x hx
    cases hx
  | cons s ss =>
    intro x hx hk
    rcases List.mem_append.1 hx with hx | hx
    · exact (Unshadowed.reads s hb.1 x hx hk).imp id fun h => List.mem_append_left _ h
    · exact (UnshadowedAll.reads ss hb.2 x hx hk).imp id fun h => List.mem_append_right _ h

end

end Stmt

namespace Unrolls

variable {known : Table Extent} {b b' : List Stmt}

theorem misplacedIn?_append (c : Surroundings) (a b : List Stmt) :
    Stmt.misplacedIn? c (a ++ b) = (Stmt.misplacedIn? c a).or (Stmt.misplacedIn? c b) := by
  induction a with
  | nil => rfl
  | cons s a ih => rw [List.cons_append, Stmt.misplacedIn?, Stmt.misplacedIn?, ih, Option.or_assoc]

/-- The copies of a body misplace what the body does. -/
theorem misplacedIn?_roundsFrom (c : Surroundings) (span : Span) (target : Expr) (x : String)
    (b : List Stmt) (i n : Nat) :
    Stmt.misplacedIn? c (Unroll.roundsFrom span target x b i (n + 1)) = Stmt.misplacedIn? c b := by
  have hround (i : Nat) (rest : List Stmt) :
      Stmt.misplacedIn? c (Unroll.take span target x i :: (b ++ rest)) =
        (Stmt.misplacedIn? c b).or (Stmt.misplacedIn? c rest) := by
    rw [Stmt.misplacedIn?, misplacedIn?_append]
    rfl
  induction n generalizing i with
  | zero =>
    rw [Unroll.roundsFrom, hround]
    exact Option.or_none
  | succ n ih =>
    rw [Unroll.roundsFrom, hround, ih]
    exact Option.or_self

/-- Unrolled statements misplace the same control statement first. -/
theorem misplacedIn?_eq (hb : Unrolls known b b') (c : Surroundings) :
    Stmt.misplacedIn? c b' = Stmt.misplacedIn? c b := by
  induction hb generalizing c with
  | nil => rfl
  | plain _ _ ih => simp only [Stmt.misplacedIn?, ih]
  | cond _ _ _ iha ihb ih => simp only [Stmt.misplacedIn?, Stmt.misplaced?, iha, ihb, ih]
  | loop _ _ ihb ih => simp only [Stmt.misplacedIn?, Stmt.misplaced?, ihb, ih]
  | each _ _ _ _ ihb ihe ih => simp only [Stmt.misplacedIn?, Stmt.misplaced?, ihb, ihe, ih]
  | @rounds span at_ target x n b b' ss ss' _ hn hexit _ _ ihb ih =>
    obtain ⟨m, rfl⟩ := Nat.exists_eq_add_of_lt hn
    rw [Unroll.rounds_eq, Nat.zero_add, misplacedIn?_append, misplacedIn?_roundsFrom, ihb, ih]
    simp only [Stmt.misplacedIn?, Stmt.misplaced?, Stmt.misplacedIn?_loop c b hexit, Option.or_none]
  | define _ _ ihb ih => simp only [Stmt.misplacedIn?, Stmt.misplaced?, ihb, ih]
  | class_ _ _ ihb ih => simp only [Stmt.misplacedIn?, Stmt.misplaced?, ihb, ih]

/-- Loops over names that nothing around hides find what the names are bound to by the maker, among
the bindings here or what a function around has captured. -/
theorem resolvedAll_of_unshadowed (hb : Unrolls known b b') {c : Surroundings}
    (hplaced : Stmt.misplacedIn? c b = none) {bound params : String → Prop}
    (hclear : Stmt.UnshadowedAll known bound params b) {hidden : String → Prop}
    (hbound : ∀ x, hidden x → bound x) {σ : Sight} (hhere : ∀ x, ¬ params x → σ.here x = none)
    {outer : String → Option Value} (haround : σ.around? = some outer)
    (hfinds : ∀ x ∈ Stmt.iteratesAll b, ∀ n, known.get? x = some (.sized n) → ¬ bound x →
      ∃ v, (σ.here x).or (outer x) = some v ∧ v.Counts n ∧ n < Run.lengthLimit) :
    Stmt.ResolvedAll known hidden σ b := by
  induction hb generalizing c bound params hidden σ outer with
  | nil => exact trivial
  | @plain s ss ss' hs _ ih =>
    obtain ⟨-, hpss⟩ := Option.or_eq_none_iff.1 hplaced
    refine ⟨?_, ih hpss hclear.2 hbound hhere haround fun x hx =>
      hfinds x (List.mem_append_right _ hx)⟩
    cases s <;> first | exact trivial | cases hs
  | @cond span test a a' e e' ss ss' _ _ _ iha ihe ih =>
    obtain ⟨hps, hpss⟩ := Option.or_eq_none_iff.1 hplaced
    obtain ⟨hpa, hpe⟩ := Option.or_eq_none_iff.1 hps
    obtain ⟨⟨hca, hce⟩, hcss⟩ := hclear
    refine ⟨⟨iha hpa hca hbound hhere haround fun x hx => hfinds x ?_,
      ihe hpe hce hbound hhere haround fun x hx => hfinds x ?_⟩,
      ih hpss hcss hbound hhere haround fun x hx => hfinds x ?_⟩
    all_goals simp [Stmt.iteratesAll, Stmt.iterates, hx]
  | @loop span test body body' ss ss' _ _ ihb ih =>
    obtain ⟨hps, hpss⟩ := Option.or_eq_none_iff.1 hplaced
    refine ⟨ihb hps hclear.1 hbound hhere haround fun x hx => hfinds x ?_,
      ih hpss hclear.2 hbound hhere haround fun x hx => hfinds x ?_⟩
    all_goals simp [Stmt.iteratesAll, Stmt.iterates, hx]
  | @each span target iter body body' els els' ss ss' hiter _ _ _ ihb ihe ih =>
    obtain ⟨hps, hpss⟩ := Option.or_eq_none_iff.1 hplaced
    obtain ⟨hpb, hpe⟩ := Option.or_eq_none_iff.1 hps
    obtain ⟨⟨-, hcb, hce⟩, hcss⟩ := hclear
    refine ⟨⟨fun x n hx => ?_, ihb hpb hcb hbound hhere haround fun x hx => hfinds x ?_,
      ihe hpe hce hbound hhere haround fun x hx => hfinds x ?_⟩,
      ih hpss hcss hbound hhere haround fun x hx => hfinds x ?_⟩
    · rw [hiter] at hx
      cases hx
    all_goals simp [Stmt.iteratesAll, Stmt.iterates, hx]
  | @rounds span at_ target x n body body' ss ss' hx hn hexit _ _ ihb ih =>
    obtain ⟨hps, hpss⟩ := Option.or_eq_none_iff.1 hplaced
    obtain ⟨hpb, -⟩ := Option.or_eq_none_iff.1 hps
    obtain ⟨⟨hcx, hcb, -⟩, hcss⟩ := hclear
    refine ⟨⟨fun y m hy => ?_, ihb hpb hcb hbound hhere haround fun x hx => hfinds x ?_, trivial⟩,
      ih hpss hcss hbound hhere haround fun x hx => hfinds x ?_⟩
    · obtain ⟨at', heq, hget⟩ := known?_eq_some hy
      cases heq
      have hcontains : known.contains x = true :=
        Table.contains_iff.2 (Table.mem_keys_iff.2 ⟨_, hget⟩)
      have hfree : ¬ bound x := hcx x (by simp [Expr.alone]) hcontains
      obtain ⟨v, hv, hcounts, hlt⟩ :=
        hfinds x (by simp [Stmt.iteratesAll, Stmt.iterates, Expr.alone]) m hget hfree
      refine ⟨fun hx => hfree (hbound x hx), ⟨v, ?_, hcounts, hlt⟩, { c with inLoop := false },
        rfl, ?_⟩
      · rw [Sight.find?, haround]
        simp [Option.orElse_eq_or, ← Option.or_assoc, hv]
      · exact (Stmt.misplacedIn?_loop { c with inLoop := false } body hexit).symm.trans hpb
    all_goals simp [Stmt.iteratesAll, Stmt.iterates, hx]
  | @define span name ds ps body body' ss ss' _ _ ihb ih =>
    obtain ⟨hps, hpss⟩ := Option.or_eq_none_iff.1 hplaced
    obtain ⟨hcb, hcss⟩ := hclear
    refine ⟨ihb hps hcb (fun x hx => hx.imp (hbound x) id) (fun _ _ => rfl)
      (σ := σ.inFunction _) (by rw [Sight.inFunction, haround]) fun x hx n hn hfree => ?_,
      ih hpss hcss hbound hhere haround fun x hx => hfinds x ?_⟩
    · -- A name that is not bound on the way is read from outside, so it is captured.
      have hcontains : known.contains x = true :=
        Table.contains_iff.2 (Table.mem_keys_iff.2 ⟨_, hn⟩)
      have hreads := (Stmt.UnshadowedAll.reads body hcb x hx hcontains).2
      rw [not_or, not_or] at hfree
      have hcaptured : x ∈ Definition.freeNames ⟨name, ds, ps, body⟩ := by
        simp [Definition.freeNames, without, hreads, hfree]
      obtain ⟨v, hv, hcounts, hlt⟩ :=
        hfinds x (by simp [Stmt.iteratesAll, Stmt.iterates, hx]) n hn hfree.1
      refine ⟨v, ?_, hcounts, hlt⟩
      simpa [hcaptured, Sight.inFunction, Option.orElse_eq_or] using hv
    · simp [Stmt.iteratesAll, hx]
  | @class_ span name base body body' ss ss' _ _ ihb ih =>
    obtain ⟨hps, hpss⟩ := Option.or_eq_none_iff.1 hplaced
    refine ⟨ihb hps hclear.1 (fun x hx => hx.imp (hbound x) Or.inr) (fun _ _ => rfl)
      (σ := σ.inClass) haround fun x hx n hn hfree => ?_,
      ih hpss hclear.2 hbound hhere haround fun x hx => hfinds x ?_⟩
    · rw [not_or, not_or] at hfree
      have hfind := hfinds x (by simp [Stmt.iteratesAll, Stmt.iterates, hx]) n hn hfree.1
      rwa [hhere x hfree.2.1] at hfind
    · simp [Stmt.iteratesAll, hx]

end Unrolls

end StagedScript
