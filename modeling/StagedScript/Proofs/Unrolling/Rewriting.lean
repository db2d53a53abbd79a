import StagedScript.Proofs.Basic
import StagedScript.Specialize.Unroll
import StagedScript.Tree.Names

/-!
# Unrolled statements

When unrolling succeeds its result follows the statements that it was given, those loops aside that
have zero rounds: `Unrolls`.  From there it is an induction to see that the result reads and binds
the same names, starts with the same text, and misplaces the same control statements.
-/

namespace StagedScript

/-- The name that an expression is, if it is one. -/
def Expr.alone : Expr → List String
  | name _ x => [x]
  | _ => []

theorem Expr.mem_alone {e : Expr} {x : String} : x ∈ e.alone ↔ ∃ at_, e = .name at_ x := by
  cases e <;> simp [alone, eq_comm]

namespace Stmt

/-- Whether the statement is made of expressions alone. -/
def isPlain : Stmt → Bool
  | expr _ _ | assign _ _ _ | pass _ | ret _ _ | brk _ | cont _ => true
  | cond _ _ _ _ | loop _ _ _ | each _ _ _ _ _ | define _ _ _ _ _ | class_ _ _ _ _ => false

mutual

/-- The names that the loops of a statement run over, at any depth. -/
def iterates : Stmt → List String
  | each _ _ i b e => i.alone ++ iteratesAll b ++ iteratesAll e
  | cond _ _ a b => iteratesAll a ++ iteratesAll b
  | loop _ _ b => iteratesAll b
  | define _ _ _ _ b => iteratesAll b
  | class_ _ _ _ b => iteratesAll b
  | expr _ _ | assign _ _ _ | pass _ | ret _ _ | brk _ | cont _ => []

/-- The names that the loops of statements run over, at any depth. -/
def iteratesAll : List Stmt → List String
  | [] => []
  | s :: ss => iterates s ++ iteratesAll ss

end

mutual

/-- The statement, unless it is a void loop: one over a known name that has no items.  The void
loops in it are left out as well. -/
def withoutVoid (known : Table Extent) : Stmt → List Stmt
  | each span target iter b e =>
    match Unroll.known? known iter with
    | some (_, .sized 0) => []
    | _ => [each span target iter (withoutVoidAll known b) (withoutVoidAll known e)]
  | cond span test a b => [cond span test (withoutVoidAll known a) (withoutVoidAll known b)]
  | loop span test b => [loop span test (withoutVoidAll known b)]
  | define span name ds ps b => [define span name ds ps (withoutVoidAll known b)]
  | class_ span name base b => [class_ span name base (withoutVoidAll known b)]
  | s => [s]

/-- The statements without the void loops among and in them. -/
def withoutVoidAll (known : Table Extent) : List Stmt → List Stmt
  | [] => []
  | s :: ss => withoutVoid known s ++ withoutVoidAll known ss

end

mutual

theorem withoutVoid_eq_self {known : Table Extent} (s : Stmt)
    (hpos : ∀ x ∈ s.iterates, known.get? x ≠ some (.sized 0)) : s.withoutVoid known = [s] := by
  cases s with
  | expr _ _ | assign _ _ _ | pass _ | ret _ _ | brk _ | cont _ => rfl
  | cond span test a b =>
    have ha := withoutVoidAll_eq_self a fun x hx => hpos x (List.mem_append_left _ hx)
    have hb := withoutVoidAll_eq_self b fun x hx => hpos x (List.mem_append_right _ hx)
    rw [withoutVoid, ha, hb]
  | loop span test b | define span name ds ps b | class_ span name base b =>
    rw [withoutVoid, withoutVoidAll_eq_self b hpos]
  | each span target iter b e =>
    have hb := withoutVoidAll_eq_self b fun x hx => hpos x (by simp [iterates, hx])
    have he := withoutVoidAll_eq_self e fun x hx => hpos x (by simp [iterates, hx])
    unfold withoutVoid
    split
    · next x hknown =>
      cases iter with
      | name at_ y =>
        obtain ⟨extent, hget, heq⟩ := Option.map_eq_some_iff.1 hknown
        cases heq
        exact absurd hget (hpos _ (by simp [iterates, Expr.alone]))
      | _ => cases hknown
    · rw [hb, he]

/-- Where no name has no items, there is nothing to leave out. -/
theorem withoutVoidAll_eq_self {known : Table Extent} (b : List Stmt)
    (hpos : ∀ x ∈ iteratesAll b, known.get? x ≠ some (.sized 0)) : withoutVoidAll known b = b := by
  cases b with
  | nil => rfl
  | cons s ss =>
    have hs := withoutVoid_eq_self s fun x hx => hpos x (List.mem_append_left _ hx)
    have hss := withoutVoidAll_eq_self ss fun x hx => hpos x (List.mem_append_right _ hx)
    rw [withoutVoidAll, hs, hss, List.singleton_append]

end

theorem exitIn?_append (a b : List Stmt) : exitIn? (a ++ b) = (exitIn? a).or (exitIn? b) := by
  induction a with
  | nil => rfl
  | cons s a ih => rw [List.cons_append, exitIn?, exitIn?, ih, Option.or_assoc]

end Stmt

/-- The second list of statements is the first with the loops over known names unrolled. -/
inductive Unrolls (known : Table Extent) : List Stmt → List Stmt → Prop
  | nil : Unrolls known [] []
  | plain {s : Stmt} {ss ss' : List Stmt} : s.isPlain = true → Unrolls known ss ss' →
      Unrolls known (s :: ss) (s :: ss')
  | cond {span : Span} {test : Expr} {a a' b b' ss ss' : List Stmt} : Unrolls known a a' →
      Unrolls known b b' → Unrolls known ss ss' →
      Unrolls known (.cond span test a b :: ss) (.cond span test a' b' :: ss')
  | loop {span : Span} {test : Expr} {b b' ss ss' : List Stmt} : Unrolls known b b' →
      Unrolls known ss ss' → Unrolls known (.loop span test b :: ss) (.loop span test b' :: ss')
  | each {span : Span} {target iter : Expr} {b b' e e' ss ss' : List Stmt} :
      Unroll.known? known iter = none → Unrolls known b b' → Unrolls known e e' →
      Unrolls known ss ss' →
      Unrolls known (.each span target iter b e :: ss) (.each span target iter b' e' :: ss')
  | rounds {span at_ : Span} {target : Expr} {x : String} {n : Nat} {b b' ss ss' : List Stmt} :
      known.get? x = some (.sized n) → 0 < n → Stmt.exitIn? b = none → Unrolls known b b' →
      Unrolls known ss ss' →
      Unrolls known (.each span target (.name at_ x) b [] :: ss)
        (Unroll.rounds span target x n b' ++ ss')
  | define {span : Span} {name : String} {ds : List Expr} {ps : List (Param Expr)}
      {b b' ss ss' : List Stmt} : Unrolls known b b' → Unrolls known ss ss' →
      Unrolls known (.define span name ds ps b :: ss) (.define span name ds ps b' :: ss')
  | class_ {span : Span} {name : String} {base : Option Expr} {b b' ss ss' : List Stmt} :
      Unrolls known b b' → Unrolls known ss ss' →
      Unrolls known (.class_ span name base b :: ss) (.class_ span name base b' :: ss')

namespace Unrolls

variable {known : Table Extent} {b b' : List Stmt}

/-! ## Unrolling as it is computed -/

theorem stmts_eq (hb : Unrolls known b b') : Unroll.stmts known b = .ok b' := by
  induction hb with
  | nil => rfl
  | @plain s ss ss' hs _ ih =>
    cases s <;> simp_all [Stmt.isPlain, Unroll.stmts, Unroll.stmt, bind, Except.bind, pure,
      Except.pure]
  | cond _ _ _ iha ihb ihss =>
    simp [Unroll.stmts, Unroll.stmt, iha, ihb, ihss, bind, Except.bind, pure, Except.pure]
  | loop _ _ ihb ihss =>
    simp [Unroll.stmts, Unroll.stmt, ihb, ihss, bind, Except.bind, pure, Except.pure]
  | each hiter _ _ _ ihb ihe ihss =>
    simp [Unroll.stmts, Unroll.stmt, hiter, ihb, ihe, ihss, bind, Except.bind, pure, Except.pure]
  | @rounds span at_ target x n b b' ss ss' hx hn hexit _ _ ihb ihss =>
    have hn' : n ≠ 0 := Nat.pos_iff_ne_zero.1 hn
    simp [Unroll.stmts, Unroll.stmt, Unroll.known?, hx, Unroll.count, hexit, hn', ihb, ihss, bind,
      Except.bind, pure, Except.pure]
  | define _ _ ihb ihss =>
    simp [Unroll.stmts, Unroll.stmt, ihb, ihss, bind, Except.bind, pure, Except.pure]
  | class_ _ _ ihb ihss =>
    simp [Unroll.stmts, Unroll.stmt, ihb, ihss, bind, Except.bind, pure, Except.pure]

theorem known?_eq_some {iter : Expr} {x : String} {extent : Extent}
    (hknown : Unroll.known? known iter = some (x, extent)) :
    ∃ at_, iter = .name at_ x ∧ known.get? x = some extent := by
  cases iter <;> simp only [Unroll.known?, reduceCtorEq] at hknown
  case name at_ y =>
    obtain ⟨extent', hget, heq⟩ := Option.map_eq_some_iff.1 hknown
    cases heq
    exact ⟨at_, rfl, hget⟩

theorem count_eq_ok {span : Span} {x : String} {extent : Extent} {body els : List Stmt} {n : Nat}
    (hn : Unroll.count span x extent body els = .ok n) :
    els = [] ∧ extent = .sized n ∧ Stmt.exitIn? body = none := by
  unfold Unroll.count at hn
  split at hn
  · cases hn
  · next hels =>
    split at hn
    · cases hn
    · split at hn
      · cases hn
      · next hexit =>
        cases hn
        exact ⟨by simpa using hels, rfl, hexit⟩

mutual

theorem exit?_withoutVoid (s : Stmt) (hs : Stmt.exit? s = none) :
    Stmt.exitIn? (s.withoutVoid known) = none := by
  have hone {t : Stmt} (ht : Stmt.exit? t = none) : Stmt.exitIn? [t] = none :=
    Option.or_eq_none_iff.2 ⟨ht, rfl⟩
  cases s with
  | brk _ | cont _ => cases hs
  | expr _ _ | assign _ _ _ | pass _ | ret _ _ | loop _ _ _ | define _ _ _ _ _ | class_ _ _ _ _ =>
      rfl
  | cond span test a e =>
    obtain ⟨ha, he⟩ := Option.or_eq_none_iff.1 hs
    exact hone (Option.or_eq_none_iff.2 ⟨exitIn?_withoutVoid a ha, exitIn?_withoutVoid e he⟩)
  | each span target iter body els =>
    unfold Stmt.withoutVoid
    split
    · rfl
    · exact hone (exitIn?_withoutVoid els hs)

/-- No statement comes to leave a loop when void loops are taken out. -/
theorem exitIn?_withoutVoid (b : List Stmt) (hb : Stmt.exitIn? b = none) :
    Stmt.exitIn? (Stmt.withoutVoidAll known b) = none := by
  cases b with
  | nil => rfl
  | cons s ss =>
    obtain ⟨hs, hss⟩ := Option.or_eq_none_iff.1 hb
    rw [Stmt.withoutVoidAll, Stmt.exitIn?_append, exit?_withoutVoid s hs,
      exitIn?_withoutVoid ss hss]
    rfl

end

mutual

theorem of_stmt (s : Stmt) {b ss ss' : List Stmt} (hb : Unroll.stmt known s = .ok b)
    (hss : Unrolls known ss ss') : Unrolls known (s.withoutVoid known ++ ss) (b ++ ss') := by
  cases s with
  | expr _ _ | assign _ _ _ | pass _ | ret _ _ | brk _ | cont _ =>
    cases hb
    exact .plain rfl hss
  | cond span test a e =>
    obtain ⟨a', ha, hb⟩ := Except.bind_eq_ok.1 hb
    obtain ⟨e', he, hb⟩ := Except.bind_eq_ok.1 hb
    cases hb
    exact .cond (of_stmts_withoutVoid a ha) (of_stmts_withoutVoid e he) hss
  | loop span test body =>
    obtain ⟨body', hbody, hb⟩ := Except.bind_eq_ok.1 hb
    cases hb
    exact .loop (of_stmts_withoutVoid body hbody) hss
  | define span name ds ps body =>
    obtain ⟨body', hbody, hb⟩ := Except.bind_eq_ok.1 hb
    cases hb
    exact .define (of_stmts_withoutVoid body hbody) hss
  | class_ span name base body =>
    obtain ⟨body', hbody, hb⟩ := Except.bind_eq_ok.1 hb
    cases hb
    exact .class_ (of_stmts_withoutVoid body hbody) hss
  | each span target iter body els =>
    unfold Unroll.stmt at hb
    unfold Stmt.withoutVoid
    split at hb
    · next x extent hknown =>
      obtain ⟨at_, rfl, hget⟩ := known?_eq_some hknown
      obtain ⟨n, hn, hrounds⟩ := Except.bind_eq_ok.1 hb
      obtain ⟨rfl, rfl, hexit⟩ := count_eq_ok hn
      rw [hknown]
      cases n with
      | zero =>
        cases hrounds
        exact hss
      | succ n =>
        obtain ⟨body', hbody', hrounds⟩ := Except.bind_eq_ok.1 hrounds
        cases hrounds
        exact .rounds hget (Nat.succ_pos n) (exitIn?_withoutVoid body hexit)
          (of_stmts_withoutVoid body hbody') hss
    · next hknown =>
      obtain ⟨body', hbody', hb⟩ := Except.bind_eq_ok.1 hb
      obtain ⟨els', hels', hb⟩ := Except.bind_eq_ok.1 hb
      cases hb
      rw [hknown]
      exact .each hknown (of_stmts_withoutVoid body hbody') (of_stmts_withoutVoid els hels') hss

/-- Unrolling that succeeds follows the statements that are no void loops. -/
theorem of_stmts_withoutVoid (b : List Stmt) {b' : List Stmt} (hb : Unroll.stmts known b = .ok b') :
    Unrolls known (Stmt.withoutVoidAll known b) b' := by
  cases b with
  | nil =>
    cases hb
    exact .nil
  | cons s ss =>
    obtain ⟨front, hfront, hb⟩ := Except.bind_eq_ok.1 hb
    obtain ⟨rest, hrest, hb⟩ := Except.bind_eq_ok.1 hb
    cases hb
    exact of_stmt s hfront (of_stmts_withoutVoid ss hrest)

end

/-- Unrolling that succeeds, and replaces no loop by nothing, follows the statements. -/
theorem of_stmts (b : List Stmt) {b' : List Stmt} (hb : Unroll.stmts known b = .ok b')
    (hpos : ∀ x ∈ Stmt.iteratesAll b, known.get? x ≠ some (.sized 0)) : Unrolls known b b' := by
  have hfollows := of_stmts_withoutVoid b hb
  rwa [Stmt.withoutVoidAll_eq_self b hpos] at hfollows

mutual

theorem refl_stmt (s : Stmt) {ss : List Stmt} (hss : Unrolls .empty ss ss) :
    Unrolls .empty (s :: ss) (s :: ss) := by
  cases s with
  | expr _ _ | assign _ _ _ | pass _ | ret _ _ | brk _ | cont _ => exact .plain rfl hss
  | cond span test a e => exact .cond (refl a) (refl e) hss
  | loop span test body => exact .loop (refl body) hss
  | define span name ds ps body => exact .define (refl body) hss
  | class_ span name base body => exact .class_ (refl body) hss
  | each span target iter body els =>
    have hiter : Unroll.known? .empty iter = none := by cases iter <;> rfl
    exact .each hiter (refl body) (refl els) hss

/-- Where nothing is known, nothing is unrolled. -/
theorem refl (b : List Stmt) : Unrolls .empty b b := by
  cases b with
  | nil => exact .nil
  | cons s ss => exact refl_stmt s (refl ss)

end

theorem eq_of_empty {b b' : List Stmt} (hb : Unrolls .empty b b') : b' = b := by
  have hself := (refl b).stmts_eq
  rw [hb.stmts_eq] at hself
  exact Except.ok.inj hself

end Unrolls

/-! ## The rounds of a loop -/

/-- The copies of a body for `n` items of a loop, from an item on. -/
def Unroll.roundsFrom (span : Span) (target : Expr) (x : String) (b : List Stmt) :
    Nat → Nat → List Stmt
  | _, 0 => []
  | i, n + 1 => Unroll.take span target x i :: (b ++ roundsFrom span target x b (i + 1) n)

theorem Unroll.rounds_eq (span : Span) (target : Expr) (x : String) (n : Nat) (b : List Stmt) :
    Unroll.rounds span target x n b = Unroll.roundsFrom span target x b 0 n := by
  have hfrom (i : Nat) : ((List.range' i n).flatMap fun j => Unroll.take span target x j :: b) =
      Unroll.roundsFrom span target x b i n := by
    induction n generalizing i with
    | zero => rfl
    | succ n ih => simp [List.range'_succ, Unroll.roundsFrom, ih]
  rw [Unroll.rounds, List.range_eq_range', hfrom]

namespace Unrolls

variable {known : Table Extent} {b b' : List Stmt}

/-! ## What unrolling leaves as it is -/

theorem docstring?_eq (hb : Unrolls known b b') : docstring? b' = docstring? b := by
  cases hb with
  | @plain s ss ss' _ _ =>
    cases s with
    | expr _ e => cases e <;> rfl
    | _ => rfl
  | @rounds span at_ target x n b b' ss ss' _ hn _ _ _ =>
    obtain ⟨m, rfl⟩ := Nat.exists_eq_add_of_lt hn
    rw [Unroll.rounds_eq, Nat.zero_add]
    rfl
  | _ => rfl

end Unrolls

/-! ## Unrolled scripts -/

/-- The statements are taken out of a script, and what they are replaced by is put there instead. -/
theorem Script.unroll_eq (known : Table Extent) (script : Script) : Script.unroll known script =
    match Unroll.stmts known script.body with
    | .ok b => .ok () { script with body := b }
    | .error (span, cause) => .error ⟨script.location span, cause⟩ { script with body := [] } := by
  have hget : (get : EStateM UnrollError Script Script) script = .ok script script := rfl
  have hset : (set { script with body := [] } : EStateM UnrollError Script PUnit) script =
      .ok ⟨⟩ { script with body := [] } := rfl
  unfold Script.unroll
  rw [EStateM.bind_ok hget, EStateM.bind_ok hset]
  cases Unroll.stmts known script.body <;> rfl

/-- What unrolling makes of a script, if it makes something of it. -/
theorem Script.unroll_eq_ok {known : Table Extent} {script script' : Script} :
    Script.unroll known script = .ok () script' ↔
      ∃ b, Unroll.stmts known script.body = .ok b ∧ script' = { script with body := b } := by
  rw [unroll_eq]
  cases Unroll.stmts known script.body <;> simp [eq_comm]

end StagedScript
